import Mathlib.Data.List.Basic

/-!
# Work handed over in batches

A consumer takes a sequence in consecutive batches and consults its stop flag
only between them, so it is handed the whole batch in which the flag was
raised. `handedOver_eq_take` bounds what that adds behind the stopping element,
and `countP_handedOver_eq_iff` says for which sequences the cut never shows.
-/

namespace Traft.Semantics

variable {α : Type*}

/-- `batches` cuts `elements` into consecutive batches of 1 to `limit` elements. -/
structure Splits (limit : Nat) (batches : List (List α)) (elements : List α) : Prop where
  whole : batches.flatten = elements
  sized : ∀ batch ∈ batches, 1 ≤ batch.length ∧ batch.length ≤ limit

/-- What a consumer is handed: the batches up to the first with a stopping element. -/
def handedOver (stops : α → Bool) : List (List α) → List α
  | [] => []
  | batch :: rest => if batch.any stops then batch else batch ++ handedOver stops rest

/-- Nothing effective stands among the `limit - 1` elements behind the first
stopping one. -/
def Quiet (stops effective : α → Bool) (limit : Nat) (elements : List α) : Prop :=
  ∀ element ∈ (elements.drop (elements.findIdx stops + 1)).take (limit - 1),
    effective element = false

/-- The batches behind the first of a splitting split what that one left. -/
theorem Splits.tail {limit : Nat} {batch : List α} {rest : List (List α)} {elements : List α}
    (splits : Splits limit (batch :: rest) elements) : Splits limit rest rest.flatten :=
  ⟨rfl, fun other present => splits.sized other (List.mem_cons_of_mem _ present)⟩

/-- Everything up to the first stopping element is handed over, and fewer than
`limit` elements behind it. -/
theorem handedOver_eq_take (stops : α → Bool) {limit : Nat} (positive : 0 < limit)
    {batches : List (List α)} {elements : List α} (splits : Splits limit batches elements) :
    ∃ extra < limit, handedOver stops batches =
      elements.take (elements.findIdx stops + 1 + extra) := by
  induction batches generalizing elements with
  | nil =>
      obtain rfl : [] = elements := splits.whole
      exact ⟨0, positive, by simp [handedOver]⟩
  | cons batch rest inductionHypothesis =>
      obtain rfl : batch ++ rest.flatten = elements := splits.whole
      rw [handedOver, List.findIdx_append]
      by_cases stopping : batch.any stops = true
      · have inside : batch.findIdx stops < batch.length :=
          List.findIdx_lt_length.mpr (List.any_eq_true.mp stopping)
        have bound := (splits.sized batch List.mem_cons_self).2
        refine ⟨batch.length - (batch.findIdx stops + 1), by omega, ?_⟩
        have whole : batch.findIdx stops + 1 + (batch.length - (batch.findIdx stops + 1)) =
            batch.length := by omega
        rw [if_pos stopping, if_pos inside, whole, List.take_left]
      · have outside : ¬ batch.findIdx stops < batch.length :=
          fun inside => stopping (List.any_eq_true.mpr (List.findIdx_lt_length.mp inside))
        obtain ⟨extra, bound, handed⟩ := inductionHypothesis splits.tail
        refine ⟨extra, bound, ?_⟩
        have position : rest.flatten.findIdx stops + batch.length + 1 + extra =
            batch.length + (rest.flatten.findIdx stops + 1 + extra) := by omega
        rw [if_neg stopping, if_neg outside, position, List.take_length_add_append, handed]

/-- Each of these lengths is the outcome of some splitting. -/
theorem exists_handedOver_eq_take (stops : α → Bool) {limit extra : Nat} (bound : extra < limit)
    (elements : List α) :
    ∃ batches, Splits limit batches elements ∧
      handedOver stops batches = elements.take (elements.findIdx stops + 1 + extra) := by
  induction elements with
  | nil => exact ⟨[], ⟨rfl, nofun⟩, by simp [handedOver]⟩
  | cons element rest inductionHypothesis =>
      by_cases stopping : stops element = true
      · refine ⟨(element :: rest.take extra) :: (rest.drop extra).map fun other => [other],
          ⟨?_, ?_⟩, ?_⟩
        · rw [List.flatten_cons, ← List.flatMap_def, List.flatMap_singleton', List.cons_append,
            List.take_append_drop]
        · intro batch present
          rcases List.mem_cons.mp present with rfl | single
          · have short := List.length_take_le extra rest
            simp only [List.length_cons]
            omega
          · obtain ⟨other, _, rfl⟩ := List.mem_map.mp single
            simp only [List.length_singleton]
            omega
        · simp [handedOver, stopping, List.findIdx_cons, Nat.add_comm 1 extra]
      · obtain ⟨batches, splits, handed⟩ := inductionHypothesis
        refine ⟨[element] :: batches, ⟨by simp [splits.whole], ?_⟩, ?_⟩
        · intro batch present
          rcases List.mem_cons.mp present with rfl | later
          · simp only [List.length_singleton]
            omega
          · exact splits.sized batch later
        · have position : rest.findIdx stops + 1 + 1 + extra =
              rest.findIdx stops + 1 + extra + 1 := by omega
          simp [handedOver, stopping, List.findIdx_cons, handed, position]

/-- What a longer prefix adds to one that ends with the first stopping element. -/
theorem take_findIdx_add (stops : α → Bool) (elements : List α) (extra : Nat) :
    elements.take (elements.findIdx stops + 1 + extra) =
      elements.take (elements.findIdx stops + 1) ++
        (elements.drop (elements.findIdx stops + 1)).take extra :=
  List.take_add

/-- A prefix leaves the same elements whether or not it was cut short. -/
theorem drop_length_take (elements : List α) (count : Nat) :
    elements.drop (elements.take count).length = elements.drop count := by
  rw [List.length_take]
  rcases Nat.le_total count elements.length with within | beyond
  · rw [Nat.min_eq_left within]
  · rw [Nat.min_eq_right beyond, List.drop_length, List.drop_eq_nil_of_le beyond]

/-- In a quiet sequence what is handed over behind the first stopping element has
no effect. -/
theorem Quiet.ineffective {stops effective : α → Bool} {limit extra : Nat} {elements : List α}
    (quiet : Quiet stops effective limit elements) (bound : extra < limit) :
    ∀ element ∈ (elements.drop (elements.findIdx stops + 1)).take extra,
      effective element = false := by
  intro element present
  refine quiet element ?_
  have shorter : extra ≤ limit - 1 := by omega
  exact (List.take_prefix_take_left shorter).subset present

/-- The number of effective elements handed over is the same for all splittings
exactly if the sequence is quiet. -/
theorem countP_handedOver_eq_iff (stops effective : α → Bool) {limit : Nat}
    (positive : 0 < limit) (elements : List α) :
    (∀ batches others, Splits limit batches elements → Splits limit others elements →
      (handedOver stops batches).countP effective = (handedOver stops others).countP effective) ↔
      Quiet stops effective limit elements := by
  constructor
  · intro same element present
    -- compare the shortest and the longest run
    obtain ⟨shortest, splits, short⟩ := exists_handedOver_eq_take stops positive elements
    obtain ⟨longest, splits', long⟩ :=
      exists_handedOver_eq_take stops (Nat.sub_lt positive Nat.one_pos) elements
    have counts := same shortest longest splits splits'
    rw [short, long, Nat.add_zero, take_findIdx_add, List.countP_append] at counts
    have none : ((elements.drop (elements.findIdx stops + 1)).take (limit - 1)).countP
        effective = 0 := by omega
    rw [List.countP_eq_zero] at none
    exact Bool.eq_false_iff.mpr (none element present)
  · intro quiet batches others splits splits'
    have count : ∀ {batches : List (List α)}, Splits limit batches elements →
        (handedOver stops batches).countP effective =
          (elements.take (elements.findIdx stops + 1)).countP effective := by
      intro batches splits
      obtain ⟨extra, bound, handed⟩ := handedOver_eq_take stops positive splits
      have none := List.countP_eq_zero.mpr fun element present =>
        Bool.eq_false_iff.mp (quiet.ineffective bound element present)
      rw [handed, take_findIdx_add, List.countP_append, none, Nat.add_zero]
    rw [count splits, count splits']

/-- Treating what is handed over of a quiet sequence, by a function that leaves
ineffective elements alone, gives the same sequence for all splittings. -/
theorem Quiet.map_handedOver {stops effective : α → Bool} {limit : Nat} {elements : List α}
    (quiet : Quiet stops effective limit elements) (positive : 0 < limit) {treat : α → α}
    (idle : ∀ element, effective element = false → treat element = element)
    {batches : List (List α)} (splits : Splits limit batches elements) :
    (handedOver stops batches).map treat ++ elements.drop (handedOver stops batches).length =
      (elements.take (elements.findIdx stops + 1)).map treat ++
        elements.drop (elements.findIdx stops + 1) := by
  obtain ⟨extra, bound, handed⟩ := handedOver_eq_take stops positive splits
  have behind : elements.drop (handedOver stops batches).length =
      (elements.drop (elements.findIdx stops + 1)).drop extra := by
    rw [handed, drop_length_take, List.drop_drop]
  have unchanged : ((elements.drop (elements.findIdx stops + 1)).take extra).map treat =
      (elements.drop (elements.findIdx stops + 1)).take extra :=
    (List.map_congr_left fun element present =>
      idle element (quiet.ineffective bound element present)).trans (List.map_id _)
  rw [behind, handed, take_findIdx_add, List.map_append, unchanged, List.append_assoc,
    List.take_append_drop]

end Traft.Semantics
