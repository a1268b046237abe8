import Mathlib.Data.List.Basic

/-!
# Sequences with several origins

A shared container keeps an order only among the elements of one origin.
`Parts` says that a sequence consists of two others, of which the first comes
before the second as far as any single origin can tell.
-/

namespace Traft.Semantics

variable {ι α : Type*} [DecidableEq ι]

/-- The elements of one origin, in order. -/
def ofOrigin (origin : ι) (items : List (ι × α)) : List (ι × α) :=
  items.filter fun item => item.1 = origin

@[simp] theorem ofOrigin_append (origin : ι) (items others : List (ι × α)) :
    ofOrigin origin (items ++ others) = ofOrigin origin items ++ ofOrigin origin others :=
  List.filter_append items others

/-- One element has one origin. -/
theorem ofOrigin_singleton (origin : ι) (item : ι × α) :
    ofOrigin origin [item] = if item.1 = origin then [item] else [] := by
  rw [ofOrigin, List.filter_singleton, Bool.cond_decide]

/-- The elements of one origin among those of another are all of them or none. -/
theorem ofOrigin_map (origin other : ι) (elements : List α) :
    ofOrigin origin (elements.map (Prod.mk other)) =
      if other = origin then elements.map (Prod.mk other) else [] := by
  induction elements with
  | nil => split <;> rfl
  | cons element elements inductionHypothesis =>
      rw [List.map_cons, ← List.singleton_append, ofOrigin_append, ofOrigin_singleton,
        inductionHypothesis]
      split <;> rfl

/-- For each origin, the elements of `whole` are those of `first` followed by
those of `rest`. -/
def Parts (whole first rest : List (ι × α)) : Prop :=
  ∀ origin, ofOrigin origin whole = ofOrigin origin first ++ ofOrigin origin rest

/-- Sequences that every origin sees alike differ in their order alone. -/
theorem perm_of_ofOrigin {items others : List (ι × α)}
    (same : ∀ origin, ofOrigin origin items = ofOrigin origin others) : items.Perm others := by
  classical
  rw [List.perm_iff_count]
  intro item
  have counted : ∀ list : List (ι × α), (ofOrigin item.1 list).count item = list.count item :=
    fun list => List.count_filter (by simp)
  rw [← counted items, same, counted]

namespace Parts

variable {whole first rest : List (ι × α)}

/-- Cutting a sequence in two parts it. -/
theorem append (first rest : List (ι × α)) : Parts (first ++ rest) first rest :=
  fun origin => ofOrigin_append origin first rest

/-- Parts have the elements of the whole. -/
theorem perm (parts : Parts whole first rest) : whole.Perm (first ++ rest) := by
  apply perm_of_ofOrigin
  intro origin
  rw [parts origin, ofOrigin_append]

/-- What parts the second part extends the first. -/
theorem trans {middle last : List (ι × α)} (parts : Parts whole first rest)
    (further : Parts rest middle last) : Parts whole (first ++ middle) last := by
  intro origin
  rw [parts origin, further origin, ofOrigin_append, List.append_assoc]

/-- What comes last is in the second part. -/
theorem append_right (parts : Parts whole first rest) (last : List (ι × α)) :
    Parts (whole ++ last) first (rest ++ last) := by
  intro origin
  rw [ofOrigin_append, ofOrigin_append, parts origin, List.append_assoc]

/-- The first elements of one origin can be taken out, and those of the others stay. -/
theorem of_origin {origin : ι} {first last : List (ι × α)}
    (own : ofOrigin origin whole = first ++ last) :
    ∃ rest, Parts whole first rest ∧ ofOrigin origin rest = last ∧
      ∀ other, other ≠ origin → ofOrigin other rest = ofOrigin other whole := by
  induction first generalizing whole with
  | nil => exact ⟨whole, append [] whole, own, fun _ _ => rfl⟩
  | cons item first inductionHypothesis =>
      obtain ⟨before, behind, rfl, foreign, same, others⟩ := List.filter_eq_cons_iff.mp own
      obtain rfl := of_decide_eq_true same
      -- no element of the origin comes before the one taken out
      have nothing : ofOrigin item.1 before = [] := List.filter_eq_nil_iff.mpr foreign
      have without : ofOrigin item.1 (before ++ behind) = first ++ last := by
        rw [ofOrigin_append, nothing, List.nil_append]
        exact others
      obtain ⟨rest, parts, mine, theirs⟩ := inductionHypothesis without
      have apart : ∀ other, ofOrigin other (before ++ item :: behind) =
          ofOrigin other [item] ++ ofOrigin other (before ++ behind) := by
        intro other
        rw [← List.singleton_append, ofOrigin_append, ofOrigin_append, ofOrigin_append,
          ofOrigin_singleton]
        split
        · rename_i equal
          rw [← equal, nothing, List.nil_append, List.nil_append]
        · rw [List.nil_append, List.nil_append]
      have one : Parts (before ++ item :: behind) [item] (before ++ behind) := apart
      refine ⟨rest, one.trans parts, mine, fun other distinct => ?_⟩
      rw [apart other, ofOrigin_singleton, if_neg distinct.symm, List.nil_append]
      exact theirs other distinct

/-- A new element joins the second part. -/
theorem concat (parts : Parts whole first rest) (item : ι × α) :
    Parts (whole ++ [item]) first (rest ++ [item]) := by
  intro origin
  rw [ofOrigin_append, ofOrigin_append, parts origin, List.append_assoc]

end Parts

end Traft.Semantics
