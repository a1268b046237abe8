import Mathlib.Order.Lattice
import Mathlib.Data.List.Induction

/-!
# Records of a sequence

An item of a sequence is a record when its key is above the keys of all items
before it. The last record has the largest key so far, so a scan that compares
with the last record it kept finds exactly the records.
-/

namespace Traft.Semantics

variable {α κ : Type*} [LinearOrder κ]

/-- The key of `item` is above the keys of all items `before` it. -/
def Tops (key : α → κ) (before : List α) (item : α) : Prop :=
  ∀ earlier ∈ before, key earlier < key item

instance (key : α → κ) (before : List α) (item : α) : Decidable (Tops key before item) :=
  inferInstanceAs (Decidable (∀ _ ∈ _, _))

/-- The items of a sequence that top those before them, in their order. -/
def records (key : α → κ) (items : List α) : List α :=
  (items.zipIdx.filter fun entry => Tops key (items.take entry.2) entry.1).map Prod.fst

/-- A further item joins the records exactly if it tops the sequence. -/
theorem records_concat (key : α → κ) (items : List α) (item : α) :
    records key (items ++ [item]) =
      if Tops key items item then records key items ++ [item] else records key items := by
  have earlier : (items.zipIdx.filter fun entry =>
        Tops key ((items ++ [item]).take entry.2) entry.1) =
      items.zipIdx.filter fun entry => Tops key (items.take entry.2) entry.1 := by
    apply List.filter_congr
    intro entry listed
    have inside := List.snd_lt_of_mem_zipIdx listed
    rw [List.take_append_of_le_length (by omega)]
  have last : (items ++ [item]).zipIdx = items.zipIdx ++ [(item, items.length)] := by
    rw [List.zipIdx_append]
    simp
  rw [records, last, List.filter_append, earlier, List.map_append]
  by_cases tops : Tops key items item
  · simp [records, tops]
  · simp [records, tops]

/-- Records are items of the sequence. -/
theorem records_sublist (key : α → κ) (items : List α) : (records key items).Sublist items := by
  have kept := (List.filter_sublist (l := items.zipIdx)
    (p := fun entry => decide (Tops key (items.take entry.2) entry.1))).map Prod.fst
  rwa [List.zipIdx_map_fst] at kept

/-- The keys of the records increase. -/
theorem records_increasing (key : α → κ) (items : List α) :
    (records key items).Pairwise fun earlier later => key earlier < key later := by
  induction items using List.reverseRecOn with
  | nil => exact .nil
  | append_singleton items item inductionHypothesis =>
      rw [records_concat]
      split
      · rename_i tops
        rw [List.pairwise_append]
        refine ⟨inductionHypothesis, List.pairwise_singleton _ _, ?_⟩
        intro earlier present later new
        obtain rfl := List.mem_singleton.mp new
        exact tops earlier ((records_sublist key items).mem present)
      · exact inductionHypothesis

/-- To top the last record is to top the whole sequence. -/
theorem tops_iff_last (key : α → κ) (items : List α) (item : α) :
    Tops key items item ↔ ∀ last ∈ (records key items).getLast?, key last < key item := by
  induction items using List.reverseRecOn with
  | nil => exact iff_of_true nofun nofun
  | append_singleton items newest inductionHypothesis =>
      rw [records_concat]
      constructor
      · intro tops last listed
        apply tops
        split at listed
        · obtain rfl : newest = last := by simpa using listed
          simp
        · have present := (records_sublist key items).mem (List.mem_of_getLast? listed)
          exact List.mem_append_left _ present
      · intro aboveLast earlier present
        split at aboveLast
        · -- the newest item is the last record, and tops the others
          rename_i tops
          have above : key newest < key item := aboveLast newest (by simp)
          rcases List.mem_append.mp present with before | new
          · exact lt_trans (tops earlier before) above
          · rwa [List.mem_singleton.mp new]
        · -- the newest item does not top the others, so topping them is enough
          rename_i below
          have tops := inductionHypothesis.mpr aboveLast
          rcases List.mem_append.mp present with before | new
          · exact tops earlier before
          · obtain ⟨higher, listed, least⟩ : ∃ higher ∈ items, ¬ key higher < key newest := by
              simpa [Tops] using below
            rw [List.mem_singleton.mp new]
            exact lt_of_le_of_lt (not_lt.mp least) (tops higher listed)

end Traft.Semantics
