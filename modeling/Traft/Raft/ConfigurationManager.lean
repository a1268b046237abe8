import Mathlib.Data.Int.Order.Basic
import Traft.Raft.LogEntry
import Traft.Semantics.Records

/-!
# The history of configurations

`Add` compares an entry with the last one it kept. That one has the largest index
of all entries it was ever given, kept or not, so what it keeps are the records.
-/

namespace Traft.Raft

open Traft.Semantics

/-- `ConfigurationManager`. -/
structure ConfigurationManager where
  confEntries : List LogEntry := []

namespace ConfigurationManager

/-- `Add`: its error code, and the manager after. -/
def add (manager : ConfigurationManager) (entry : LogEntry) : ErrorCode × ConfigurationManager :=
  match manager.confEntries.getLast? with
  | some lastEntry =>
      if lastEntry.getIndex ≥ entry.getIndex then
        (.logIndexInvalid, manager)
      else
        (.ok, { manager with confEntries := manager.confEntries ++ [entry] })
  | none => (.ok, { manager with confEntries := manager.confEntries ++ [entry] })

/-- The manager after adding some entries in order. -/
def addAll (manager : ConfigurationManager) (entries : List LogEntry) : ConfigurationManager :=
  entries.foldl (fun manager entry => (manager.add entry).2) manager

/-- `Add` keeps the entries above the last one, and refuses the others without a
change. -/
theorem add_cases (manager : ConfigurationManager) (entry : LogEntry) :
    ((∀ last ∈ manager.confEntries.getLast?, last.getIndex < entry.getIndex) ∧
      manager.add entry =
        (.ok, { manager with confEntries := manager.confEntries ++ [entry] })) ∨
    ((¬ ∀ last ∈ manager.confEntries.getLast?, last.getIndex < entry.getIndex) ∧
      manager.add entry = (.logIndexInvalid, manager)) := by
  unfold add
  cases manager.confEntries.getLast? with
  | none => exact .inl ⟨nofun, rfl⟩
  | some last =>
      by_cases below : last.getIndex ≥ entry.getIndex
      · refine .inr ⟨fun above => ?_, if_pos below⟩
        have higher := above last rfl
        omega
      · refine .inl ⟨?_, if_neg below⟩
        intro other listed
        obtain rfl := Option.some.inj listed
        omega

/-- The entries kept of a sequence are its records. -/
theorem confEntries_addAll (entries : List LogEntry) :
    (addAll {} entries).confEntries = records LogEntry.getIndex entries := by
  induction entries using List.reverseRecOn with
  | nil => rfl
  | append_singleton entries entry inductionHypothesis =>
      have added : addAll {} (entries ++ [entry]) = ((addAll {} entries).add entry).2 := by
        simp [addAll]
      rw [added, records_concat]
      have tops := tops_iff_last LogEntry.getIndex entries entry
      rw [← inductionHypothesis] at tops ⊢
      rcases (addAll {} entries).add_cases entry with ⟨above, kept⟩ | ⟨below, refused⟩
      · rw [kept, if_pos (tops.mpr above)]
      · rw [refused, if_neg (tops.not.mpr below)]

/-- What `Add` answers about an entry after those `before` it. -/
structure Answers (before : List LogEntry) (entry : LogEntry) : Prop where
  accepted : ((addAll {} before).add entry).1 = .ok ↔ Tops LogEntry.getIndex before entry
  otherwise : ((addAll {} before).add entry).1 = .ok ∨
    ((addAll {} before).add entry).1 = .logIndexInvalid
  refused : ((addAll {} before).add entry).1 = .logIndexInvalid →
    ((addAll {} before).add entry).2 = addAll {} before

/-- `Add` accepts the entries that top all before them. -/
theorem answers (before : List LogEntry) (entry : LogEntry) : Answers before entry := by
  have tops := tops_iff_last LogEntry.getIndex before entry
  rw [← confEntries_addAll] at tops
  rcases (addAll {} before).add_cases entry with ⟨above, kept⟩ | ⟨below, refused⟩
  · refine ⟨?_, .inl (by rw [kept]), ?_⟩
    · rw [kept]
      exact iff_of_true rfl (tops.mpr above)
    · rw [kept]
      exact nofun
  · refine ⟨?_, .inr (by rw [refused]), fun _ => by rw [refused]⟩
    rw [refused]
    exact iff_of_false nofun (tops.not.mpr below)

/-- After any sequence of entries the manager holds its records, whose indexes
increase, and it has answered `OK` for those alone. -/
theorem keeps_records (entries : List LogEntry) :
    (addAll {} entries).confEntries = records LogEntry.getIndex entries ∧
      ((addAll {} entries).confEntries.Pairwise fun earlier later =>
        earlier.getIndex < later.getIndex) ∧
      ∀ before entry, before ++ [entry] <+: entries → Answers before entry := by
  refine ⟨confEntries_addAll entries, ?_, fun before entry _ => answers before entry⟩
  rw [confEntries_addAll]
  exact records_increasing LogEntry.getIndex entries

end ConfigurationManager

end Traft.Raft
