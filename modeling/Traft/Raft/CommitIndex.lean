import Traft.Raft.BoxRun
import Traft.Raft.Completion

/-!
# The commit index and the voting window

`CommitRange` returns early when it has found a granted ballot and goes on to
publish when it has not, so what it publishes is the sentinel.
`SetLastCommittedIndex` turns an index away from an open box when it lies below
the window and lets it through when it does not. The results here say which
runs stay clear of the one or the other, as long as `OpenAt` is called within its
assertion.
-/

namespace Traft.Raft

open Traft.Semantics

namespace BallotBox

/-- A call keeps the commit index: it is another call than `CommitRange`, nothing has
been committed yet, it is refused the storage it asks for, or the vote of its peer
completes a ballot of its range. -/
def KeepsIndex (build : Build) (box : BallotBox) : Call → Prop
  | .commitRange startIndex endIndex peer allocator =>
      box.lastCommittedIndex = kInvalidIndex ∨
        ¬ Reservable allocator (box.moved build endIndex) ∨
        box.hint.CompletesSome peer (box.visited build startIndex endIndex)
  | _ => True

/-- Each step of a run leaves the commit index where it was or advances it, exactly
if each `CommitRange` is made while nothing has been committed, is refused its
storage, or completes a ballot of its range. -/
theorem lastCommittedIndex_monotone_iff (build : Build) (calls : List Call) :
    (honouring build).EachStep
        (fun _ box _ next => box.lastCommittedIndex ≤ next.lastCommittedIndex) calls ↔
      (honouring build).EachStep (fun _ box call _ => box.KeepsIndex build call) calls := by
  refine StepSystem.eachStep_congr (bounded build) ?_ calls
  rintro _ box call next ⟨committed, nonneg⟩ ⟨_, step⟩
  cases Step.effect (.of_nonneg nonneg) step with
  | opened above => exact iff_of_true (Int.le_refl _) trivial
  | launched conf oldConf => exact iff_of_true (Int.le_refl _) trivial
  | voted visits some =>
      have completes := (isGranted_grantAll_iff visits.grants).mp some
      exact iff_of_true (Int.le_refl _) (.inr (.inr completes))
  | published visits none _ =>
      constructor
      · intro monotone
        exact .inl (Int.le_antisymm monotone committed)
      · rintro (fresh | refused | completes)
        · exact Int.le_of_eq fresh
        · exact absurd visits.reservable refused
        · obtain ⟨ballot, present, isGranted⟩ :=
            (isGranted_grantAll_iff visits.grants).mpr completes
          exact absurd ((none ballot present).symm.trans isGranted) Bool.false_ne_true
  | threw refused => exact iff_of_true (Int.le_refl _) (.inr (.inl refused))
  | set index =>
      refine iff_of_true ?_ trivial
      obtain ⟨advanced, larger, written⟩ := box.setLastCommittedIndex_eq index
      rw [written]
      exact larger
  | closed => exact iff_of_true (Int.le_refl _) trivial

/-- A follower's index is committed, the box is opened above it, and an empty
acknowledgement sets the commit index back to the sentinel, in either build. -/
theorem lastCommittedIndex_regresses :
    (¬ (honouring .debug).EachStep
      (fun _ box _ next => box.lastCommittedIndex ≤ next.lastCommittedIndex)
      [.setLastCommittedIndex 5, .openAt 6, .commitRange 7 6 (replica 1)]) ∧
    ¬ (honouring .release).EachStep
      (fun _ box _ next => box.lastCommittedIndex ≤ next.lastCommittedIndex)
      [.setLastCommittedIndex 5, .openAt 6, .commitRange 7 6 (replica 1)] := by
  have fails : ∀ build, ¬ (honouring build).EachStep
      (fun _ box _ next => box.lastCommittedIndex ≤ next.lastCommittedIndex)
      [.setLastCommittedIndex 5, .openAt 6, .commitRange 7 6 (replica 1)] := by
    intro build monotone
    have run : (honouring build).Runs [.setLastCommittedIndex 5, .openAt 6]
        { lastCommittedIndex := 5, votingIndex := 6 } :=
      runs_of_advanceHonouring (by cases build <;> rfl)
    have transition : (honouring build).Step { lastCommittedIndex := 5, votingIndex := 6 }
        (.commitRange 7 6 (replica 1)) ({} : BallotBox) :=
      step_of_advanceHonouring (by cases build <;> rfl)
    have regressed : (5 : Int) ≤ -1 := monotone (List.prefix_refl _) run transition
    omega
  exact ⟨fails .debug, fails .release⟩

/-- An open box only takes indexes below its window from
`SetLastCommittedIndex`, which it then turns away. -/
def KeepsWindow (box : BallotBox) : Call → Prop
  | .setLastCommittedIndex index => box.votingIndex ≠ 0 → index < box.votingIndex
  | _ => True

/-- In every state of a run an open box has its window above the commit index,
exactly if no `SetLastCommittedIndex` of the run hands an open box an index at or
above its window. -/
theorem window_above_commit_iff (build : Build) (calls : List Call) :
    (honouring build).Always
        (fun _ box => box.votingIndex ≠ 0 → box.votingIndex > box.lastCommittedIndex) calls ↔
      (honouring build).EachStep (fun _ box call _ => box.KeepsWindow call) calls := by
  refine StepSystem.always_iff_eachStep (bounded build) ?_ ?_ calls
  · rintro _ rfl
    exact fun window => absurd rfl window
  · rintro _ box call next ⟨_, nonneg⟩ above ⟨honours, step⟩
    cases Step.effect (.of_nonneg nonneg) step with
    | opened => exact iff_of_true (fun _ => honours) trivial
    | launched conf oldConf => exact iff_of_true above trivial
    | voted => exact iff_of_true above trivial
    | published => exact iff_of_true (fun window => absurd rfl window) trivial
    | threw => exact iff_of_true above trivial
    | set index =>
        constructor
        · intro kept window
          by_contra notBelow
          have larger := above window
          have written : box.setLastCommittedIndex index =
              { box with lastCommittedIndex := index } :=
            setLastCommittedIndex_above (by omega) (by omega)
          rw [written] at kept
          have still := kept window
          dsimp only at still
          omega
        · intro below
          by_cases window : box.votingIndex = 0
          · obtain ⟨_, _, written⟩ := box.setLastCommittedIndex_eq index
            rw [written]
            exact fun stillOpen => absurd window stillOpen
          · rw [setLastCommittedIndex_below window (below window)]
            exact above
    | closed => exact iff_of_true (fun window => absurd rfl window) trivial

/-- A leader whose window starts at 1 commits index 5 for its waiting ballots
when it is handed that index, in either build. -/
theorem window_overtaken :
    (¬ (honouring .debug).Always
      (fun _ box => box.votingIndex ≠ 0 → box.votingIndex > box.lastCommittedIndex)
      [.openAt 1, .setLastCommittedIndex 5]) ∧
    ¬ (honouring .release).Always
      (fun _ box => box.votingIndex ≠ 0 → box.votingIndex > box.lastCommittedIndex)
      [.openAt 1, .setLastCommittedIndex 5] := by
  have fails : ∀ build, ¬ (honouring build).Always
      (fun _ box => box.votingIndex ≠ 0 → box.votingIndex > box.lastCommittedIndex)
      [.openAt 1, .setLastCommittedIndex 5] := by
    intro build always
    have run : (honouring build).Runs [.openAt 1, .setLastCommittedIndex 5]
        { lastCommittedIndex := 5, votingIndex := 1 } :=
      runs_of_advanceHonouring (by cases build <;> rfl)
    have overtaken : (1 : Int) > 5 := always (List.prefix_refl _) run (by decide)
    omega
  exact ⟨fails .debug, fails .release⟩

end BallotBox

end Traft.Raft
