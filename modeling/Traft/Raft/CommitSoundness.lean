import Traft.Raft.History

/-!
# Soundness of published indexes

Whatever `CommitRange` stores should be an index whose ballot its acknowledgers
granted. The only value it ever stores is the sentinel. With assertions the
sentinel is nobody's index, so the first call that is not refused its storage is
unsound. Without them a term may be opened below zero, where a ballot can have it.
-/

namespace Traft.Raft

open Traft.Memory Traft.Semantics

namespace BallotBox

/-- The value a call of `CommitRange` writes to `last_committed_index_`. -/
def stores (build : Build) (box : BallotBox) : Call → Option Int
  | .commitRange startIndex endIndex peer allocator =>
      match box.commitRange build allocator startIndex endIndex peer with
      | .ok commit => commit.stored
      | .error _ => none
  | _ => none

/-- The calls of a run that stay sound: with assertions a `CommitRange` is refused the
storage it asks for, and without them it is made while the sentinel is itself the
index of a ballot of the term that a quorum has acknowledged. -/
def StaysSound (build : Build) (before : List Call) (box : BallotBox) (call : Call) : Prop :=
  match call, build with
  | .commitRange _ endIndex _ allocator, .debug =>
      ¬ Reservable allocator (box.moved .debug endIndex)
  | .commitRange .., .release => Call.Sound (before ++ [call]) kInvalidIndex
  | _, _ => True

/-- Without voting ballots a `CommitRange` that is not refused its storage stores the
sentinel. -/
theorem stores_of_empty {build : Build} {box next : BallotBox} {startIndex endIndex : Int}
    {peer : PeerId} {allocator : Allocator} (empty : box.votingQueue = [])
    (poppable : box.Poppable build)
    (step : Step build box (.commitRange startIndex endIndex peer allocator) next) :
    (¬ Reservable allocator (box.moved build endIndex) ∧ next = box ∧
      box.stores build (.commitRange startIndex endIndex peer allocator) = none) ∨
    (Reservable allocator (box.moved build endIndex) ∧
      box.stores build (.commitRange startIndex endIndex peer allocator) =
        some kInvalidIndex) := by
  rcases step.commitRange with ⟨commit, committed, _⟩ | ⟨⟨fault, thrown, threw⟩, same⟩
  · obtain ⟨ballots, hint, visits, outcome⟩ := commitRange_ok (poppable endIndex) committed
    obtain ⟨rfl, rfl⟩ := visits.of_idle (visits.idle empty)
    rcases outcome with ⟨⟨ballot, present, _⟩, _⟩ | ⟨_, _, rfl⟩
    · exact absurd present List.not_mem_nil
    · exact .inr ⟨visits.reservable, by simp [stores, committed]⟩
  · exact .inl ⟨commitRange_thrown thrown threw, same, by simp [stores, threw]⟩

/-- With assertions every stored value is rightly committed exactly if each
`CommitRange` is refused its storage: the first that is not has no voting ballots yet
and stores the sentinel. -/
theorem stored_sound_debug (calls : List Call) :
    (system .debug).EachStep
        (fun before box call _ => ∀ index, box.stores .debug call = some index →
          Call.Sound (before ++ [call]) index) calls ↔
      (system .debug).EachStep
        (fun before box call _ => box.StaysSound .debug before call) calls := by
  have nobody : ∀ {before box call next}, opened.Holds before box → Step .debug box call next →
      ¬ Call.Sound (before ++ [call]) kInvalidIndex :=
    fun holds step => not_sound_kInvalidIndex (opened.preserved holds step).2
  refine StepSystem.eachStep_iff_along opened
    (fun _ (box : BallotBox) => box.votingQueue = []) ?_ ?_ ?_ calls
  · rintro _ rfl
    rfl
  · intro before box call next holds empty step sound
    cases call with
    | commitRange startIndex endIndex peer allocator =>
        rcases stores_of_empty empty holds.1.poppable step with ⟨_, rfl, _⟩ | ⟨_, sentinel⟩
        · exact empty
        · exact absurd (sound _ sentinel) (nobody holds step)
    | _ => exact Step.votingQueue_empty holds.1.poppable step empty (by simp)
  · intro before box call next holds empty step
    cases call with
    | commitRange startIndex endIndex peer allocator =>
        rcases stores_of_empty empty holds.1.poppable step with
          ⟨refused, _, nothing⟩ | ⟨reservable, sentinel⟩
        · refine iff_of_true (fun index stored => ?_) refused
          rw [nothing] at stored
          cases stored
        · exact iff_of_false (fun sound => nobody holds step (sound _ sentinel))
            fun refused => refused reservable
    | _ => exact iff_of_true nofun trivial

/-- Without assertions no ballot is ever voting, and every value stored is the
sentinel. -/
theorem stored_sound_release (calls : List Call) :
    (system .release).EachStep
        (fun before box call _ => ∀ index, box.stores .release call = some index →
          Call.Sound (before ++ [call]) index) calls ↔
      (system .release).EachStep
        (fun before box call _ => box.StaysSound .release before call) calls := by
  refine StepSystem.eachStep_congr (regular .release) ?_ calls
  intro before box call next (regular : box.Regular .release) step
  cases call with
  | commitRange startIndex endIndex peer allocator =>
      rcases stores_of_empty regular.2 regular.poppable step with
        ⟨refused, _⟩ | ⟨_, sentinel⟩
      · exact absurd ⟨Nat.zero_le _, .inl rfl⟩ refused
      · constructor
        · exact fun sound => sound _ sentinel
        · intro launched index stored
          rw [sentinel] at stored
          obtain rfl := Option.some.inj stored
          exact launched
  | _ => exact iff_of_true nofun trivial

/-- Every value `CommitRange` writes in a run is rightly committed, exactly if with
assertions each `CommitRange` is refused its storage, and without them each is made
while the sentinel is a rightly committed index itself. -/
theorem stored_sound_iff (build : Build) (calls : List Call) :
    (system build).EachStep
        (fun before box call _ => ∀ index, box.stores build call = some index →
          Call.Sound (before ++ [call]) index) calls ↔
      (system build).EachStep
        (fun before box call _ => box.StaysSound build before call) calls := by
  cases build with
  | debug => exact stored_sound_debug calls
  | release => exact stored_sound_release calls

/-- A term opened at the sentinel without assertions gives it a ballot, which an
acknowledgement after `Close` may cover. -/
example : StaysSound .release
    [.openAt (-1), .launchBallot (Configuration.ofVoters 1 [replica 1]) {}, .close]
    {} (.commitRange (-1) (-1) (replica 1)) := by
  refine ⟨-1, _, 0, Configuration.ofVoters 1 [replica 1], {}, rfl, rfl, rfl, ?_⟩
  decide

/-- The empty acknowledgement of a leader opened at 6 stores the sentinel, which
is nobody's index, in either build. -/
theorem stored_unsound :
    (¬ (system .debug).EachStep
      (fun before box call _ => ∀ index, box.stores .debug call = some index →
        Call.Sound (before ++ [call]) index)
      [.setLastCommittedIndex 5, .openAt 6, .commitRange 7 6 (replica 1)]) ∧
    ¬ (system .release).EachStep
      (fun before box call _ => ∀ index, box.stores .release call = some index →
        Call.Sound (before ++ [call]) index)
      [.setLastCommittedIndex 5, .openAt 6, .commitRange 7 6 (replica 1)] := by
  have fails : ∀ build, ¬ (system build).EachStep
      (fun before box call _ => ∀ index, box.stores build call = some index →
        Call.Sound (before ++ [call]) index)
      [.setLastCommittedIndex 5, .openAt 6, .commitRange 7 6 (replica 1)] := by
    intro build each
    have run : (system build).Runs [.setLastCommittedIndex 5, .openAt 6]
        { lastCommittedIndex := 5, votingIndex := 6 } :=
      runs_of_replay (by cases build <;> rfl)
    have transition : Step build { lastCommittedIndex := 5, votingIndex := 6 }
        (.commitRange 7 6 (replica 1)) {} :=
      advance_eq_some.mp (by cases build <;> rfl)
    have stored : stores build { lastCommittedIndex := 5, votingIndex := 6 }
        (.commitRange 7 6 (replica 1)) = some kInvalidIndex := by
      cases build <;> rfl
    refine not_sound_kInvalidIndex (fun base term opened => ?_)
      (each (List.prefix_refl _) run transition _ stored)
    obtain ⟨rfl, _⟩ := Prod.mk.inj (Option.some.inj opened)
    omega
  exact ⟨fails .debug, fails .release⟩

end BallotBox

end Traft.Raft
