import Traft.Raft.BoxRun

/-!
# What a new term takes over from the last

`OpenAt` drops the waiting ballots of earlier terms and moves the window.
`Close` also drops the voting ballots and the hint. A term opened on a box is
compared with the same term on a new box that has the same commit index.
-/

namespace Traft.Raft

open Traft.Memory Traft.Semantics

/-- What a term shows of its box: the commit index, the window and the ballots. -/
structure Observation where
  lastCommittedIndex : Int
  votingIndex : Int
  votingQueue : List Ballot
  waitingQueue : List Ballot

/-- The calls of a term: `LaunchBallot`, `CommitRange` and `SetLastCommittedIndex`. -/
def Call.InTerm : Call → Prop
  | .launchBallot .. | .commitRange .. | .setLastCommittedIndex _ => True
  | _ => False

namespace BallotBox

def observe (box : BallotBox) : Observation where
  lastCommittedIndex := box.lastCommittedIndex
  votingIndex := box.votingIndex
  votingQueue := box.votingQueue
  waitingQueue := box.waitingQueue

/-- The box after a sequence of calls. A call that throws has changed nothing and the
sequence goes on. -/
def conduct (build : Build) (box : BallotBox) (calls : List Call) : Except Fault BallotBox :=
  calls.foldlM (fun box call =>
    match box.perform build call with
    | .ok next => .ok next
    | .error fault => if fault.thrown then .ok box else .error fault) box

/-- What shows once `OpenAt(votingIndex)` and the calls of a term have been made. -/
def observeTerm (build : Build) (box : BallotBox) (votingIndex : Int) (term : List Call) :
    Except Fault Observation := do
  let opened ← box.openAt build votingIndex
  let final ← opened.conduct build term
  return final.observe

/-- A term opened at `votingIndex` shows the same as on a new box with the same
commit index, whatever its calls. -/
def StartsClean (build : Build) (box : BallotBox) (votingIndex : Int) : Prop :=
  ∀ term : List Call, (∀ call ∈ term, call.InTerm) →
    box.observeTerm build votingIndex term =
      ({ lastCommittedIndex := box.lastCommittedIndex } : BallotBox).observeTerm build
        votingIndex term

/-- A call that leaves no voting ballots had none to visit. -/
theorem Visits.of_empty {build : Build} {allocator : Allocator} {box : BallotBox}
    {startIndex endIndex : Int} {peer : PeerId} {ballots : List Ballot} {hint : VoterPositionHint}
    (visits : box.Visits build allocator startIndex endIndex peer ballots hint)
    (empty : (box.voted build startIndex endIndex ballots hint).votingQueue = []) :
    box.votingQueue = [] ∧ hint = box.hint := by
  have nothing : box.available build endIndex = [] := by
    rw [← List.length_eq_zero_iff, ← length_voted visits, empty, List.length_nil]
  have grants := visits.grants
  rw [visited, nothing, List.drop_nil, List.take_nil] at grants
  obtain ⟨_, same⟩ := Prod.mk.inj (Except.ok.inj grants)
  exact ⟨(List.append_eq_nil_iff.mp nothing).1, same.symm⟩

/-- In every run a box without voting ballots has no position cached. -/
def hintless (build : Build) : (system build).Invariant where
  Holds _ box := box.Regular build ∧ (box.votingQueue = [] → box.hint = {})
  initial box valid := ⟨(regular build).initial box valid, by rintro -; rw [valid]⟩
  preserved := by
    rintro calls box call next ⟨regular, cached⟩ step
    refine ⟨regular.step step, ?_⟩
    cases Step.effect regular.poppable step with
    | opened => exact cached
    | launched => exact cached
    | voted visits =>
        intro empty
        obtain ⟨before, same⟩ := visits.of_empty empty
        exact same.trans (cached before)
    | published visits =>
        intro empty
        obtain ⟨before, same⟩ := visits.of_empty empty
        exact same.trans (cached before)
    | threw => exact cached
    | set index =>
        obtain ⟨_, _, written⟩ := box.setLastCommittedIndex_eq index
        rw [written]
        exact cached
    | closed => exact fun _ => rfl

/-- A term starts clean, whatever comes after, exactly if the box it is opened on
holds no voting ballots. -/
theorem startsClean_iff (build : Build) {calls : List Call} {box : BallotBox}
    {votingIndex : Int} (run : (system build).Runs calls box)
    (above : votingIndex > box.lastCommittedIndex) :
    box.StartsClean build votingIndex ↔ box.votingQueue = [] := by
  let fresh : BallotBox := { lastCommittedIndex := box.lastCommittedIndex }
  have opensFresh : fresh.openAt build votingIndex = .ok { fresh with votingIndex } :=
    openAt_above build above
  have opens := openAt_above build above
  constructor
  · intro clean
    have shown : box.observeTerm build votingIndex [] = fresh.observeTerm build votingIndex [] :=
      clean [] nofun
    rw [observeTerm, observeTerm, opens, opensFresh] at shown
    exact congrArg Observation.votingQueue (Except.ok.inj shown)
  · intro empty term _
    have cached := ((hintless build).of_runs run).2 empty
    have same : box.openAt build votingIndex = fresh.openAt build votingIndex := by
      rw [opens, opensFresh, empty, cached]
    rw [observeTerm, same]
    rfl

/-- The condition is met by a box that has been opened and closed. -/
theorem startsClean_iff_closed :
    ({ lastCommittedIndex := 5 } : BallotBox).StartsClean .debug 6 ↔ ([] : List Ballot) = [] :=
  have run : (system .debug).Runs [.setLastCommittedIndex 5, .openAt 6, .close]
      { lastCommittedIndex := 5 } := runs_of_replay rfl
  startsClean_iff .debug run (by decide)

/-- With assertions, a term that has drawn a ballot for voting leaves it to the
next term: `OpenAt(1)` keeps it as the ballot of index 1. -/
theorem ballot_left_over : ¬ ∀ {calls : List Call} {box : BallotBox} {votingIndex : Int},
    (system .debug).Runs calls box → votingIndex > box.lastCommittedIndex →
      box.StartsClean .debug votingIndex := by
  intro clean
  obtain ⟨box, replayed, above, holds⟩ : ∃ box, replay .debug
      [.launchBallot (Configuration.ofVoters 1 [replica 1]) {}, .commitRange 2 1 (replica 1)] =
        some box ∧ 1 > box.lastCommittedIndex ∧ box.votingQueue.length = 1 :=
    ⟨_, rfl, by decide, rfl⟩
  have shown : box.observeTerm .debug 1 [] =
      ({ lastCommittedIndex := box.lastCommittedIndex } : BallotBox).observeTerm .debug 1 [] :=
    clean (runs_of_replay replayed) above [] nofun
  have opensFresh : ({ lastCommittedIndex := box.lastCommittedIndex } : BallotBox).openAt .debug 1 =
      .ok { lastCommittedIndex := box.lastCommittedIndex, votingIndex := 1 } :=
    openAt_above .debug above
  rw [observeTerm, observeTerm, openAt_above .debug above, opensFresh] at shown
  have empty : box.votingQueue = [] :=
    congrArg Observation.votingQueue (Except.ok.inj shown)
  rw [empty] at holds
  cases holds

end BallotBox

end Traft.Raft
