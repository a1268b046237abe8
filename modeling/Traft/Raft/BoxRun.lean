import Traft.Raft.CommitRange
import Traft.Semantics.Run

/-!
# Runs of a ballot box

A run is any sequence of calls from the constructor, each one atomic step. The
assertion of `OpenAt` ends a run with assertions; without them any index opens a
box, and a run that is to stay within the assertion there is one of
`honouring`. A call of `CommitRange` that throws for want of storage has changed
nothing. `Step.effect` lists what a step can do.
-/

namespace Traft.Raft

open Traft.Memory Traft.Semantics

/-- The calls of a `BallotBox` and their arguments. The allocator is the one that a
call of `CommitRange` meets. -/
inductive Call where
  | openAt (votingIndex : Int)
  | launchBallot (conf oldConf : Configuration)
  | commitRange (startIndex endIndex : Int) (peer : PeerId) (allocator : Allocator := .ample)
  | setLastCommittedIndex (index : Int)
  | close

namespace BallotBox

/-- The box after a call. -/
def perform (build : Build) (box : BallotBox) : Call → Except Fault BallotBox
  | .openAt votingIndex => openAt build box votingIndex
  | .launchBallot conf oldConf => .ok (box.launchBallot conf oldConf)
  | .commitRange startIndex endIndex peer allocator => do
      let commit ← box.commitRange build allocator startIndex endIndex peer
      return commit.box
  | .setLastCommittedIndex index => .ok (box.setLastCommittedIndex index)
  | .close => .ok box.close

/-- Above the commit index `OpenAt` moves the window and drops the waiting
ballots. -/
theorem openAt_above (build : Build) {box : BallotBox} {votingIndex : Int}
    (above : votingIndex > box.lastCommittedIndex) :
    box.openAt build votingIndex = .ok { box with votingIndex, waitingQueue := [] } :=
  if_neg fun failed => failed.2 above

/-- One call: it returns, or throws and leaves the box alone. -/
def Step (build : Build) (box : BallotBox) (call : Call) (next : BallotBox) : Prop :=
  box.perform build call = .ok next ∨
    (∃ fault, fault.thrown = true ∧ box.perform build call = .error fault) ∧ next = box

/-- The runs of a box from its constructor. -/
def system (build : Build) : StepSystem Call where
  State := BallotBox
  Initial box := box = {}
  Step := Step build

/-- `OpenAt` asserts that its argument lies above the commit index. -/
def Honours (box : BallotBox) : Call → Prop
  | .openAt votingIndex => votingIndex > box.lastCommittedIndex
  | _ => True

/-- The runs in which every `OpenAt` satisfies its assertion, compiled in or not. -/
def honouring (build : Build) : StepSystem Call where
  State := BallotBox
  Initial box := box = {}
  Step box call next := box.Honours call ∧ Step build box call next

instance (box : BallotBox) (call : Call) : Decidable (box.Honours call) :=
  match call with
  | .openAt _ => inferInstanceAs (Decidable (_ > _))
  | .launchBallot .. | .commitRange .. | .setLastCommittedIndex _ | .close => isTrue trivial

/-- One step, computed. -/
def advance (build : Build) (box : BallotBox) (call : Call) : Option BallotBox :=
  match box.perform build call with
  | .ok next => some next
  | .error fault => if fault.thrown then some box else none

/-- A run, computed. -/
def replay (build : Build) (calls : List Call) : Option BallotBox :=
  calls.foldlM (advance build) {}

/-- One step within the assertion of `OpenAt`, computed. -/
def advanceHonouring (build : Build) (box : BallotBox) (call : Call) : Option BallotBox :=
  if box.Honours call then box.advance build call else none

/-- The computed step is the step. -/
theorem advance_eq_some {build : Build} {box next : BallotBox} {call : Call} :
    box.advance build call = some next ↔ Step build box call next := by
  unfold advance Step
  cases box.perform build call with
  | ok after => simp
  | error fault =>
      cases thrown : fault.thrown with
      | true => simp [thrown, eq_comm (a := box)]
      | false => simp [thrown]

/-- The computed run is the run. -/
theorem runs_of_replay {build : Build} {calls : List Call} {box : BallotBox}
    (replayed : replay build calls = some box) : (system build).Runs calls box :=
  .of_foldlM advance_eq_some.mp rfl replayed

/-- A step computed within the assertion of `OpenAt` is one. -/
theorem step_of_advanceHonouring {build : Build} {box next : BallotBox} {call : Call}
    (advanced : box.advanceHonouring build call = some next) :
    (honouring build).Step box call next := by
  unfold advanceHonouring at advanced
  split at advanced
  · rename_i honours
    exact ⟨honours, advance_eq_some.mp advanced⟩
  · cases advanced

/-- A run computed within the assertion of `OpenAt` is one. -/
theorem runs_of_advanceHonouring {build : Build} {calls : List Call} {box : BallotBox}
    (replayed : calls.foldlM (advanceHonouring build) {} = some box) :
    (honouring build).Runs calls box :=
  .of_foldlM step_of_advanceHonouring rfl replayed

/-- What a step can do. -/
inductive StepEffect (build : Build) (box : BallotBox) : Call → BallotBox → Prop where
  | opened {votingIndex} (above : build = .debug → votingIndex > box.lastCommittedIndex) :
      StepEffect build box (.openAt votingIndex) { box with votingIndex, waitingQueue := [] }
  | launched (conf oldConf) :
      StepEffect build box (.launchBallot conf oldConf) (box.launchBallot conf oldConf)
  | voted {startIndex endIndex peer allocator ballots hint}
      (visits : box.Visits build allocator startIndex endIndex peer ballots hint)
      (some : ∃ ballot ∈ ballots, ballot.isGranted = true) :
      StepEffect build box (.commitRange startIndex endIndex peer allocator)
        (box.voted build startIndex endIndex ballots hint)
  | published {startIndex endIndex peer allocator ballots hint}
      (visits : box.Visits build allocator startIndex endIndex peer ballots hint)
      (none : ∀ ballot ∈ ballots, ballot.isGranted = false) (nonneg : 0 ≤ box.votingIndex) :
      StepEffect build box (.commitRange startIndex endIndex peer allocator)
        { box.voted build startIndex endIndex ballots hint with
          votingIndex := 0, lastCommittedIndex := kInvalidIndex }
  | threw {startIndex endIndex peer allocator}
      (refused : ¬ Reservable allocator (box.moved build endIndex)) :
      StepEffect build box (.commitRange startIndex endIndex peer allocator) box
  | set (index) :
      StepEffect build box (.setLastCommittedIndex index) (box.setLastCommittedIndex index)
  | closed : StepEffect build box .close box.close

/-- What runs keep: the commit index is the sentinel or larger; with assertions the
window starts at zero or above, and without them no ballot is ever voting. -/
def Regular (box : BallotBox) (build : Build) : Prop :=
  kInvalidIndex ≤ box.lastCommittedIndex ∧
    match build with
    | .debug => 0 ≤ box.votingIndex
    | .release => box.votingQueue = []

/-- `CommitRange` pops nothing beyond the ballots it finds. -/
def Poppable (build : Build) (box : BallotBox) : Prop :=
  ∀ endIndex, 0 ≤ box.votingIndex ∨ box.available build endIndex = []

/-- A box with its window at or above zero pops nothing. -/
theorem Poppable.of_nonneg {build : Build} {box : BallotBox} (nonneg : 0 ≤ box.votingIndex) :
    box.Poppable build :=
  fun _ => .inl nonneg

/-- Without assertions no ballot is drawn. -/
theorem available_release (box : BallotBox) (endIndex : Int) :
    box.available .release endIndex = box.votingQueue := by
  rw [available, moved, List.take_zero, List.append_nil]

/-- A box of a run pops nothing. -/
theorem Regular.poppable {build : Build} {box : BallotBox} (regular : box.Regular build) :
    box.Poppable build := by
  intro endIndex
  cases build with
  | debug => exact .inl regular.2
  | release => exact .inr ((available_release box endIndex).trans regular.2)

/-- A step by `CommitRange` either returned or changed nothing. -/
theorem Step.commitRange {build : Build} {box next : BallotBox} {startIndex endIndex : Int}
    {peer : PeerId} {allocator : Allocator}
    (step : Step build box (.commitRange startIndex endIndex peer allocator) next) :
    (∃ commit, box.commitRange build allocator startIndex endIndex peer = .ok commit ∧
      commit.box = next) ∨
      (∃ fault, fault.thrown = true ∧
        box.commitRange build allocator startIndex endIndex peer = .error fault) ∧ next = box := by
  rcases step with returned | ⟨⟨fault, thrown, threw⟩, same⟩
  · obtain ⟨commit, committed, returned⟩ := bind_ok.mp returned
    exact .inl ⟨commit, committed, Except.ok.inj returned⟩
  · rcases bind_error.mp threw with refused | ⟨_, _, returned⟩
    · exact .inr ⟨⟨fault, thrown, refused⟩, same⟩
    · cases returned

/-- Every step from a box that pops nothing has one of the listed effects. -/
theorem Step.effect {build : Build} {box next : BallotBox} {call : Call}
    (poppable : box.Poppable build) (step : Step build box call next) :
    StepEffect build box call next := by
  cases call with
  | openAt votingIndex =>
      rcases step with returned | ⟨⟨fault, thrown, threw⟩, _⟩
      · simp only [perform, openAt] at returned
        split at returned
        · cases returned
        · rename_i passed
          obtain rfl := Except.ok.inj returned
          exact .opened fun debug => not_not.mp fun below => passed ⟨debug, below⟩
      · simp only [perform, openAt] at threw
        split at threw <;> cases threw
        cases thrown
  | launchBallot conf oldConf =>
      rcases step with returned | ⟨⟨fault, _, threw⟩, _⟩
      · obtain rfl := Except.ok.inj returned
        exact .launched conf oldConf
      · cases threw
  | commitRange startIndex endIndex peer allocator =>
      rcases step.commitRange with ⟨commit, committed, rfl⟩ | ⟨⟨fault, thrown, refused⟩, rfl⟩
      · obtain ⟨ballots, hint, visits, ⟨some, rfl⟩ | ⟨none, nonneg, rfl⟩⟩ :=
          commitRange_ok (poppable endIndex) committed
        · exact .voted visits some
        · exact .published visits none nonneg
      · exact .threw (commitRange_thrown thrown refused)
  | setLastCommittedIndex index =>
      rcases step with returned | ⟨⟨fault, _, threw⟩, _⟩
      · obtain rfl := Except.ok.inj returned
        exact .set index
      · cases threw
  | close =>
      rcases step with returned | ⟨⟨fault, _, threw⟩, _⟩
      · obtain rfl := Except.ok.inj returned
        exact .closed
      · cases threw

/-- `SetLastCommittedIndex` changes nothing but the commit index, which it never
lowers. -/
theorem setLastCommittedIndex_eq (box : BallotBox) (index : Int) :
    ∃ committed, box.lastCommittedIndex ≤ committed ∧
      box.setLastCommittedIndex index = { box with lastCommittedIndex := committed } := by
  unfold setLastCommittedIndex
  split
  · exact ⟨box.lastCommittedIndex, Int.le_refl _, rfl⟩
  split
  · exact ⟨box.lastCommittedIndex, Int.le_refl _, rfl⟩
  split
  · exact ⟨box.lastCommittedIndex, Int.le_refl _, rfl⟩
  · exact ⟨index, by omega, rfl⟩

/-- An open box rejects an index below its window. -/
theorem setLastCommittedIndex_below {box : BallotBox} {index : Int}
    (window : box.votingIndex ≠ 0) (below : index < box.votingIndex) :
    box.setLastCommittedIndex index = box := by
  simp [setLastCommittedIndex, window, below]

/-- An index at or above the window passes the first check of an open box. -/
theorem setLastCommittedIndex_above {box : BallotBox} {index : Int}
    (notBelow : box.votingIndex ≤ index) (larger : box.lastCommittedIndex < index) :
    box.setLastCommittedIndex index = { box with lastCommittedIndex := index } := by
  have passed : ¬ ((box.votingIndex ≠ 0 ∨ box.votingQueue ≠ [] ∨
      ¬ ConcurrentQueue.isEmpty box.waitingQueue) ∧ index < box.votingIndex) :=
    fun rejected => by omega
  unfold setLastCommittedIndex
  rw [if_neg passed, if_neg (by omega), if_neg (by omega)]

/-- The voting queue of a box without assertions keeps its length. -/
theorem votingQueue_of_release {box : BallotBox} {allocator : Allocator}
    {startIndex endIndex : Int} {peer : PeerId} {ballots : List Ballot} {hint : VoterPositionHint}
    (visits : box.Visits .release allocator startIndex endIndex peer ballots hint)
    (empty : box.votingQueue = []) :
    (box.voted .release startIndex endIndex ballots hint).votingQueue = [] := by
  rw [← List.length_eq_zero_iff, length_voted visits, available_release, empty, List.length_nil]

/-- Only `CommitRange` puts ballots up for voting. -/
theorem Step.votingQueue_empty {build : Build} {box next : BallotBox} {call : Call}
    (poppable : box.Poppable build) (step : Step build box call next)
    (empty : box.votingQueue = [])
    (other : ∀ startIndex endIndex peer allocator,
      call ≠ .commitRange startIndex endIndex peer allocator) : next.votingQueue = [] := by
  cases Step.effect poppable step with
  | opened => exact empty
  | launched => exact empty
  | voted => exact absurd rfl (other _ _ _ _)
  | published => exact absurd rfl (other _ _ _ _)
  | threw => exact empty
  | set index =>
      obtain ⟨_, _, written⟩ := box.setLastCommittedIndex_eq index
      rw [written]
      exact empty
  | closed => rfl

/-- With an empty voting queue a call has nothing to visit: the ballots it draws are
one too few for a range that reaches the window. -/
theorem Visits.idle {build : Build} {box : BallotBox} {allocator : Allocator}
    {startIndex endIndex : Int} {peer : PeerId} {ballots : List Ballot} {hint : VoterPositionHint}
    (visits : box.Visits build allocator startIndex endIndex peer ballots hint)
    (empty : box.votingQueue = []) : box.visitCount startIndex endIndex = 0 := by
  have covered := visits.covered
  have drawn : (box.available build endIndex).length ≤ box.moved build endIndex := by
    rw [available, empty, List.nil_append]
    exact List.length_take_le _ _
  by_cases below : endIndex < box.votingIndex
  · unfold visitCount
    omega
  · have few : box.moved build endIndex ≤ (endIndex - box.votingIndex).toNat := by
      cases build with
      | debug => exact Nat.le_of_eq (toSize_of_nonneg (by omega) visits.inRange.2)
      | release => exact Nat.zero_le _
    unfold visitCount firstVisited at *
    omega

/-- A call that visits nothing grants nothing and leaves the hint. -/
theorem Visits.of_idle {build : Build} {box : BallotBox} {allocator : Allocator}
    {startIndex endIndex : Int} {peer : PeerId} {ballots : List Ballot} {hint : VoterPositionHint}
    (visits : box.Visits build allocator startIndex endIndex peer ballots hint)
    (idle : box.visitCount startIndex endIndex = 0) : ballots = [] ∧ hint = box.hint := by
  have grants := visits.grants
  rw [visited, idle, List.take_zero] at grants
  obtain ⟨rfl, rfl⟩ := Prod.mk.inj (Except.ok.inj grants)
  exact ⟨rfl, rfl⟩

/-- A step leaves the commit index at the sentinel or above. -/
theorem Regular.committed_step {build : Build} {box next : BallotBox} {call : Call}
    (regular : box.Regular build) (step : Step build box call next) :
    kInvalidIndex ≤ next.lastCommittedIndex := by
  cases Step.effect regular.poppable step with
  | published => exact Int.le_refl _
  | set index =>
      obtain ⟨advanced, larger, written⟩ := box.setLastCommittedIndex_eq index
      rw [written]
      exact Int.le_trans regular.1 larger
  | _ => exact regular.1

/-- A step keeps a box regular. -/
theorem Regular.step {build : Build} {box next : BallotBox} {call : Call}
    (regular : box.Regular build) (step : Step build box call next) : next.Regular build := by
  refine ⟨regular.committed_step step, ?_⟩
  have effect := Step.effect regular.poppable step
  cases build with
  | debug =>
      obtain ⟨committed, nonneg⟩ := regular
      cases effect with
      | opened above =>
          have higher := above rfl
          rw [kInvalidIndex_eq] at committed
          dsimp only
          omega
      | set index =>
          obtain ⟨_, _, written⟩ := box.setLastCommittedIndex_eq index
          rw [written]
          exact nonneg
      | published => exact Int.le_refl _
      | closed => exact Int.le_refl _
      | _ => exact nonneg
  | release =>
      obtain ⟨_, empty⟩ := regular
      cases effect with
      | voted visits => exact votingQueue_of_release visits empty
      | published visits => exact votingQueue_of_release visits empty
      | set index =>
          obtain ⟨_, _, written⟩ := box.setLastCommittedIndex_eq index
          rw [written]
          exact empty
      | closed => rfl
      | _ => exact empty

/-- Every run keeps its box regular. -/
def regular (build : Build) : (system build).Invariant where
  Holds _ box := box.Regular build
  initial := by
    rintro _ rfl
    cases build with
    | debug => exact ⟨Int.le_refl _, Int.le_refl _⟩
    | release => exact ⟨Int.le_refl _, rfl⟩
  preserved regular step := regular.step step

/-- In every run within the assertion of `OpenAt` the commit index is the sentinel or
larger and the window starts at zero or above. -/
def bounded (build : Build) : (honouring build).Invariant where
  Holds _ box := kInvalidIndex ≤ box.lastCommittedIndex ∧ 0 ≤ box.votingIndex
  initial := by
    rintro _ rfl
    exact ⟨Int.le_refl _, Int.le_refl _⟩
  preserved := by
    rintro _ box call next ⟨committed, nonneg⟩ ⟨honours, step⟩
    cases Step.effect (.of_nonneg nonneg) step with
    | opened =>
        have above : _ > box.lastCommittedIndex := honours
        refine ⟨committed, ?_⟩
        rw [kInvalidIndex_eq] at committed
        dsimp only
        omega
    | launched => exact ⟨committed, nonneg⟩
    | voted => exact ⟨committed, nonneg⟩
    | published => exact ⟨Int.le_refl _, Int.le_refl _⟩
    | threw => exact ⟨committed, nonneg⟩
    | set index =>
        obtain ⟨advanced, larger, written⟩ := box.setLastCommittedIndex_eq index
        rw [written]
        exact ⟨Int.le_trans committed larger, nonneg⟩
    | closed => exact ⟨committed, Int.le_refl _⟩

/-- A call is refused the storage it asks for, if it is a `CommitRange`. -/
def Refused (build : Build) (box : BallotBox) : Call → Prop
  | .commitRange _ endIndex _ allocator => ¬ Reservable allocator (box.moved build endIndex)
  | _ => True

end BallotBox

end Traft.Raft
