import Traft.Raft.BoxRun

/-!
# What compiling assertions out changes

The argument of the one assertion of `CommitRange` moves ballots, so without
assertions none is moved. A call whose assertion holds and asks for any ballot at
all therefore leaves different queues in the two builds.
-/

namespace Traft.Raft

open Traft.Memory

namespace BallotBox

/-- A call returns with the box in the state `next`. -/
def Reaches (build : Build) (allocator : Allocator) (box : BallotBox)
    (startIndex endIndex : Int) (peer : PeerId) (next : BallotBox) : Prop :=
  ∃ commit, box.commitRange build allocator startIndex endIndex peer = .ok commit ∧
    commit.box = next

/-- The condition of the assertion of a call evaluates to true. -/
def AssertionHolds (allocator : Allocator) (box : BallotBox) (endIndex : Int) : Prop :=
  ∃ transfer, box.beginVotingBallots allocator (toSize (endIndex - box.votingIndex)) =
    .ok transfer ∧ transfer.complete = true

/-- A call leaves the box in the same state in both builds. -/
def BuildsAgree (allocator : Allocator) (box : BallotBox) (startIndex endIndex : Int)
    (peer : PeerId) : Prop :=
  ∀ next, box.Reaches .debug allocator startIndex endIndex peer next ↔
    box.Reaches .release allocator startIndex endIndex peer next

/-- The loop does the same on a longer queue, whose other ballots it leaves alone. -/
theorem voteLoop_append {votingIndex logIndex : Int} {grant : Grant} {count : Nat}
    {scan scan' : Scan} (others : List Ballot)
    (returned : voteLoop votingIndex grant count logIndex scan = .ok scan') :
    voteLoop votingIndex grant count logIndex
        { scan with votingQueue := scan.votingQueue ++ others } =
      .ok { scan' with votingQueue := scan'.votingQueue ++ others } := by
  induction count generalizing logIndex scan with
  | zero =>
      obtain rfl := Except.ok.inj returned
      rfl
  | succ count inductionHypothesis =>
      obtain ⟨ballot, ballot', hint, next, found, granted, advanced, returned⟩ :=
        voteLoop_succ.mp returned
      have inside := (List.getElem?_eq_some_iff.mp found).1
      have later := inductionHypothesis returned
      refine voteLoop_succ.mpr ⟨ballot, ballot', hint, next, ?_, granted, advanced, ?_⟩
      · rw [List.getElem?_append_left inside]
        exact found
      · rw [List.set_append_left _ _ inside]
        exact later

/-- A passed assertion had the storage it asked for and as many ballots waiting. -/
theorem AssertionHolds.moves {allocator : Allocator} {box : BallotBox} {endIndex : Int}
    (asserted : box.AssertionHolds allocator endIndex) :
    Reservable allocator (box.moved .debug endIndex) ∧
      box.moved .debug endIndex ≤ box.waitingQueue.length := by
  obtain ⟨transfer, began, complete⟩ := asserted
  have passed : box.assertBeginVotingBallots .debug allocator
      (toSize (endIndex - box.votingIndex)) = .ok transfer.box :=
    bind_ok.mpr ⟨transfer, began, by rw [if_pos complete]; rfl⟩
  obtain ⟨reservable, waiting, _⟩ := assertBeginVotingBallots_ok passed
  exact ⟨reservable, waiting⟩

/-- A call whose assertion holds returns with assertions if it returns without:
its loop works on a longer queue. -/
theorem AssertionHolds.reaches_debug {allocator : Allocator} {box next : BallotBox}
    {startIndex endIndex : Int} {peer : PeerId} (asserted : box.AssertionHolds allocator endIndex)
    (reaches : box.Reaches .release allocator startIndex endIndex peer next) :
    ∃ after, box.Reaches .debug allocator startIndex endIndex peer after := by
  obtain ⟨commit, returned, _⟩ := reaches
  obtain ⟨same, idle, returned⟩ := bind_ok.mp returned
  obtain ⟨scan, looped, returned⟩ := bind_ok.mp returned
  obtain ⟨need, subtracted, unchanged⟩ := bind_ok.mp idle
  obtain rfl : box = same := Except.ok.inj unchanged
  obtain ⟨rfl, inRange⟩ := int64_ok subtracted
  have passed : box.needBallots .debug allocator endIndex = _ :=
    needBallots_returns inRange asserted.moves.1 asserted.moves.2
  have longer := voteLoop_append (box.waitingQueue.take (box.moved .debug endIndex)) looped
  suffices returns :
      ∃ commit, box.commitRange .debug allocator startIndex endIndex peer = .ok commit by
    obtain ⟨commit, returned⟩ := returns
    exact ⟨commit.box, commit, returned, rfl⟩
  refine bind_returns.mpr ⟨_, passed, bind_returns.mpr ⟨_, longer, ?_⟩⟩
  dsimp only at returned ⊢
  by_cases granted : scan.lastCommittedIndex ≠ kInvalidIndex
  · rw [if_pos granted]
    exact ⟨_, rfl⟩
  · rw [if_neg granted] at returned ⊢
    split at returned
    · cases returned
    rename_i popped
    rw [if_neg]
    · exact ⟨_, rfl⟩
    · rw [List.length_append]
      omega

/-- What a returned call leaves waiting. -/
theorem Reaches.waitingQueue {build : Build} {allocator : Allocator} {box next : BallotBox}
    {startIndex endIndex : Int} {peer : PeerId}
    (reaches : box.Reaches build allocator startIndex endIndex peer next) :
    next.waitingQueue = box.waitingQueue.drop (box.moved build endIndex) := by
  obtain ⟨commit, returned, rfl⟩ := reaches
  obtain ⟨ballots, hint, _, ⟨_, rfl⟩ | ⟨_, _, rfl⟩⟩ := commitRange_returned returned <;> rfl

/-- A range that ends where the window starts asks for no ballots, so its call is
the same in both builds. -/
theorem commitRange_debug_eq_release (allocator : Allocator) {box : BallotBox}
    {startIndex endIndex : Int} (peer : PeerId) (atWindow : endIndex = box.votingIndex) :
    box.commitRange .debug allocator startIndex endIndex peer =
      box.commitRange .release allocator startIndex endIndex peer := by
  have computes : int64 (endIndex - box.votingIndex) = .ok 0 := by
    rw [atWindow, Int.sub_self]
    rfl
  have nothing : box.assertBeginVotingBallots .debug allocator (toSize 0) =
      box.assertBeginVotingBallots .release allocator (toSize 0) := by
    have passed : box.assertBeginVotingBallots .debug allocator 0 = _ :=
      box.assertBeginVotingBallots_complete ⟨Nat.zero_le _, .inl rfl⟩ (Nat.zero_le _)
    rw [List.take_zero, List.append_nil, List.drop_zero] at passed
    exact passed
  simp only [commitRange, needBallots, computes, bind, Except.bind, nothing]

/-- A call whose assertion holds, and which returns in one of the builds, reaches
the same state in both exactly if its range ends where the window starts. -/
theorem buildsAgree_iff {allocator : Allocator} {box : BallotBox} {startIndex endIndex : Int}
    {peer : PeerId} (asserted : box.AssertionHolds allocator endIndex)
    (reached : ∃ build next, box.Reaches build allocator startIndex endIndex peer next) :
    box.BuildsAgree allocator startIndex endIndex peer ↔ endIndex = box.votingIndex := by
  constructor
  · intro agree
    obtain ⟨next, reaches⟩ :
        ∃ next, box.Reaches .debug allocator startIndex endIndex peer next := by
      obtain ⟨build, next, reaches⟩ := reached
      cases build with
      | debug => exact ⟨next, reaches⟩
      | release => exact asserted.reaches_debug reaches
    have queues := reaches.waitingQueue.symm.trans ((agree next).mp reaches).waitingQueue
    obtain ⟨commit, returned, _⟩ := reaches
    obtain ⟨_, _, visits, _⟩ := commitRange_returned returned
    obtain ⟨lowest, highest⟩ := visits.inRange
    have lengths := congrArg List.length queues
    rw [List.length_drop, List.length_drop] at lengths
    have waiting := asserted.moves.2
    have nothing : toSize (endIndex - box.votingIndex) = 0 := by
      simp only [moved] at lengths waiting
      omega
    unfold toSize at nothing
    omega
  · intro atWindow next
    rw [Reaches, Reaches, commitRange_debug_eq_release allocator peer atWindow]

/-- A new box with one ballot launched. -/
def oneLaunched : BallotBox where
  waitingQueue := [Ballot.construct (Configuration.ofVoters 1 [replica 1]) {}]

/-- The condition is met by an acknowledgement of index 0 by that box, and not by the
empty one 2..1. -/
theorem buildsAgree_iff_oneLaunched :
    (oneLaunched.BuildsAgree .ample 1 0 (replica 1) ↔ (0 : Int) = oneLaunched.votingIndex) ∧
    (oneLaunched.BuildsAgree .ample 2 1 (replica 1) ↔ (1 : Int) = oneLaunched.votingIndex) :=
  ⟨buildsAgree_iff ⟨_, rfl, rfl⟩ ⟨.debug, _, _, rfl, rfl⟩,
    buildsAgree_iff ⟨_, rfl, rfl⟩ ⟨.debug, _, _, rfl, rfl⟩⟩

/-- The assertion of the empty acknowledgement 2..1 draws the launched ballot, so it
waits on only where assertions are compiled out. -/
theorem builds_disagree :
    oneLaunched.AssertionHolds .ample 1 ∧ ¬ oneLaunched.BuildsAgree .ample 2 1 (replica 1) := by
  refine ⟨⟨_, rfl, rfl⟩, fun agree => ?_⟩
  obtain ⟨next, reaches, drawn⟩ : ∃ next, oneLaunched.Reaches .debug .ample 2 1 (replica 1) next ∧
      next.waitingQueue.length = 0 := ⟨_, ⟨_, rfl, rfl⟩, rfl⟩
  have kept := congrArg List.length ((agree next).mp reaches).waitingQueue
  rw [drawn] at kept
  cases kept

end BallotBox

end Traft.Raft
