import Traft.Raft.History

/-!
# Completeness of the commit index

A leader opens the box, launches its ballots and receives acknowledgements. The
commit index should follow every quorum, but the first acknowledgement already
asks for one ballot too few and then looks at that ballot. With assertions no
acknowledgement of a new leader returns at all; without them nothing is moved
out of the waiting queue and only acknowledgements below the window return.
-/

namespace Traft.Raft

open Traft.Memory

/-- The arguments of one `CommitRange`, and the allocator it meets. -/
structure Acknowledgement where
  startIndex : Int
  endIndex : Int
  peer : PeerId
  allocator : Allocator := .ample

namespace BallotBox

/-- A sequence of `LaunchBallot`. -/
def launchAll (box : BallotBox) (ballots : List (Configuration × Configuration)) : BallotBox :=
  ballots.foldl (fun box ballot => box.launchBallot ballot.1 ballot.2) box

/-- A sequence of `CommitRange`. -/
def acknowledge (build : Build) (box : BallotBox) :
    List Acknowledgement → Except Fault BallotBox
  | [] => .ok box
  | ack :: rest => do
      let commit ← box.commitRange build ack.allocator ack.startIndex ack.endIndex ack.peer
      commit.box.acknowledge build rest

/-- A new box opened at `base` with its ballots launched and acknowledged. -/
def lead (build : Build) (base : Int) (ballots : List (Configuration × Configuration))
    (acks : List Acknowledgement) : Except Fault BallotBox := do
  let box ← openAt build {} base
  (box.launchAll ballots).acknowledge build acks

/-- The peers whose acknowledgements covered an index. -/
def acknowledgers (acks : List Acknowledgement) (index : Int) : List PeerId :=
  (acks.filter fun ack => ack.startIndex ≤ index ∧ index ≤ ack.endIndex).map (·.peer)

/-- Every acknowledgement completes, and after each the commit index has reached
every launched index whose acknowledgers are a quorum of its ballot. -/
def Complete (build : Build) (base : Int) (ballots : List (Configuration × Configuration))
    (acks : List Acknowledgement) : Prop :=
  ∀ {before}, before <+: acks → ∃ box, lead build base ballots before = .ok box ∧
    ∀ {position conf oldConf}, ballots[position]? = some (conf, oldConf) →
      (electorateOf conf oldConf).Quorate
        (memberSet (acknowledgers before (base + (position : Nat)))) →
      base + (position : Nat) ≤ box.lastCommittedIndex

/-- With an empty voting queue a range that names an index and is visited at all ends
below the window. -/
theorem Visits.below {build : Build} {allocator : Allocator} {box : BallotBox}
    {startIndex endIndex : Int} {peer : PeerId} {ballots : List Ballot} {hint : VoterPositionHint}
    (visits : box.Visits build allocator startIndex endIndex peer ballots hint)
    (empty : box.votingQueue = []) (ordered : startIndex ≤ endIndex) :
    endIndex < box.votingIndex := by
  have idle := visits.idle empty
  unfold visitCount at idle
  omega

end BallotBox

end Traft.Raft
