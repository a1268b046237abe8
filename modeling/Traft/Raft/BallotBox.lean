import Traft.Raft.Ballot
import Traft.ConcurrentQueue.Queue
import Traft.Memory.Reserved

/-!
# The ballot box

The operations of `BallotBox` as they stand in the source, each one atomic step
under the box's mutex. `std::deque` and the quiescent waiting queue are lists.
`BeginVotingBallots_` reserves storage, which an allocator may refuse. What it
reserves behaves as storage, as it does on zeroed memory; the positions touched
in it are recorded beside its size. The queues and the ballots find the storage
they need for themselves.
-/

namespace Traft.Raft

open Traft.Memory

/-- `BallotBox`. The `FSMCaller` is never called and is left out. -/
structure BallotBox where
  lastCommittedIndex : Int := kInvalidIndex
  votingQueue : List Ballot := []
  votingIndex : Int := 0
  hint : VoterPositionHint := {}
  waitingQueue : List Ballot := []

/-- `std::vector<Ballot>::max_size()`: `PTRDIFF_MAX` over the 72 bytes of a ballot. -/
def kMaxBallots : Nat := 9223372036854775807 / 72

/-- `reserve` on a new vector of ballots. No ballots take no storage. -/
def reserveBallots (allocator : Allocator) (count : Nat) : Except Fault (Reserved Ballot) :=
  if count > kMaxBallots then
    .error .lengthError
  else if count > 0 ∧ allocator.has count = false then
    .error .badAlloc
  else
    .ok (Reserved.reserve count)

/-- The result of `BeginVotingBallots_`, with its temporary vector. -/
structure Transfer where
  box : BallotBox
  complete : Bool
  tempBallots : Reserved Ballot

/-- The result of `CommitRange`, with the value it stored to
`last_committed_index_` when it stored one. -/
structure Commit where
  box : BallotBox
  stored : Option Int

/-- The locals of the loop of `CommitRange`. -/
structure Scan where
  votingQueue : List Ballot
  hint : VoterPositionHint
  lastCommittedIndex : Int

/-- What the loop of `CommitRange` does with a ballot and the hint. -/
abbrev Grant := Ballot → VoterPositionHint → Except Fault (Ballot × VoterPositionHint)

/-- The grant of a peer. -/
def grantBy (peer : PeerId) : Grant :=
  fun ballot hint => ballot.grantWithUpdateHint peer hint

/-- An access which is undefined when there is nothing to access. -/
def access {α : Type} : Option α → Except Fault α
  | some value => .ok value
  | none => .error .outOfRange

/-- An access is defined exactly when there is something. -/
theorem access_ok {α : Type} {found : Option α} {value : α} :
    access found = .ok value ↔ found = some value := by
  cases found <;> simp [access]

namespace BallotBox

/-- `OpenAt`. -/
def openAt (build : Build) (box : BallotBox) (votingIndex : Int) : Except Fault BallotBox :=
  if build = .debug ∧ ¬ votingIndex > box.lastCommittedIndex then
    .error .assertionFailed
  else
    .ok { box with votingIndex, waitingQueue := [] }

/-- `Close`. -/
def close (box : BallotBox) : BallotBox :=
  { box with votingQueue := [], votingIndex := 0, hint := {}, waitingQueue := [] }

/-- `BeginVotingBallots_`. -/
def beginVotingBallots (allocator : Allocator) (box : BallotBox) (needVotingBallots : Nat) :
    Except Fault Transfer := do
  let tempBallots ← reserveBallots allocator needVotingBallots
  let (dequeued, waitingQueue) :=
    ConcurrentQueue.tryDequeueBulk box.waitingQueue needVotingBallots
  let tempBallots ← access (tempBallots.writeFrom 0 dequeued)
  let (moved, tempBallots) ← access (tempBallots.readFrom 0 dequeued.length)
  return {
    box := { box with votingQueue := box.votingQueue ++ moved, waitingQueue }
    complete := dequeued.length == needVotingBallots
    tempBallots }

/-- `assert(BeginVotingBallots_(need_voting_ballots))`: without assertions the
call is compiled out. -/
def assertBeginVotingBallots (build : Build) (allocator : Allocator) (box : BallotBox)
    (needVotingBallots : Nat) : Except Fault BallotBox :=
  match build with
  | .debug => do
      let transfer ← box.beginVotingBallots allocator needVotingBallots
      if transfer.complete then return transfer.box else throw .assertionFailed
  | .release => return box

/-- The first statements of `CommitRange`: the number of ballots needed and the
assertion that they are there. -/
def needBallots (build : Build) (allocator : Allocator) (box : BallotBox) (endIndex : Int) :
    Except Fault BallotBox := do
  let needVotingBallots ← int64 (endIndex - box.votingIndex)
  box.assertBeginVotingBallots build allocator (toSize needVotingBallots)

/-- The loop of `CommitRange` with `count` iterations left. -/
def voteLoop (votingIndex : Int) (grant : Grant) : Nat → Int → Scan → Except Fault Scan
  | 0, _, scan => return scan
  | count + 1, logIndex, scan => do
      let position := (logIndex - votingIndex).toNat
      let ballot ← access scan.votingQueue[position]?
      let (ballot, hint) ← grant ballot scan.hint
      let next ← int64 (logIndex + 1)
      voteLoop votingIndex grant count next {
        votingQueue := scan.votingQueue.set position ballot
        hint
        lastCommittedIndex := if ballot.isGranted then logIndex else scan.lastCommittedIndex }

/-- The loop of `CommitRange` with its bounds and the locals it starts with. -/
def voteRange (grant : Grant) (box : BallotBox) (startIndex endIndex : Int) :
    Except Fault Scan :=
  let startAt := max box.votingIndex startIndex
  voteLoop box.votingIndex grant (endIndex + 1 - startAt).toNat startAt
    { votingQueue := box.votingQueue, hint := box.hint, lastCommittedIndex := kInvalidIndex }

/-- `CommitRange`. -/
def commitRange (build : Build) (allocator : Allocator) (box : BallotBox)
    (startIndex endIndex : Int) (peer : PeerId) : Except Fault Commit := do
  let box ← box.needBallots build allocator endIndex
  let scan ← box.voteRange (grantBy peer) startIndex endIndex
  let box := { box with votingQueue := scan.votingQueue, hint := scan.hint }
  if scan.lastCommittedIndex ≠ kInvalidIndex then
    return { box, stored := none }
  let popped := (scan.lastCommittedIndex + 1 - box.votingIndex).toNat
  if popped > box.votingQueue.length then
    throw .outOfRange
  return {
    box := { box with
      votingQueue := box.votingQueue.drop popped
      votingIndex := scan.lastCommittedIndex + 1
      lastCommittedIndex := scan.lastCommittedIndex }
    stored := some scan.lastCommittedIndex }

/-- `LaunchBallot`. -/
def launchBallot (box : BallotBox) (conf oldConf : Configuration) : BallotBox :=
  { box with
    waitingQueue := ConcurrentQueue.enqueue box.waitingQueue (Ballot.construct conf oldConf) }

/-- `SetLastCommittedIndex`. -/
def setLastCommittedIndex (box : BallotBox) (index : Int) : BallotBox :=
  if (box.votingIndex ≠ 0 ∨ box.votingQueue ≠ [] ∨
      ¬ ConcurrentQueue.isEmpty box.waitingQueue) ∧ index < box.votingIndex then
    box
  else if index < box.lastCommittedIndex then
    box
  else if index = box.lastCommittedIndex then
    box
  else
    { box with lastCommittedIndex := index }

end BallotBox

end Traft.Raft
