import Traft.Raft.CommitRange

/-!
# Which vote completes a ballot

A grant marks at most one ticket of each half and counts it when it was unmarked.
Whether a ballot is granted afterwards is therefore known before: each half may
lack no more than the vote its lookup adds. `CompletesSome` threads the hint
through the ballots of one call, as `GuidesAll` does.
-/

namespace Traft.Raft

/-- The votes a cast at `iter` adds: one where it meets an unmarked ticket. -/
def newVotes (tickets : List Ticket) (iter : Int) : Int :=
  if (tickets[iter.toNat]?).any (fun ticket => !ticket.voted) then 1 else 0

/-- A counter falls by the votes added. -/
theorem castVote_newVotes {tickets tickets' : List Ticket} {quorum quorum' iter : Int}
    (cast : castVote tickets quorum iter = .ok (tickets', quorum')) :
    quorum' = quorum - newVotes tickets iter := by
  unfold newVotes
  rcases castVote_ok cast with ⟨rfl, _, rfl⟩ | ⟨position, inside, rfl, _, rfl⟩
  · simp
  · rw [Int.toNat_natCast, List.getElem?_eq_getElem inside]
    cases voted : tickets[position].voted <;> simp [voted]

/-- The vote of `peer` completes a ballot: neither half lacks more than the vote its
lookup adds. -/
def Ballot.CompletedBy (ballot : Ballot) (peer : PeerId) (hint : VoterPositionHint) : Prop :=
  ballot.quorum ≤ newVotes ballot.voters (ballot.iter peer hint) ∧
    ballot.oldQuorum ≤ newVotes ballot.oldVoters (ballot.oldIter peer hint)

/-- A grant leaves a ballot granted exactly if its vote completes it. -/
theorem Ballot.isGranted_grant_iff {ballot ballot' : Ballot} {peer : PeerId}
    {hint hint' : VoterPositionHint}
    (granted : ballot.grantWithUpdateHint peer hint = .ok (ballot', hint')) :
    ballot'.isGranted = true ↔ ballot.CompletedBy peer hint := by
  obtain ⟨_, _, _, cast, oldHalf⟩ := grantWithUpdateHint_ok.mp granted
  have current := castVote_newVotes cast
  have previous : ballot'.oldQuorum =
      ballot.oldQuorum - newVotes ballot.oldVoters (ballot.oldIter peer hint) := by
    rcases oldHalf.cases with ⟨simple, _, same⟩ | ⟨_, oldCast⟩
    · rw [same, simple]
      simp [newVotes]
    · exact castVote_newVotes oldCast
  rw [isGranted, Bool.and_eq_true, decide_eq_true_iff, decide_eq_true_iff, current, previous,
    CompletedBy]
  omega

/-- The vote of `peer` completes one of a run of ballots, each found with the hint the
ones before it leave behind. -/
def VoterPositionHint.CompletesSome (peer : PeerId) (hint : VoterPositionHint) :
    List Ballot → Prop
  | [] => False
  | ballot :: rest =>
      ballot.CompletedBy peer hint ∨ CompletesSome peer (ballot.hintAfter peer hint) rest

/-- The grants of one call leave a ballot granted exactly if the vote of its peer
completes one. -/
theorem isGranted_grantAll_iff {peer : PeerId} {hint final : VoterPositionHint}
    {ballots granted : List Ballot} (returned : grantAll peer hint ballots = .ok (granted, final)) :
    (∃ ballot ∈ granted, ballot.isGranted = true) ↔ hint.CompletesSome peer ballots := by
  induction ballots generalizing hint granted with
  | nil =>
      cases returned
      exact iff_of_false (by simp) id
  | cons ballot rest inductionHypothesis =>
      obtain ⟨ballot', middle, rest', grant, grants, rfl⟩ := grantAll_cons.mp returned
      have next := inductionHypothesis grants
      obtain rfl : middle = ballot.hintAfter peer hint :=
        (Ballot.grantWithUpdateHint_ok.mp grant).1
      rw [List.exists_mem_cons_iff, next, Ballot.isGranted_grant_iff grant,
        VoterPositionHint.CompletesSome]

end Traft.Raft
