import Traft.Raft.Configuration

/-!
# Ballots

A `Ballot` copies the voters of its configurations into tickets and counts the
missing votes down. `castVote` is what both halves of `GrantWithUpdateHint` do
with the ticket their lookup returned. The hint is keyed by version alone, so
the position a lookup returns need not be the acknowledging peer's.
-/

namespace Traft.Raft

/-- `VoterPositionHint`. -/
structure VoterPositionHint where
  peerVersion : Int := kInvalidIndex
  oldPeerVersion : Int := kInvalidIndex
  voterOffset : Int := kInvalidIndex
  oldVoterOffset : Int := kInvalidIndex
deriving DecidableEq, Repr

/-- `Ticket`. -/
structure Ticket where
  peer : PeerId
  voted : Bool := false

/-- `Ticket::MarkVoted`: whether the ticket was unmarked, and the ticket after. -/
def Ticket.markVoted (ticket : Ticket) : Bool × Ticket :=
  (!ticket.voted, { ticket with voted := true })

/-- `Ballot`. The `int` counters are integers: the number of tickets bounds them. -/
structure Ballot where
  voters : List Ticket
  oldVoters : List Ticket
  confVersion : Int
  oldConfVersion : Int
  quorum : Int
  oldQuorum : Int

/-- One unmarked ticket for each peer of a set, in the order of the set. -/
def issueTickets (peers : Std.TreeSet PeerId) : List Ticket :=
  peers.toList.map fun peer => { peer }

/-- `std::find` over tickets; the length stands for `end()`. -/
def findTicket (tickets : List Ticket) (peer : PeerId) : Nat :=
  tickets.findIdx fun ticket => ticket.peer == peer

/-- `if (iter != end() && (*iter).MarkVoted()) --quorum`, for an iterator given
as its distance from `begin()`. -/
def castVote (tickets : List Ticket) (quorum iter : Int) : Except Fault (List Ticket × Int) :=
  if iter = tickets.length then
    .ok (tickets, quorum)
  else if iter < 0 then
    .error .outOfRange
  else
    match tickets[iter.toNat]? with
    | none => .error .outOfRange
    | some ticket =>
        let (marked, ticket) := ticket.markVoted
        .ok (tickets.set iter.toNat ticket, if marked then quorum - 1 else quorum)

namespace Ballot

/-- `Ballot::Ballot`. -/
def construct (conf oldConf : Configuration) : Ballot :=
  let voters := issueTickets conf.voters
  let ballot : Ballot := {
    voters, oldVoters := []
    confVersion := conf.version, oldConfVersion := oldConf.version
    quorum := ((voters.length / 2 + 1 : Nat) : Int), oldQuorum := 0 }
  if oldConf.voterSize < 1 then
    ballot
  else
    let oldVoters := issueTickets oldConf.voters
    { ballot with oldVoters, oldQuorum := ((oldVoters.length / 2 + 1 : Nat) : Int) }

/-- `GetOldVoterTicketWithUpdateHint_`: the iterator and the updated hint. -/
def getOldVoterTicketWithUpdateHint (ballot : Ballot) (peer : PeerId)
    (hint : VoterPositionHint) : Int × VoterPositionHint :=
  if ballot.oldConfVersion = hint.oldPeerVersion then
    (hint.oldVoterOffset, hint)
  else if ballot.oldConfVersion = hint.peerVersion then
    (hint.voterOffset, { hint with
      oldPeerVersion := ballot.oldConfVersion, oldVoterOffset := hint.voterOffset })
  else
    let iter := findTicket ballot.oldVoters peer
    if iter ≠ ballot.oldVoters.length then
      (iter, { hint with oldPeerVersion := ballot.oldConfVersion, oldVoterOffset := iter })
    else
      (iter, hint)

/-- `GetVoterTicketWithUpdateHint_`. -/
def getVoterTicketWithUpdateHint (ballot : Ballot) (peer : PeerId)
    (hint : VoterPositionHint) : Int × VoterPositionHint :=
  if ballot.confVersion = hint.peerVersion then
    (hint.voterOffset, hint)
  else
    let iter := findTicket ballot.voters peer
    if iter ≠ ballot.voters.length then
      (iter, { hint with peerVersion := ballot.confVersion, voterOffset := iter })
    else
      (iter, hint)

/-- The first half of `GrantWithUpdateHint`, taken when there are old voters. -/
def grantOldVoter (ballot : Ballot) (peer : PeerId) (hint : VoterPositionHint) :
    Except Fault (Ballot × VoterPositionHint) :=
  if ballot.oldVoters.length > 0 then do
    let (iter, hint) := ballot.getOldVoterTicketWithUpdateHint peer hint
    let (oldVoters, oldQuorum) ← castVote ballot.oldVoters ballot.oldQuorum iter
    return ({ ballot with oldVoters, oldQuorum }, hint)
  else
    return (ballot, hint)

/-- The second half of `GrantWithUpdateHint`. -/
def grantVoter (ballot : Ballot) (peer : PeerId) (hint : VoterPositionHint) :
    Except Fault (Ballot × VoterPositionHint) := do
  let (iter, hint) := ballot.getVoterTicketWithUpdateHint peer hint
  let (voters, quorum) ← castVote ballot.voters ballot.quorum iter
  return ({ ballot with voters, quorum }, hint)

/-- `GrantWithUpdateHint`. -/
def grantWithUpdateHint (ballot : Ballot) (peer : PeerId) (hint : VoterPositionHint) :
    Except Fault (Ballot × VoterPositionHint) := do
  let (ballot, hint) ← ballot.grantOldVoter peer hint
  ballot.grantVoter peer hint

/-- `IsGranted`. -/
def isGranted (ballot : Ballot) : Bool := ballot.quorum ≤ 0 && ballot.oldQuorum ≤ 0

/-- The hint after looking `peer` up for the old half. -/
def hintAfterOld (ballot : Ballot) (peer : PeerId) (hint : VoterPositionHint) :
    VoterPositionHint :=
  if ballot.oldVoters.length > 0 then
    (ballot.getOldVoterTicketWithUpdateHint peer hint).2
  else
    hint

/-- The hint a grant leaves behind. Votes never influence it. -/
def hintAfter (ballot : Ballot) (peer : PeerId) (hint : VoterPositionHint) :
    VoterPositionHint :=
  (ballot.getVoterTicketWithUpdateHint peer (ballot.hintAfterOld peer hint)).2

/-- The position the old half of a grant marks. -/
def oldIter (ballot : Ballot) (peer : PeerId) (hint : VoterPositionHint) : Int :=
  (ballot.getOldVoterTicketWithUpdateHint peer hint).1

/-- The position the current half of a grant marks. -/
def iter (ballot : Ballot) (peer : PeerId) (hint : VoterPositionHint) : Int :=
  (ballot.getVoterTicketWithUpdateHint peer (ballot.hintAfterOld peer hint)).1

end Ballot

/-- A cast that returns marks the ticket at the iterator, if it has one. -/
theorem castVote_ok {tickets tickets' : List Ticket} {quorum quorum' iter : Int}
    (cast : castVote tickets quorum iter = .ok (tickets', quorum')) :
    (iter = tickets.length ∧ tickets' = tickets ∧ quorum' = quorum) ∨
    ∃ position, ∃ inside : position < tickets.length, iter = position ∧
      tickets' = tickets.set position { tickets[position] with voted := true } ∧
      quorum' = if tickets[position].voted then quorum else quorum - 1 := by
  unfold castVote at cast
  split at cast
  · rename_i atEnd
    cases cast
    exact .inl ⟨atEnd, rfl, rfl⟩
  · split at cast
    · cases cast
    · rename_i nonneg
      split at cast
      · cases cast
      · rename_i ticket found
        obtain ⟨inside, rfl⟩ := List.getElem?_eq_some_iff.mp found
        cases cast
        refine .inr ⟨iter.toNat, inside, by omega, rfl, ?_⟩
        cases tickets[iter.toNat].voted <;> simp

/-- A cast only fails by leaving the vector. -/
theorem castVote_error {tickets : List Ticket} {quorum iter : Int} {fault : Fault}
    (failed : castVote tickets quorum iter = .error fault) : fault = .outOfRange := by
  unfold castVote at failed
  split at failed
  · cases failed
  · split at failed
    · cases failed; rfl
    · split at failed <;> cases failed
      rfl

/-- A cast at `end()` is skipped. -/
theorem castVote_end (tickets : List Ticket) (quorum : Int) :
    castVote tickets quorum tickets.length = .ok (tickets, quorum) := by
  simp [castVote]

/-- A cast inside the vector returns. -/
theorem castVote_inside {tickets : List Ticket} {position : Nat} (quorum : Int)
    (inside : position < tickets.length) :
    castVote tickets quorum position =
      .ok (tickets.set position { tickets[position] with voted := true },
        if tickets[position].voted then quorum else quorum - 1) := by
  have notEnd : (position : Int) ≠ tickets.length := by omega
  have nonneg : ¬ (position : Int) < 0 := by omega
  simp only [castVote, notEnd, nonneg, if_false, Int.toNat_natCast,
    List.getElem?_eq_getElem inside, Ticket.markVoted]
  by_cases voted : tickets[position].voted = true <;> simp [voted]

/-- Casting keeps the peers of the tickets. -/
theorem castVote_peers {tickets tickets' : List Ticket} {quorum quorum' iter : Int}
    (cast : castVote tickets quorum iter = .ok (tickets', quorum')) :
    tickets'.map Ticket.peer = tickets.map Ticket.peer := by
  rcases castVote_ok cast with ⟨_, rfl, _⟩ | ⟨position, inside, _, rfl, _⟩
  · rfl
  · rw [List.map_set]
    apply List.ext_getElem (by simp)
    intro index first second
    rw [List.getElem_set]
    split
    · rename_i same
      subst same
      simp
    · rfl

/-- The counter falls exactly by the tickets newly marked. -/
theorem castVote_counted {tickets tickets' : List Ticket} {quorum quorum' iter : Int}
    (cast : castVote tickets quorum iter = .ok (tickets', quorum')) :
    quorum' + tickets'.countP Ticket.voted = quorum + tickets.countP Ticket.voted := by
  rcases castVote_ok cast with ⟨_, rfl, rfl⟩ | ⟨position, inside, _, rfl, rfl⟩
  · rfl
  · rw [List.countP_set inside]
    cases voted : tickets[position].voted with
    | false =>
        simp only [Bool.false_eq_true, if_false, if_true]
        omega
    | true =>
        have counted : 0 < tickets.countP Ticket.voted :=
          List.countP_pos_iff.mpr ⟨tickets[position], List.getElem_mem inside, voted⟩
        simp only [if_true]
        omega

namespace Ballot

/-- The current half of a grant is one cast at the position of its lookup. -/
theorem grantVoter_ok {ballot ballot' : Ballot} {peer : PeerId}
    {hint hint' : VoterPositionHint} :
    ballot.grantVoter peer hint = .ok (ballot', hint') ↔
      ∃ voters quorum,
        castVote ballot.voters ballot.quorum
          (ballot.getVoterTicketWithUpdateHint peer hint).1 = .ok (voters, quorum) ∧
        ballot' = { ballot with voters, quorum } ∧
        hint' = (ballot.getVoterTicketWithUpdateHint peer hint).2 := by
  constructor
  · intro granted
    obtain ⟨⟨voters, quorum⟩, cast, returned⟩ := bind_ok.mp granted
    obtain ⟨same, sameHint⟩ := Prod.mk.inj (Except.ok.inj returned)
    exact ⟨voters, quorum, cast, same.symm, sameHint.symm⟩
  · rintro ⟨voters, quorum, cast, rfl, rfl⟩
    exact bind_ok.mpr ⟨(voters, quorum), cast, rfl⟩

/-- The old half of a grant, when there is one, is a cast too. -/
theorem grantOldVoter_ok {ballot ballot' : Ballot} {peer : PeerId}
    {hint hint' : VoterPositionHint} (joint : ballot.oldVoters ≠ []) :
    ballot.grantOldVoter peer hint = .ok (ballot', hint') ↔
      ∃ oldVoters oldQuorum,
        castVote ballot.oldVoters ballot.oldQuorum (ballot.oldIter peer hint) =
          .ok (oldVoters, oldQuorum) ∧
        ballot' = { ballot with oldVoters, oldQuorum } ∧
        hint' = (ballot.getOldVoterTicketWithUpdateHint peer hint).2 := by
  have positive : ballot.oldVoters.length > 0 := List.length_pos_of_ne_nil joint
  rw [grantOldVoter, if_pos positive]
  constructor
  · intro granted
    obtain ⟨⟨oldVoters, oldQuorum⟩, cast, returned⟩ := bind_ok.mp granted
    obtain ⟨same, sameHint⟩ := Prod.mk.inj (Except.ok.inj returned)
    exact ⟨oldVoters, oldQuorum, cast, same.symm, sameHint.symm⟩
  · rintro ⟨oldVoters, oldQuorum, cast, rfl, rfl⟩
    exact bind_ok.mpr ⟨(oldVoters, oldQuorum), cast, rfl⟩

/-- Without old voters the old half does nothing. -/
theorem grantOldVoter_simple {ballot : Ballot} (simple : ballot.oldVoters = [])
    (peer : PeerId) (hint : VoterPositionHint) :
    ballot.grantOldVoter peer hint = .ok (ballot, hint) := by
  simp [grantOldVoter, simple, pure, Except.pure]

/-- What a returned grant did to the old half. -/
def OldHalf (ballot : Ballot) (peer : PeerId) (hint : VoterPositionHint) (ballot' : Ballot) :
    Prop :=
  if ballot.oldVoters = [] then
    ballot'.oldVoters = [] ∧ ballot'.oldQuorum = ballot.oldQuorum
  else
    castVote ballot.oldVoters ballot.oldQuorum (ballot.oldIter peer hint) =
      .ok (ballot'.oldVoters, ballot'.oldQuorum)

/-- A grant returns exactly when the casts of both halves do, and changes only
their tickets and counters. -/
theorem grantWithUpdateHint_ok {ballot ballot' : Ballot} {peer : PeerId}
    {hint hint' : VoterPositionHint} :
    ballot.grantWithUpdateHint peer hint = .ok (ballot', hint') ↔
      hint' = ballot.hintAfter peer hint ∧
      ballot'.confVersion = ballot.confVersion ∧
      ballot'.oldConfVersion = ballot.oldConfVersion ∧
      castVote ballot.voters ballot.quorum (ballot.iter peer hint) =
        .ok (ballot'.voters, ballot'.quorum) ∧
      ballot.OldHalf peer hint ballot' := by
  unfold OldHalf
  by_cases simple : ballot.oldVoters = []
  · have oldHint : ballot.hintAfterOld peer hint = hint := by
      simp [hintAfterOld, simple]
    simp only [grantWithUpdateHint, grantOldVoter_simple simple, bind_ok, Except.ok.injEq,
      exists_eq_left', grantVoter_ok, simple, if_true, iter, hintAfter, oldHint]
    constructor
    · rintro ⟨voters, quorum, cast, rfl, rfl⟩
      exact ⟨rfl, rfl, rfl, cast, rfl, rfl⟩
    · rintro ⟨rfl, version, oldVersion, cast, none, oldQuorum⟩
      refine ⟨_, _, cast, ?_, rfl⟩
      cases ballot
      cases ballot'
      simp_all
  · have oldHint : ballot.hintAfterOld peer hint =
        (ballot.getOldVoterTicketWithUpdateHint peer hint).2 := by
      simp [hintAfterOld, List.length_pos_iff, simple]
    simp only [grantWithUpdateHint, bind_ok, Prod.exists, grantOldVoter_ok simple, grantVoter_ok,
      simple, if_false, iter, hintAfter, oldHint]
    constructor
    · rintro ⟨_, _, ⟨oldVoters, oldQuorum, oldCast, rfl, rfl⟩, voters, quorum, cast, rfl, rfl⟩
      exact ⟨rfl, rfl, rfl, cast, oldCast⟩
    · rintro ⟨rfl, version, oldVersion, cast, oldCast⟩
      refine ⟨_, _, ⟨_, _, oldCast, rfl, rfl⟩, _, _, cast, ?_, rfl⟩
      cases ballot
      cases ballot'
      simp_all

/-- A ballot without its votes: the versions it was built from and the peers its
tickets were issued to. -/
structure Paper where
  confVersion : Int
  oldConfVersion : Int
  voters : List PeerId
  oldVoters : List PeerId

/-- A returned grant finds no old half, or casts a vote in it. -/
theorem OldHalf.cases {ballot ballot' : Ballot} {peer : PeerId} {hint : VoterPositionHint}
    (oldHalf : ballot.OldHalf peer hint ballot') :
    (ballot.oldVoters = [] ∧ ballot'.oldVoters = [] ∧ ballot'.oldQuorum = ballot.oldQuorum) ∨
    (ballot.oldVoters ≠ [] ∧
      castVote ballot.oldVoters ballot.oldQuorum (ballot.oldIter peer hint) =
        .ok (ballot'.oldVoters, ballot'.oldQuorum)) := by
  unfold OldHalf at oldHalf
  split at oldHalf
  · exact .inl ⟨‹_›, oldHalf⟩
  · exact .inr ⟨‹_›, oldHalf⟩

/-- The paper of a ballot. -/
def paper (ballot : Ballot) : Paper where
  confVersion := ballot.confVersion
  oldConfVersion := ballot.oldConfVersion
  voters := ballot.voters.map Ticket.peer
  oldVoters := ballot.oldVoters.map Ticket.peer

/-- A grant changes votes alone. -/
theorem paper_grant {ballot ballot' : Ballot} {peer : PeerId} {hint hint' : VoterPositionHint}
    (granted : ballot.grantWithUpdateHint peer hint = .ok (ballot', hint')) :
    ballot'.paper = ballot.paper := by
  obtain ⟨_, version, oldVersion, cast, oldHalf⟩ := grantWithUpdateHint_ok.mp granted
  have oldPeers : ballot'.oldVoters.map Ticket.peer = ballot.oldVoters.map Ticket.peer := by
    rcases oldHalf.cases with ⟨simple, none, _⟩ | ⟨_, oldCast⟩
    · rw [none, simple]
    · exact castVote_peers oldCast
  simp only [paper, version, oldVersion, castVote_peers cast, oldPeers]

/-- A grant only fails by leaving one of its vectors. -/
theorem grantWithUpdateHint_error {ballot : Ballot} {peer : PeerId} {hint : VoterPositionHint}
    {fault : Fault} (failed : ballot.grantWithUpdateHint peer hint = .error fault) :
    fault = .outOfRange := by
  rcases bind_error.mp failed with oldFailed | ⟨_, _, failed⟩
  · unfold grantOldVoter at oldFailed
    split at oldFailed
    · rcases bind_error.mp oldFailed with cast | ⟨_, _, returned⟩
      · exact castVote_error cast
      · cases returned
    · cases oldFailed
  · rcases bind_error.mp failed with cast | ⟨_, _, returned⟩
    · exact castVote_error cast
    · cases returned

end Ballot

end Traft.Raft
