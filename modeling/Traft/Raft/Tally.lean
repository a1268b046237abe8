import Traft.Raft.Ballot
import Traft.Quorum.Majority

/-!
# Ballots as electorates

A ballot stands for an electorate together with the members whose
acknowledgements it has recorded. `Ballot.Represents` is that relation. Its two
counters are then the missing votes of each half, so `IsGranted` is a joint
quorum, and a grant whose lookups land on the acknowledging peer records that
peer's member.
-/

namespace Traft.Raft

open Traft.Quorum

/-- The member a ticket was issued for. -/
def Ticket.member (ticket : Ticket) : Member := ticket.peer.member

/-- One half of a ballot records the acknowledgements `acks` of `members`, of
which it needs `needed`. -/
structure Tallies (tickets : List Ticket) (quorum : Int) (members acks : Finset Member)
    (needed : Nat) : Prop where
  nodup : (tickets.map Ticket.member).Nodup
  members : (tickets.map Ticket.member).toFinset = members
  marked : ∀ ticket ∈ tickets, ticket.voted = true ↔ ticket.member ∈ acks
  counted : quorum + tickets.countP Ticket.voted = needed

/-- A lookup for `peer` lands on its own ticket, or what it marks instead is
marked already, and so is the peer's own ticket. -/
def Lands (tickets : List Ticket) (peer : PeerId) (iter : Int) : Prop :=
  iter = findTicket tickets peer ∨
    ((∀ ticket, tickets[iter.toNat]? = some ticket → ticket.voted = true) ∧
      ∀ ticket ∈ tickets, ticket.member = peer.member → ticket.voted = true)

/-- Among distinct members a member determines the position of its ticket. -/
theorem position_unique {tickets : List Ticket} {first second : Nat}
    (nodup : (tickets.map Ticket.member).Nodup) (inside : first < tickets.length)
    (within : second < tickets.length)
    (same : tickets[first].member = tickets[second].member) : first = second := by
  have inMap : first < (tickets.map Ticket.member).length := by simpa using inside
  have withinMap : second < (tickets.map Ticket.member).length := by simpa using within
  have equal : (tickets.map Ticket.member)[first] = (tickets.map Ticket.member)[second] := by
    simpa using same
  exact nodup.getElem_inj_iff.mp equal

/-- Among distinct members the linear search finds the one ticket of a peer. -/
theorem findTicket_eq {tickets : List Ticket} {peer : PeerId} {position : Nat}
    (nodup : (tickets.map Ticket.member).Nodup) (inside : position < tickets.length)
    (own : tickets[position].member = peer.member) : findTicket tickets peer = position := by
  rw [findTicket, List.findIdx_eq inside]
  refine ⟨PeerId.beq_iff_member.mpr own, fun earlier before => ?_⟩
  rw [Bool.eq_false_iff]
  intro found
  have equal := position_unique nodup (by omega) inside
    ((PeerId.beq_iff_member.mp found).trans own.symm)
  omega

/-- The ticket the linear search stops at belongs to the peer. -/
theorem member_findTicket {tickets : List Ticket} {peer : PeerId}
    (found : findTicket tickets peer < tickets.length) :
    tickets[findTicket tickets peer].member = peer.member := by
  have matched := List.findIdx_getElem (w := found)
  exact PeerId.beq_iff_member.mp matched

/-- The linear search reaches the end exactly when no ticket is the peer's. -/
theorem findTicket_eq_length {tickets : List Ticket} {peer : PeerId} :
    findTicket tickets peer = tickets.length ↔
      ∀ ticket ∈ tickets, ticket.member ≠ peer.member := by
  rw [findTicket, List.findIdx_eq_length]
  refine forall_congr' fun ticket => imp_congr_right fun _ => ?_
  rw [Bool.eq_false_iff, ne_eq, PeerId.beq_iff_member]
  rfl

/-- Unchanged tickets record one more acknowledgement exactly if the tickets of its
peer were marked. -/
theorem recorded_unchanged_iff {tickets : List Ticket} {peer : PeerId} {acks : Finset Member}
    (marked : ∀ ticket ∈ tickets, ticket.voted = true ↔ ticket.member ∈ acks) :
    (∀ ticket ∈ tickets, ticket.voted = true ↔ ticket.member ∈ insert peer.member acks) ↔
      ∀ ticket ∈ tickets, ticket.member = peer.member → ticket.voted = true := by
  constructor
  · intro recorded ticket present own
    exact (recorded ticket present).mpr (own ▸ Finset.mem_insert_self _ _)
  · intro already ticket present
    rw [Finset.mem_insert]
    constructor
    · exact fun voted => .inr ((marked ticket present).mp voted)
    · rintro (own | counted)
      · exact already ticket present own
      · exact (marked ticket present).mpr counted

/-- With one ticket marked they do exactly if it is the peer's, or was marked and
the peer's were too. -/
theorem recorded_set_iff {tickets : List Ticket} {peer : PeerId} {acks : Finset Member}
    {position : Nat} (nodup : (tickets.map Ticket.member).Nodup)
    (marked : ∀ ticket ∈ tickets, ticket.voted = true ↔ ticket.member ∈ acks)
    (inside : position < tickets.length) :
    (∀ ticket ∈ tickets.set position { tickets[position] with voted := true },
        ticket.voted = true ↔ ticket.member ∈ insert peer.member acks) ↔
      tickets[position].member = peer.member ∨ (tickets[position].voted = true ∧
        ∀ ticket ∈ tickets, ticket.member = peer.member → ticket.voted = true) := by
  by_cases own : tickets[position].member = peer.member
  · -- the peer's ticket: the others are not its own
    refine iff_of_true ?_ (.inl own)
    intro ticket present
    obtain ⟨index, within, rfl⟩ := List.mem_iff_getElem.mp present
    rw [List.length_set] at within
    rw [List.getElem_set, Finset.mem_insert]
    by_cases here : position = index
    · subst here
      rw [if_pos rfl]
      exact iff_of_true rfl (.inl own)
    · rw [if_neg here, marked _ (List.getElem_mem within)]
      have other : tickets[index].member ≠ peer.member := fun same =>
        here (position_unique nodup inside within (own.trans same.symm))
      exact ⟨.inr, fun counted => counted.resolve_left other⟩
  by_cases before : tickets[position].voted = true
  · -- marked before: nothing has changed
    have same : tickets.set position { tickets[position] with voted := true } = tickets := by
      have kept : { tickets[position] with voted := true } = tickets[position] := by
        rw [← before]
      rw [kept, List.set_getElem_self]
    rw [same, recorded_unchanged_iff marked]
    exact ⟨fun already => .inr ⟨before, already⟩, fun either => (either.resolve_left own).2⟩
  · -- another's ticket, and unmarked before
    refine iff_of_false ?_ fun either => either.elim own fun both => before both.1
    intro recorded
    have counted := (recorded _ (List.mem_set inside _)).mp rfl
    exact before ((marked _ (List.getElem_mem inside)).mpr
      (Finset.mem_of_mem_insert_of_ne counted own))

/-- A cast records exactly the acknowledgement of `peer` if and only if its
lookup landed. -/
theorem castVote_marked_iff {tickets tickets' : List Ticket} {quorum quorum' iter : Int}
    {peer : PeerId} {acks : Finset Member} (nodup : (tickets.map Ticket.member).Nodup)
    (marked : ∀ ticket ∈ tickets, ticket.voted = true ↔ ticket.member ∈ acks)
    (cast : castVote tickets quorum iter = .ok (tickets', quorum')) :
    (∀ ticket ∈ tickets', ticket.voted = true ↔ ticket.member ∈ insert peer.member acks) ↔
      Lands tickets peer iter := by
  unfold Lands
  rcases castVote_ok cast with ⟨rfl, rfl, _⟩ | ⟨position, inside, rfl, rfl, _⟩
  · rw [recorded_unchanged_iff marked]
    constructor
    · exact fun already => .inr ⟨by simp, already⟩
    · rintro (absent | ⟨_, already⟩)
      · intro ticket present own
        exact absurd own (findTicket_eq_length.mp (by omega) ticket present)
      · exact already
  · have found : tickets[position].member = peer.member ↔
        (position : Int) = findTicket tickets peer := by
      constructor
      · exact fun own => by rw [findTicket_eq nodup inside own]
      · intro stopped
        obtain rfl : position = findTicket tickets peer := Int.ofNat_inj.mp stopped
        exact member_findTicket inside
    rw [recorded_set_iff nodup marked inside, found]
    simp [List.getElem?_eq_getElem inside]

namespace Tallies

variable {tickets tickets' : List Ticket} {quorum quorum' : Int}
  {members acks : Finset Member} {needed : Nat}

/-- Marked tickets are the acknowledged members. -/
theorem countP_voted (tallies : Tallies tickets quorum members acks needed) :
    tickets.countP Ticket.voted = (members ∩ acks).card := by
  rw [← tallies.members, card_inter_toFinset tallies.nodup]
  apply List.countP_congr
  intro ticket present
  rw [decide_eq_true_iff]
  exact tallies.marked ticket present

/-- The counter runs out once enough members have acknowledged. -/
theorem quorum_nonpos_iff (tallies : Tallies tickets quorum members acks needed) :
    quorum ≤ 0 ↔ needed ≤ (members ∩ acks).card := by
  have counted := tallies.counted
  rw [tallies.countP_voted] at counted
  omega

/-- A landed cast records the acknowledging peer's member. -/
theorem cast {iter : Int} {peer : PeerId}
    (tallies : Tallies tickets quorum members acks needed) (lands : Lands tickets peer iter)
    (returned : castVote tickets quorum iter = .ok (tickets', quorum')) :
    Tallies tickets' quorum' members (insert peer.member acks) needed := by
  have same : tickets'.map Ticket.member = tickets.map Ticket.member := by
    have peers := congrArg (List.map PeerId.member) (castVote_peers returned)
    rw [List.map_map, List.map_map] at peers
    exact peers
  refine ⟨same ▸ tallies.nodup, same ▸ tallies.members,
    (castVote_marked_iff tallies.nodup tallies.marked returned).mpr lands, ?_⟩
  rw [castVote_counted returned, tallies.counted]

end Tallies

/-- A cast at the result of the linear search never leaves the vector. -/
theorem castVote_findTicket (tickets : List Ticket) (quorum : Int) (peer : PeerId) :
    ∃ tickets' quorum', castVote tickets quorum (findTicket tickets peer) =
      .ok (tickets', quorum') := by
  by_cases inside : findTicket tickets peer < tickets.length
  · exact ⟨_, _, castVote_inside quorum inside⟩
  · have atEnd : findTicket tickets peer = tickets.length :=
      Nat.le_antisymm List.findIdx_le_length (Nat.le_of_not_lt inside)
    exact ⟨_, _, atEnd ▸ castVote_end tickets quorum⟩

/-- The members of a list of peers. -/
def memberSet (peers : List PeerId) : Finset Member := (peers.map PeerId.member).toFinset

/-- Being among the members of a list is being equal to one of its peers. -/
theorem mem_memberSet {peers : List PeerId} {member : Member} :
    member ∈ memberSet peers ↔ ∃ peer ∈ peers, peer.member = member := by
  simp [memberSet]

/-- The electorate of a ballot for `conf` and `oldConf`. -/
def electorateOf (conf oldConf : Configuration) : Electorate Member :=
  ⟨conf.voterSet, oldConf.voterSet⟩

/-- Newly issued tickets record nobody. -/
theorem issueTickets_tallies (conf : Configuration) (needed : Nat) :
    Tallies (issueTickets conf.voters) needed conf.voterSet ∅ needed := by
  have members : (issueTickets conf.voters).map Ticket.member =
      conf.voters.toList.map PeerId.member := by
    simp [issueTickets, Ticket.member, Function.comp_def]
  have unmarked : ∀ ticket ∈ issueTickets conf.voters, ticket.voted = false := by
    simp [issueTickets]
  refine ⟨members ▸ members_nodup conf.voters, by rw [members]; rfl, ?_, ?_⟩
  · intro ticket present
    simp [unmarked ticket present]
  · rw [List.countP_eq_zero.mpr fun ticket present => by simp [unmarked ticket present]]
    simp

/-- One ticket for each voter. -/
theorem length_issueTickets (conf : Configuration) :
    (issueTickets conf.voters).length = conf.voterSet.card := by
  rw [conf.card_voterSet, issueTickets, List.length_map, Std.TreeSet.length_toList]
  rfl

namespace Ballot

/-- A ballot has recorded the acknowledgements `acks` of an electorate. -/
structure Represents (ballot : Ballot) (electorate : Electorate Member)
    (acks : Finset Member) : Prop where
  current : Tallies ballot.voters ballot.quorum electorate.current acks
    (electorate.current.card / 2 + 1)
  previous : Tallies ballot.oldVoters ballot.oldQuorum electorate.previous acks
    (if electorate.previous = ∅ then 0 else electorate.previous.card / 2 + 1)

/-- A new ballot represents its electorate before any acknowledgement. -/
theorem represents_construct (conf oldConf : Configuration) :
    (construct conf oldConf).Represents (electorateOf conf oldConf) ∅ := by
  have current : Tallies (issueTickets conf.voters)
      (((issueTickets conf.voters).length / 2 + 1 : Nat) : Int) conf.voterSet ∅
      (conf.voterSet.card / 2 + 1) := by
    rw [length_issueTickets]
    exact issueTickets_tallies conf _
  by_cases simple : oldConf.voterSize < 1
  · have nobody : oldConf.voterSet = ∅ := by
      rw [← Finset.card_eq_zero, oldConf.card_voterSet]
      omega
    refine ⟨by simpa [construct, simple, electorateOf] using current, ?_⟩
    simp only [construct, simple, if_true, electorateOf, nobody]
    exact ⟨by simp, by simp, by simp, by simp⟩
  · have somebody : oldConf.voterSet ≠ ∅ := by
      rw [ne_eq, ← Finset.card_eq_zero, oldConf.card_voterSet]
      omega
    refine ⟨by simpa [construct, simple, electorateOf] using current, ?_⟩
    simp only [construct, simple, if_false, electorateOf, somebody]
    rw [length_issueTickets]
    exact issueTickets_tallies oldConf _

namespace Represents

variable {ballot ballot' : Ballot} {electorate : Electorate Member} {acks : Finset Member}

/-- A ballot is granted exactly by a joint quorum of what it has recorded. -/
theorem isGranted_iff (represents : ballot.Represents electorate acks) :
    ballot.isGranted = true ↔ electorate.Quorate acks := by
  rw [isGranted, Bool.and_eq_true, decide_eq_true_iff, decide_eq_true_iff,
    represents.current.quorum_nonpos_iff, represents.previous.quorum_nonpos_iff,
    Electorate.Quorate, Majority, Majority, Finset.nonempty_iff_ne_empty]
  by_cases simple : electorate.previous = ∅ <;> simp [simple]

/-- A grant whose lookups land records the acknowledging peer. -/
theorem grant {peer : PeerId} {hint hint' : VoterPositionHint}
    (represents : ballot.Represents electorate acks)
    (granted : ballot.grantWithUpdateHint peer hint = .ok (ballot', hint'))
    (lands : Lands ballot.voters peer (ballot.iter peer hint))
    (oldLands : ballot.oldVoters ≠ [] →
      Lands ballot.oldVoters peer (ballot.oldIter peer hint)) :
    ballot'.Represents electorate (insert peer.member acks) := by
  obtain ⟨_, _, _, cast, oldHalf⟩ := grantWithUpdateHint_ok.mp granted
  refine ⟨represents.current.cast lands cast, ?_⟩
  have before := represents.previous
  rcases oldHalf.cases with ⟨simple, none, same⟩ | ⟨joint, oldCast⟩
  · rw [none, same]
    rw [simple] at before
    exact ⟨before.nodup, before.members, by simp, before.counted⟩
  · exact before.cast (oldLands joint) oldCast

end Represents

/-- Looking up the old half leaves the cached current version alone. -/
theorem hintAfterOld_peerVersion (ballot : Ballot) (peer : PeerId) (hint : VoterPositionHint) :
    (ballot.hintAfterOld peer hint).peerVersion = hint.peerVersion := by
  unfold hintAfterOld getOldVoterTicketWithUpdateHint
  dsimp only
  split_ifs <;> rfl

/-- With a fresh hint the current half searches its tickets. -/
theorem iter_fresh {ballot : Ballot} (peer : PeerId)
    (versioned : ballot.confVersion ≠ kInvalidIndex) :
    ballot.iter peer {} = findTicket ballot.voters peer := by
  have differs : ballot.confVersion ≠ (ballot.hintAfterOld peer {}).peerVersion := by
    rw [hintAfterOld_peerVersion]
    exact versioned
  unfold iter getVoterTicketWithUpdateHint
  dsimp only
  rw [if_neg differs]
  split <;> rfl

/-- With a fresh hint the old half searches its tickets. -/
theorem oldIter_fresh {ballot : Ballot} (peer : PeerId)
    (versioned : ballot.oldConfVersion ≠ kInvalidIndex) :
    ballot.oldIter peer {} = findTicket ballot.oldVoters peer := by
  unfold oldIter getOldVoterTicketWithUpdateHint
  dsimp only
  rw [if_neg versioned, if_neg versioned]
  split <;> rfl

/-- With a fresh hint a grant returns and keeps the versions. -/
theorem grant_fresh_ok {ballot : Ballot} (peer : PeerId)
    (versioned : ballot.confVersion ≠ kInvalidIndex)
    (oldVersioned : ballot.oldConfVersion ≠ kInvalidIndex) :
    ∃ ballot' hint', ballot.grantWithUpdateHint peer {} = .ok (ballot', hint') ∧
      ballot'.confVersion = ballot.confVersion ∧
      ballot'.oldConfVersion = ballot.oldConfVersion := by
  obtain ⟨voters, quorum, cast⟩ := castVote_findTicket ballot.voters ballot.quorum peer
  obtain ⟨oldVoters, oldQuorum, oldCast⟩ :=
    castVote_findTicket ballot.oldVoters ballot.oldQuorum peer
  rw [← iter_fresh peer versioned] at cast
  rw [← oldIter_fresh peer oldVersioned] at oldCast
  by_cases simple : ballot.oldVoters = []
  · refine ⟨{ ballot with voters, quorum }, _,
      grantWithUpdateHint_ok.mpr ⟨rfl, rfl, rfl, cast, ?_⟩, rfl, rfl⟩
    simp [OldHalf, simple]
  · refine ⟨{ ballot with voters, quorum, oldVoters, oldQuorum }, _,
      grantWithUpdateHint_ok.mpr ⟨rfl, rfl, rfl, cast, ?_⟩, rfl, rfl⟩
    simpa [OldHalf, simple] using oldCast

/-- Grants of a list of peers in turn, each with a fresh hint. -/
def grantEach (ballot : Ballot) : List PeerId → Except Fault Ballot
  | [] => .ok ballot
  | peer :: rest => do
      let (ballot, _) ← ballot.grantWithUpdateHint peer {}
      ballot.grantEach rest

/-- Fresh grants of a list of peers record exactly that list. -/
theorem Represents.grantEach {ballot : Ballot} {electorate : Electorate Member}
    {acks : Finset Member} (represents : ballot.Represents electorate acks)
    (versioned : ballot.confVersion ≠ kInvalidIndex)
    (oldVersioned : ballot.oldConfVersion ≠ kInvalidIndex) (peers : List PeerId) :
    ∃ final, ballot.grantEach peers = .ok final ∧
      final.Represents electorate (acks ∪ memberSet peers) := by
  induction peers generalizing ballot acks with
  | nil => exact ⟨ballot, rfl, by simpa [memberSet] using represents⟩
  | cons peer rest inductionHypothesis =>
      obtain ⟨next, hint, granted, version, oldVersion⟩ :=
        grant_fresh_ok peer versioned oldVersioned
      have recorded := represents.grant granted (.inl (iter_fresh peer versioned))
        fun _ => .inl (oldIter_fresh peer oldVersioned)
      obtain ⟨final, returned, reached⟩ :=
        inductionHypothesis recorded (version ▸ versioned) (oldVersion ▸ oldVersioned)
      refine ⟨final, bind_ok.mpr ⟨(next, hint), granted, returned⟩, ?_⟩
      have acknowledged : insert peer.member acks ∪ memberSet rest =
          acks ∪ memberSet (peer :: rest) := by
        ext member
        simp [memberSet]
      exact acknowledged ▸ reached

/-- The constructor takes over the versions of its configurations. -/
theorem construct_versions (conf oldConf : Configuration) :
    (construct conf oldConf).confVersion = conf.version ∧
      (construct conf oldConf).oldConfVersion = oldConf.version := by
  unfold construct
  dsimp only
  split <;> exact ⟨rfl, rfl⟩

end Ballot

end Traft.Raft
