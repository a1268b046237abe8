import Traft.Raft.Membership
import Traft.Raft.PositionHint

/-!
# Grants with a fresh hint

With a fresh hint both halves of a grant search their tickets, so the grant marks
the tickets of the acknowledging peer and no others. `Ballot.credit` is that
effect. A new ballot has a ticket for exactly the voters its configurations
contain, which makes a sequence of fresh grants a joint majority count.
-/

namespace Traft.Raft

open Traft.Quorum

/-- The ticket once `peer` has acknowledged: marked if it is the peer's. -/
def Ticket.credit (peer : PeerId) (ticket : Ticket) : Ticket :=
  if ticket.peer == peer then { ticket with voted := true } else ticket

/-- The votes missing once `peer` has acknowledged. -/
def countDown (tickets : List Ticket) (peer : PeerId) (quorum : Int) : Int :=
  if tickets.any fun ticket => ticket.peer == peer && !ticket.voted then quorum - 1 else quorum

/-- The ballot once `peer` has acknowledged. -/
def Ballot.credit (ballot : Ballot) (peer : PeerId) : Ballot :=
  { ballot with
    voters := ballot.voters.map (Ticket.credit peer)
    oldVoters := ballot.oldVoters.map (Ticket.credit peer)
    quorum := countDown ballot.voters peer ballot.quorum
    oldQuorum := countDown ballot.oldVoters peer ballot.oldQuorum }

/-- Among distinct members the ticket of a peer is the one the search stops at. -/
theorem peer_beq_iff_findTicket {tickets : List Ticket} {peer : PeerId}
    (nodup : (tickets.map Ticket.member).Nodup) {index : Nat} (inside : index < tickets.length) :
    (tickets[index].peer == peer) = true ↔ index = findTicket tickets peer := by
  constructor
  · intro own
    exact (findTicket_eq nodup inside (PeerId.beq_iff_member.mp own)).symm
  · rintro rfl
    exact PeerId.beq_iff_member.mpr (member_findTicket inside)

/-- Crediting tickets that are not the peer's changes none of them. -/
theorem map_credit_of_absent {tickets : List Ticket} {peer : PeerId}
    (absent : ∀ ticket ∈ tickets, ticket.member ≠ peer.member) :
    tickets.map (Ticket.credit peer) = tickets := by
  have same : tickets.map (Ticket.credit peer) = tickets.map id := by
    apply List.map_congr_left
    intro ticket present
    rw [Ticket.credit, if_neg fun own => absent ticket present (PeerId.beq_iff_member.mp own)]
    rfl
  rw [same, List.map_id]

/-- Tickets that are not the peer's leave its vote uncounted. -/
theorem countDown_of_absent {tickets : List Ticket} {peer : PeerId} (quorum : Int)
    (absent : ∀ ticket ∈ tickets, ticket.member ≠ peer.member) :
    countDown tickets peer quorum = quorum := by
  rw [countDown, if_neg]
  rw [List.any_eq_true]
  rintro ⟨ticket, present, own⟩
  rw [Bool.and_eq_true] at own
  exact absent ticket present (PeerId.beq_iff_member.mp own.1)

/-- Marking the ticket the search stops at credits its peer. -/
theorem set_findTicket {tickets : List Ticket} {peer : PeerId}
    (nodup : (tickets.map Ticket.member).Nodup)
    (inside : findTicket tickets peer < tickets.length) :
    tickets.set (findTicket tickets peer) { tickets[findTicket tickets peer] with voted := true } =
      tickets.map (Ticket.credit peer) := by
  apply List.ext_getElem
  · simp
  intro index first second
  rw [List.length_set] at first
  have here : (tickets[index].peer == peer) = true ↔ index = findTicket tickets peer :=
    peer_beq_iff_findTicket nodup first
  rw [List.getElem_set, List.getElem_map, Ticket.credit]
  split
  · rename_i same
    subst same
    rw [if_pos (here.mpr rfl)]
  · rename_i other
    rw [if_neg fun found => other (here.mp found).symm]

/-- The vote of a peer counts if the ticket the search stops at is unmarked. -/
theorem countDown_findTicket {tickets : List Ticket} {peer : PeerId} (quorum : Int)
    (nodup : (tickets.map Ticket.member).Nodup)
    (inside : findTicket tickets peer < tickets.length) :
    countDown tickets peer quorum =
      if tickets[findTicket tickets peer].voted then quorum else quorum - 1 := by
  have counts : (tickets.any fun ticket => ticket.peer == peer && !ticket.voted) =
      !tickets[findTicket tickets peer].voted := by
    rw [Bool.eq_iff_iff, List.any_eq_true]
    constructor
    · rintro ⟨ticket, present, unmarked⟩
      rw [Bool.and_eq_true] at unmarked
      obtain ⟨index, within, rfl⟩ := List.mem_iff_getElem.mp present
      obtain rfl := (peer_beq_iff_findTicket nodup within).mp unmarked.1
      exact unmarked.2
    · intro unmarked
      have own := (peer_beq_iff_findTicket nodup inside).mpr rfl
      exact ⟨_, List.getElem_mem inside, by rw [own, unmarked]; rfl⟩
  rw [countDown, counts]
  cases tickets[findTicket tickets peer].voted <;> rfl

/-- A cast at the result of the linear search credits the peer. -/
theorem castVote_findTicket_eq {tickets : List Ticket} {peer : PeerId} (quorum : Int)
    (nodup : (tickets.map Ticket.member).Nodup) :
    castVote tickets quorum (findTicket tickets peer) =
      .ok (tickets.map (Ticket.credit peer), countDown tickets peer quorum) := by
  by_cases inside : findTicket tickets peer < tickets.length
  · rw [castVote_inside quorum inside, set_findTicket nodup inside,
      countDown_findTicket quorum nodup inside]
  · have atEnd : findTicket tickets peer = tickets.length :=
      Nat.le_antisymm List.findIdx_le_length (Nat.le_of_not_lt inside)
    have absent := findTicket_eq_length.mp atEnd
    rw [atEnd, castVote_end, map_credit_of_absent absent, countDown_of_absent quorum absent]

namespace Ballot

/-- A grant whose lookups find the peer's own tickets credits the peer. -/
theorem grant_eq_credit {ballot : Ballot} {peer : PeerId} {hint : VoterPositionHint}
    (distinct : ballot.Distinct)
    (found : ballot.iter peer hint = findTicket ballot.voters peer)
    (oldFound : ballot.oldVoters ≠ [] →
      ballot.oldIter peer hint = findTicket ballot.oldVoters peer) :
    ballot.grantWithUpdateHint peer hint =
      .ok (ballot.credit peer, ballot.hintAfter peer hint) := by
  refine grantWithUpdateHint_ok.mpr ⟨rfl, rfl, rfl, ?_, ?_⟩
  · rw [found]
    exact castVote_findTicket_eq ballot.quorum distinct.current
  · unfold OldHalf
    split
    · rename_i simple
      simp [credit, countDown, simple]
    · rename_i joint
      rw [oldFound joint]
      exact castVote_findTicket_eq ballot.oldQuorum distinct.previous

/-- A grant with a fresh hint credits the peer. -/
theorem grant_fresh {ballot : Ballot} (peer : PeerId) (distinct : ballot.Distinct)
    (versioned : ballot.confVersion ≠ kInvalidIndex)
    (oldVersioned : ballot.oldConfVersion ≠ kInvalidIndex) :
    ballot.grantWithUpdateHint peer {} = .ok (ballot.credit peer, ballot.hintAfter peer {}) :=
  grant_eq_credit distinct (iter_fresh peer versioned) fun _ => oldIter_fresh peer oldVersioned

/-- Crediting a peer changes votes alone. -/
theorem paper_credit (ballot : Ballot) (peer : PeerId) :
    (ballot.credit peer).paper = ballot.paper := by
  have kept : ∀ ticket : Ticket, (ticket.credit peer).peer = ticket.peer := by
    intro ticket
    unfold Ticket.credit
    split <;> rfl
  simp [paper, credit, kept]

/-- The ballot after a list of peers acknowledged in turn. -/
def creditEach (ballot : Ballot) (peers : List PeerId) : Ballot := peers.foldl credit ballot

/-- Acknowledgements change votes alone. -/
theorem paper_creditEach (ballot : Ballot) (peers : List PeerId) :
    (ballot.creditEach peers).paper = ballot.paper := by
  induction peers generalizing ballot with
  | nil => rfl
  | cons peer rest inductionHypothesis =>
      exact (inductionHypothesis (ballot.credit peer)).trans (ballot.paper_credit peer)

/-- Fresh grants of a list of peers credit them in turn. -/
theorem grantEach_eq_credit {ballot : Ballot} (distinct : ballot.Distinct)
    (versioned : ballot.confVersion ≠ kInvalidIndex)
    (oldVersioned : ballot.oldConfVersion ≠ kInvalidIndex) (peers : List PeerId) :
    ballot.grantEach peers = .ok (ballot.creditEach peers) := by
  induction peers generalizing ballot with
  | nil => rfl
  | cons peer rest inductionHypothesis =>
      refine bind_ok.mpr ⟨_, grant_fresh peer distinct versioned oldVersioned, ?_⟩
      apply inductionHypothesis
      · exact distinct.of_paper (ballot.paper_credit peer)
      · exact versioned
      · exact oldVersioned

/-- A new ballot has a ticket for each voter of both configurations. -/
theorem construct_tickets (conf oldConf : Configuration) :
    (construct conf oldConf).voters = issueTickets conf.voters ∧
      (construct conf oldConf).oldVoters = issueTickets oldConf.voters := by
  by_cases simple : oldConf.voterSize < 1
  · have nobody : issueTickets oldConf.voters = [] := by
      rw [← List.length_eq_zero_iff, length_issueTickets, oldConf.card_voterSet]
      omega
    simp [construct, simple, nobody]
  · simp [construct, simple]

/-- A peer that a set does not contain has no ticket in what the set issued. -/
theorem absent_issueTickets {peers : Std.TreeSet PeerId} {peer : PeerId}
    (absent : peers.contains peer = false) :
    ∀ ticket ∈ issueTickets peers, ticket.member ≠ peer.member := by
  intro ticket present own
  obtain ⟨holder, held, rfl⟩ := List.mem_map.mp present
  have found : peers.contains peer = true :=
    Configuration.contains_iff_agrees.mpr ⟨holder, held, PeerId.agrees_iff_member.mpr own⟩
  rw [absent] at found
  cases found

/-- The vote of a peer counts among newly issued tickets if the set contains it. -/
theorem countDown_issueTickets (peers : Std.TreeSet PeerId) (peer : PeerId) (quorum : Int) :
    countDown (issueTickets peers) peer quorum =
      if peers.contains peer then quorum - 1 else quorum := by
  cases found : peers.contains peer with
  | false => exact countDown_of_absent quorum (absent_issueTickets found)
  | true =>
      obtain ⟨holder, held, agrees⟩ := Configuration.contains_iff_agrees.mp found
      rw [countDown, if_pos]
      · rfl
      · rw [List.any_eq_true]
        refine ⟨⟨holder, false⟩, List.mem_map_of_mem held, ?_⟩
        have own : (holder == peer) = true :=
          PeerId.beq_iff_member.mpr (PeerId.agrees_iff_member.mp agrees)
        rw [own]
        rfl

end Ballot

namespace Configuration

/-- A configuration that operations on a default one lead to. -/
def Built (conf : Configuration) : Prop := ∃ operations, performAll {} operations = conf

/-- A learner of a configuration that was built is not one of its voters. -/
theorem Built.not_voter {conf : Configuration} {peer : PeerId} (built : conf.Built)
    (learns : conf.containsLearner peer = true) : conf.containsVoter peer = false := by
  obtain ⟨operations, rfl⟩ := built
  exact learner_not_voter learns

/-- How many voters of a configuration are among some peers. -/
def votersAmong (conf : Configuration) (peers : List PeerId) : Nat :=
  conf.voters.toList.countP fun voter => peers.any (voter == ·)

/-- The voters among some peers are the common members. -/
theorem votersAmong_eq (conf : Configuration) (peers : List PeerId) :
    conf.votersAmong peers = (conf.voterSet ∩ memberSet peers).card := by
  rw [voterSet, card_inter_toFinset (members_nodup conf.voters), votersAmong]
  apply List.countP_congr
  intro voter _
  rw [List.any_eq_true, decide_eq_true_iff, mem_memberSet]
  refine exists_congr fun peer => and_congr_right fun _ => ?_
  rw [PeerId.beq_iff_member, eq_comm]

/-- At least half of the voters, rounded down, and one more are among some peers. -/
def MajorityAmong (conf : Configuration) (peers : List PeerId) : Prop :=
  conf.voterSize / 2 + 1 ≤ conf.votersAmong peers

instance (conf : Configuration) (peers : List PeerId) : Decidable (conf.MajorityAmong peers) :=
  inferInstanceAs (Decidable (_ ≤ _))

/-- Counted by voters or by members, a majority is the same. -/
theorem majorityAmong_iff {conf : Configuration} {peers : List PeerId} :
    conf.MajorityAmong peers ↔ Majority conf.voterSet (memberSet peers) := by
  rw [MajorityAmong, Majority, votersAmong_eq, card_voterSet]

end Configuration

namespace Ballot

/-- After any number of fresh grants a ballot is granted exactly if a majority of
the voters of its configuration are among the granting peers, and one of the old
voters too, if there are any. -/
theorem isGranted_iff_majorities {conf oldConf : Configuration}
    (versioned : conf.version ≠ kInvalidIndex) (oldVersioned : oldConf.version ≠ kInvalidIndex)
    (grants : List PeerId) (count : Nat) :
    ∃ ballot, (construct conf oldConf).grantEach (grants.take count) = .ok ballot ∧
      (ballot.isGranted = true ↔ conf.MajorityAmong (grants.take count) ∧
        (0 < oldConf.voterSize → oldConf.MajorityAmong (grants.take count))) := by
  obtain ⟨version, oldVersion⟩ := construct_versions conf oldConf
  obtain ⟨ballot, reached, represents⟩ := (represents_construct conf oldConf).grantEach
    (version ▸ versioned) (oldVersion ▸ oldVersioned) (grants.take count)
  refine ⟨ballot, reached, ?_⟩
  rw [Finset.empty_union] at represents
  rw [represents.isGranted_iff, Electorate.Quorate, Configuration.majorityAmong_iff,
    Configuration.majorityAmong_iff, ← oldConf.card_voterSet, Finset.card_pos]
  rfl

/-- Replica 1 grants twice, once as a learner, and replica 9 is no voter: of three
voters one has granted. -/
theorem isGranted_iff_majorities_repeated :
    ∃ ballot, (construct (Configuration.ofVoters 1 [replica 1, replica 2, replica 3]) {}).grantEach
        ([replica 1, ⟨⟨0, 0⟩, 1, .learner⟩, replica 9, replica 2].take 3) = .ok ballot ∧
      (ballot.isGranted = true ↔
        (Configuration.ofVoters 1 [replica 1, replica 2, replica 3]).MajorityAmong
          ([replica 1, ⟨⟨0, 0⟩, 1, .learner⟩, replica 9, replica 2].take 3) ∧
        (0 < ({} : Configuration).voterSize → ({} : Configuration).MajorityAmong
          ([replica 1, ⟨⟨0, 0⟩, 1, .learner⟩, replica 9, replica 2].take 3))) :=
  isGranted_iff_majorities (by decide) (by decide) _ _

/-- A counter that a vote lowers by one if the voter is eligible, and not at all
otherwise. -/
structure Lowers (eligible : Bool) (before after : Int) : Prop where
  lowered : after = before - 1 ↔ eligible = true
  kept : eligible = false → after = before

/-- What an acknowledgement of `peer` makes of a ballot of two configurations: it
lowers the counters of those whose voter it is, and marks no ticket but its own. -/
structure Counts (conf oldConf : Configuration) (peer : PeerId) (before after : Ballot) :
    Prop where
  quorum : Lowers (conf.containsVoter peer) before.quorum after.quorum
  oldQuorum : Lowers (oldConf.containsVoter peer) before.oldQuorum after.oldQuorum
  voters : after.voters = before.voters.map (Ticket.credit peer)
  oldVoters : after.oldVoters = before.oldVoters.map (Ticket.credit peer)

/-- The votes missing among newly issued tickets are lowered by the set's peers. -/
theorem lowers_issueTickets (peers : Std.TreeSet PeerId) (peer : PeerId) (quorum : Int) :
    Lowers (peers.contains peer) quorum (countDown (issueTickets peers) peer quorum) := by
  rw [countDown_issueTickets]
  cases peers.contains peer with
  | false =>
      refine ⟨iff_of_false ?_ Bool.false_ne_true, fun _ => rfl⟩
      intro same
      have lower : quorum = quorum - 1 := same
      omega
  | true => exact ⟨by simp, nofun⟩

/-- Crediting a peer without a ticket leaves a ballot as it was. -/
theorem credit_of_absent {ballot : Ballot} {peer : PeerId}
    (absent : ∀ ticket ∈ ballot.voters, ticket.member ≠ peer.member)
    (oldAbsent : ∀ ticket ∈ ballot.oldVoters, ticket.member ≠ peer.member) :
    ballot.credit peer = ballot := by
  rw [credit, map_credit_of_absent absent, map_credit_of_absent oldAbsent,
    countDown_of_absent _ absent, countDown_of_absent _ oldAbsent]

/-- Tickets of the same peers lack the same peer. -/
theorem absent_of_peers {tickets tickets' : List Ticket} {peer : PeerId}
    (same : tickets'.map Ticket.peer = tickets.map Ticket.peer)
    (absent : ∀ ticket ∈ tickets, ticket.member ≠ peer.member) :
    ∀ ticket ∈ tickets', ticket.member ≠ peer.member := by
  intro ticket present own
  have kept : ticket.peer ∈ tickets.map Ticket.peer := same ▸ List.mem_map_of_mem present
  obtain ⟨other, held, equal⟩ := List.mem_map.mp kept
  exact absent other held ((congrArg PeerId.member equal).trans own)

/-- A peer that votes in neither configuration changes nothing, whoever granted
before it. -/
theorem spares_of_absent {conf oldConf : Configuration} {peer : PeerId}
    (versioned : conf.version ≠ kInvalidIndex) (oldVersioned : oldConf.version ≠ kInvalidIndex)
    (foreign : conf.containsVoter peer = false) (oldForeign : oldConf.containsVoter peer = false)
    {grants : List PeerId} {reached : Ballot}
    (returned : (construct conf oldConf).grantEach grants = .ok reached) :
    ∃ hint, reached.grantWithUpdateHint peer {} = .ok (reached, hint) := by
  obtain ⟨version, oldVersion⟩ := construct_versions conf oldConf
  obtain ⟨tickets, oldTickets⟩ := construct_tickets conf oldConf
  have distinct := distinct_construct conf oldConf
  rw [grantEach_eq_credit distinct (version ▸ versioned) (oldVersion ▸ oldVersioned)] at returned
  obtain rfl := Except.ok.inj returned
  have paper := paper_creditEach (construct conf oldConf) grants
  have absent := absent_of_peers (congrArg Paper.voters paper)
    (tickets ▸ absent_issueTickets foreign)
  have oldAbsent := absent_of_peers (congrArg Paper.oldVoters paper)
    (oldTickets ▸ absent_issueTickets oldForeign)
  have kept : ((construct conf oldConf).creditEach grants).confVersion = conf.version :=
    (congrArg Paper.confVersion paper).trans version
  have oldKept : ((construct conf oldConf).creditEach grants).oldConfVersion = oldConf.version :=
    (congrArg Paper.oldConfVersion paper).trans oldVersion
  have granted := grant_fresh peer (distinct.of_paper paper) (kept ▸ versioned)
    (oldKept ▸ oldVersioned)
  rw [credit_of_absent absent oldAbsent] at granted
  exact ⟨_, granted⟩

/-- A fresh grant on a new ballot counts for the configurations that contain the
peer as a voter; so a learner of the one that is no voter of the other never
changes the ballot. -/
theorem counts_of_built {conf oldConf : Configuration} (built : conf.Built)
    (versioned : conf.version ≠ kInvalidIndex) (oldVersioned : oldConf.version ≠ kInvalidIndex)
    (peer : PeerId) :
    (∃ ballot hint, (construct conf oldConf).grantWithUpdateHint peer {} = .ok (ballot, hint) ∧
        Counts conf oldConf peer (construct conf oldConf) ballot) ∧
      (conf.containsLearner peer = true → oldConf.containsVoter peer = false →
        ∀ grants reached, (construct conf oldConf).grantEach grants = .ok reached →
          ∃ hint, reached.grantWithUpdateHint peer {} = .ok (reached, hint)) := by
  obtain ⟨version, oldVersion⟩ := construct_versions conf oldConf
  obtain ⟨tickets, oldTickets⟩ := construct_tickets conf oldConf
  constructor
  · refine ⟨_, _, grant_fresh peer (distinct_construct conf oldConf) (version ▸ versioned)
      (oldVersion ▸ oldVersioned), ?_, ?_, rfl, rfl⟩
    · rw [credit, tickets]
      exact lowers_issueTickets conf.voters peer _
    · rw [credit, oldTickets]
      exact lowers_issueTickets oldConf.voters peer _
  · intro learns foreign grants reached returned
    exact spares_of_absent versioned oldVersioned (built.not_voter learns) foreign returned

/-- Replica 1 votes and replica 2 learns. -/
def oneLearner : Configuration :=
  .performAll {} [.mutate (.addVoter (replica 1)), .mutate (.addLearner (replica 2)),
    .setVersion 2]

/-- Replica 2 does not count for that configuration, nor for an older one without
it. -/
theorem counts_of_built_oneLearner :
    (∃ ballot hint, (construct oneLearner (.ofVoters 1 [replica 1])).grantWithUpdateHint
        (replica 2) {} = .ok (ballot, hint) ∧
      Counts oneLearner (.ofVoters 1 [replica 1]) (replica 2)
        (construct oneLearner (.ofVoters 1 [replica 1])) ballot) ∧
      ∀ grants reached, (construct oneLearner (.ofVoters 1 [replica 1])).grantEach grants =
        .ok reached → ∃ hint, reached.grantWithUpdateHint (replica 2) {} = .ok (reached, hint) :=
  have counts := counts_of_built ⟨_, rfl⟩ (by decide) (by decide) (replica 2)
  ⟨counts.1, counts.2 (by decide) (by decide)⟩

end Ballot

end Traft.Raft
