import Traft.Raft.CachedPosition

/-!
# Positions kept across a change of membership

The mutators of a membership leave the version alone, and the version is all that
tells a cached position from a stale one. After a change a hint therefore leads
its peer to the position it had before, unless `SetVersion` has intervened.
-/

namespace Traft.Raft

open Traft.Quorum

/-- Tickets of the same peers hold each peer at the same position. -/
theorem findTicket_eq_of_peers {tickets tickets' : List Ticket}
    (same : tickets'.map Ticket.peer = tickets.map Ticket.peer) (peer : PeerId) :
    findTicket tickets' peer = findTicket tickets peer := by
  have byPeers : ∀ tickets : List Ticket, findTicket tickets peer =
      (tickets.map Ticket.peer).findIdx (· == peer) := by
    intro tickets
    rw [List.findIdx_map]
    rfl
  rw [byPeers, byPeers, same]

/-- A cast on unmarked tickets that credits a peer was made at its own position. -/
theorem iter_of_castVote_credit {tickets : List Ticket} {peer : PeerId}
    {quorum quorum' iter : Int} (nodup : (tickets.map Ticket.member).Nodup)
    (unmarked : ∀ ticket ∈ tickets, ticket.voted = false)
    (cast : castVote tickets quorum iter = .ok (tickets.map (Ticket.credit peer), quorum')) :
    iter = findTicket tickets peer := by
  -- a credited ticket is marked, and none was before
  have marked : ∀ ticket ∈ tickets, (ticket.peer == peer) = (ticket.credit peer).voted := by
    intro ticket present
    unfold Ticket.credit
    split
    · assumption
    · rename_i other
      rw [unmarked ticket present]
      exact Bool.eq_false_iff.mpr other
  rcases castVote_ok cast with ⟨atEnd, same, _⟩ | ⟨position, inside, rfl, same, _⟩
  · rw [atEnd, findTicket_eq_length.mpr]
    intro ticket present own
    have credited : ticket.credit peer ∈ tickets := same ▸ List.mem_map_of_mem present
    have found := marked ticket present
    rw [unmarked _ credited, PeerId.beq_iff_member.mpr own] at found
    cases found
  · have here : tickets[position].credit peer = { tickets[position] with voted := true } := by
      have positions := congrArg (·[position]?) same
      simpa [inside] using positions
    have own := marked tickets[position] (List.getElem_mem inside)
    rw [here] at own
    rw [(peer_beq_iff_findTicket nodup inside).mp own]

namespace Ballot

/-- A ballot of one configuration alone, whatever votes it holds. -/
def IsOf (ballot : Ballot) (conf : Configuration) : Prop :=
  ∃ none : Configuration, none.voterSize = 0 ∧ ballot.paper = (construct conf none).paper

namespace IsOf

variable {ballot : Ballot} {conf : Configuration}

/-- A new ballot is of its configuration. -/
theorem construct (conf : Configuration) : (Ballot.construct conf {}).IsOf conf :=
  ⟨{}, rfl, rfl⟩

/-- There are no old voters. -/
theorem simple (isOf : ballot.IsOf conf) : ballot.oldVoters = [] := by
  obtain ⟨none, nobody, paper⟩ := isOf
  have peers := congrArg Paper.oldVoters paper
  have tickets := (construct_tickets conf none).2
  have empty : issueTickets none.voters = [] := by
    rw [← List.length_eq_zero_iff, length_issueTickets, none.card_voterSet, nobody]
  rw [Ballot.paper, Ballot.paper, tickets, empty] at peers
  exact List.map_eq_nil_iff.mp peers

/-- The version is the configuration's. -/
theorem version (isOf : ballot.IsOf conf) : ballot.confVersion = conf.version := by
  obtain ⟨none, _, paper⟩ := isOf
  exact (congrArg Paper.confVersion paper).trans (construct_versions conf none).1

/-- No two tickets belong to one member. -/
theorem distinct (isOf : ballot.IsOf conf) : ballot.Distinct := by
  obtain ⟨none, _, paper⟩ := isOf
  exact (distinct_construct conf none).of_paper paper

/-- The tickets are for the voters. -/
theorem peers (isOf : ballot.IsOf conf) :
    ballot.voters.map Ticket.peer = (issueTickets conf.voters).map Ticket.peer := by
  obtain ⟨none, _, paper⟩ := isOf
  have same : ballot.voters.map Ticket.peer = _ := congrArg Paper.voters paper
  rw [same, Ballot.paper, (construct_tickets conf none).1]

/-- A peer is held where the configuration has it. -/
theorem position (isOf : ballot.IsOf conf) (peer : PeerId) :
    findTicket ballot.voters peer = conf.position peer :=
  findTicket_eq_of_peers isOf.peers peer

/-- The search reaches the end for the peers that are no voters. -/
theorem position_eq_length_iff (isOf : ballot.IsOf conf) {peer : PeerId} :
    findTicket ballot.voters peer = ballot.voters.length ↔ conf.containsVoter peer = false := by
  rw [isOf.position, ← List.length_map (f := Ticket.peer), isOf.peers, List.length_map]
  constructor
  · intro atEnd
    rw [Bool.eq_false_iff]
    intro votes
    obtain ⟨holder, held, agrees⟩ := Configuration.contains_iff_agrees.mp votes
    exact findTicket_eq_length.mp atEnd ⟨holder, false⟩ (List.mem_map_of_mem held)
      (PeerId.agrees_iff_member.mp agrees)
  · intro foreign
    exact findTicket_eq_length.mpr (absent_issueTickets foreign)

end IsOf

variable {peer : PeerId} {first second : Ballot}

/-- After `peer` granted on the first ballot with a fresh hint, its grant on the
second with the hint this left marks its own ticket if it has one, and otherwise
none. -/
def CreditsNext (peer : PeerId) (first second : Ballot) : Prop :=
  ∃ first' hint second' final, first.grantWithUpdateHint peer {} = .ok (first', hint) ∧
    second.grantWithUpdateHint peer hint = .ok (second', final) ∧
    second'.voters = second.voters.map (Ticket.credit peer)

/-- What a fresh hint caches on a simple ballot: the position of the peer, if it
has one. -/
theorem hintAfter_fresh (simple : first.oldVoters = [])
    (versioned : first.confVersion ≠ kInvalidIndex) :
    first.hintAfter peer {} =
      if findTicket first.voters peer = first.voters.length then {}
      else { peerVersion := first.confVersion, voterOffset := findTicket first.voters peer } := by
  have fresh : first.hintAfterOld peer {} = {} := by
    simp [hintAfterOld, simple]
  rw [hintAfter, fresh, getVoterTicketWithUpdateHint, if_neg versioned]
  dsimp only
  by_cases atEnd : findTicket first.voters peer = first.voters.length
  · simp [atEnd]
  · simp [atEnd]

/-- Where the second of two simple ballots is read: at the position of the peer in
the first, if the peer has one there and the versions agree. -/
theorem iter_after_fresh (simple : first.oldVoters = []) (nextSimple : second.oldVoters = [])
    (versioned : first.confVersion ≠ kInvalidIndex)
    (nextVersioned : second.confVersion ≠ kInvalidIndex) :
    second.iter peer (first.hintAfter peer {}) =
      if second.confVersion = first.confVersion ∧
        findTicket first.voters peer ≠ first.voters.length
      then findTicket first.voters peer else findTicket second.voters peer := by
  rw [hintAfter_fresh simple versioned]
  by_cases atEnd : findTicket first.voters peer = first.voters.length
  · rw [if_pos atEnd, if_neg fun both => both.2 atEnd]
    exact iter_fresh peer nextVersioned
  rw [if_neg atEnd, iter, hintAfterOld, nextSimple, if_neg (by simp), getVoterTicketWithUpdateHint]
  by_cases same : second.confVersion = first.confVersion
  · simp [same, atEnd]
  · have other : ¬ (second.confVersion = first.confVersion ∧
        findTicket first.voters peer ≠ first.voters.length) := fun both => same both.1
    rw [if_neg other, if_neg same]
    dsimp only
    split <;> rfl

/-- The second grant credits its peer if it is read at the peer's position. -/
theorem creditsNext_of_iter {conf next : Configuration} (isOf : first.IsOf conf)
    (nextOf : second.IsOf next) (versioned : first.confVersion ≠ kInvalidIndex)
    (found : second.iter peer (first.hintAfter peer {}) = findTicket second.voters peer) :
    CreditsNext peer first second := by
  have granted : first.grantWithUpdateHint peer {} =
      .ok (first.credit peer, first.hintAfter peer {}) :=
    grant_eq_credit isOf.distinct (iter_fresh peer versioned)
      fun joint => absurd isOf.simple joint
  have grantedNext := grant_eq_credit nextOf.distinct found
    fun joint => absurd nextOf.simple joint
  exact ⟨_, _, _, _, granted, grantedNext, rfl⟩

/-- On a new ballot it does not unless it is. -/
theorem iter_of_creditsNext (distinct : second.Distinct)
    (unmarked : ∀ ticket ∈ second.voters, ticket.voted = false)
    (credits : CreditsNext peer first second) :
    second.iter peer (first.hintAfter peer {}) = findTicket second.voters peer := by
  obtain ⟨_, hint, second', _, granted, grantedNext, marks⟩ := credits
  obtain rfl : hint = first.hintAfter peer {} := (grantWithUpdateHint_ok.mp granted).1
  obtain ⟨_, _, _, cast, _⟩ := grantWithUpdateHint_ok.mp grantedNext
  rw [marks] at cast
  exact iter_of_castVote_credit distinct.current unmarked cast

/-- Granting on ballots of one configuration and then of another credits the peer,
whatever votes they hold, exactly if the versions differ, the peer had no ticket
in the first, or its position in the second is the same. -/
theorem creditsNext_iff {conf next : Configuration} (versioned : conf.version ≠ kInvalidIndex)
    (nextVersioned : next.version ≠ kInvalidIndex) (peer : PeerId) :
    (∀ first second, IsOf first conf → IsOf second next → CreditsNext peer first second) ↔
      next.version ≠ conf.version ∨ conf.containsVoter peer = false ∨
        next.position peer = conf.position peer := by
  have read : ∀ {first second}, IsOf first conf → IsOf second next →
      second.iter peer (first.hintAfter peer {}) =
        if next.version = conf.version ∧ conf.containsVoter peer = true
        then conf.position peer else next.position peer := by
    intro first second isOf nextOf
    have votes : conf.position peer ≠ first.voters.length ↔ conf.containsVoter peer = true := by
      rw [← isOf.position, ne_eq, isOf.position_eq_length_iff, Bool.not_eq_false]
    rw [iter_after_fresh isOf.simple nextOf.simple (isOf.version ▸ versioned)
      (nextOf.version ▸ nextVersioned)]
    simp only [votes, isOf.version, nextOf.version, isOf.position, nextOf.position]
  constructor
  · intro credits
    have isOf := IsOf.construct conf
    have nextOf := IsOf.construct next
    have unmarked : ∀ ticket ∈ (Ballot.construct next {}).voters, ticket.voted = false := by
      rw [(construct_tickets next {}).1]
      simp [issueTickets]
    have own := iter_of_creditsNext nextOf.distinct unmarked (credits _ _ isOf nextOf)
    rw [read isOf nextOf, nextOf.position] at own
    by_cases other : next.version = conf.version
    · cases votes : conf.containsVoter peer with
      | false => exact .inr (.inl rfl)
      | true =>
          rw [if_pos ⟨other, votes⟩] at own
          exact .inr (.inr (Int.ofNat_inj.mp own.symm))
    · exact .inl other
  · intro fits first second isOf nextOf
    apply creditsNext_of_iter isOf nextOf (isOf.version ▸ versioned)
    rw [read isOf nextOf, nextOf.position]
    split
    · rename_i cached
      rcases fits with other | foreign | same
      · exact absurd cached.1 other
      · rw [cached.2] at foreign
        cases foreign
      · rw [same]
    · rfl

end Ballot

namespace Configuration

/-- The mutators of a membership leave the version alone. -/
theorem version_mutate (conf : Configuration) (change : Change PeerId) :
    (conf.mutate change).version = conf.version := by
  cases change with
  | addVoter peer =>
      change (conf.addVoter peer).2.version = conf.version
      unfold addVoter
      split <;> rfl
  | addLearner peer =>
      change (conf.addLearner peer).2.version = conf.version
      unfold addLearner
      split <;> rfl
  | removeVoter peer => rfl
  | removeLearner peer => rfl
  | reset => rfl

/-- So does any sequence of them. -/
theorem version_performAll (conf : Configuration) (changes : List (Change PeerId)) :
    (conf.performAll (changes.map .mutate)).version = conf.version := by
  induction changes generalizing conf with
  | nil => rfl
  | cons change rest inductionHypothesis =>
      exact (inductionHypothesis (conf.mutate change)).trans (conf.version_mutate change)

/-- Changes of membership keep the version. After operations of any kind a position
cached before them credits its peer, on ballots with any votes, exactly if the
version is another, or the peer did not vote before, or its position has not
moved. -/
theorem cached_position_valid_iff {conf : Configuration} (versioned : conf.version ≠ kInvalidIndex)
    {operations : List Operation}
    (stillVersioned : (conf.performAll operations).version ≠ kInvalidIndex) (peer : PeerId) :
    (∀ changes : List (Change PeerId), operations = changes.map .mutate →
        (conf.performAll operations).version = conf.version) ∧
      ((∀ first second, Ballot.IsOf first conf →
          Ballot.IsOf second (conf.performAll operations) →
          Ballot.CreditsNext peer first second) ↔
        (conf.performAll operations).version ≠ conf.version ∨
          conf.containsVoter peer = false ∨
          (conf.performAll operations).position peer = conf.position peer) := by
  refine ⟨?_, Ballot.creditsNext_iff versioned stillVersioned peer⟩
  rintro changes rfl
  exact conf.version_performAll changes

/-- Replicas 1, 2 and 3 vote. -/
def threeVoters : Configuration := ofVoters 1 [replica 1, replica 2, replica 3]

/-- Replica 2 moves up when replica 1 is removed. Under a new version its cached
position does not mislead it. -/
theorem cached_position_valid_iff_threeVoters :
    (∀ first second, Ballot.IsOf first threeVoters →
        Ballot.IsOf second
          (threeVoters.performAll [.mutate (.removeVoter (replica 1)), .setVersion 2]) →
        Ballot.CreditsNext (replica 2) first second) ↔
      (threeVoters.performAll [.mutate (.removeVoter (replica 1)), .setVersion 2]).version ≠
        threeVoters.version ∨
      threeVoters.containsVoter (replica 2) = false ∨
      (threeVoters.performAll [.mutate (.removeVoter (replica 1)), .setVersion 2]).position
        (replica 2) = threeVoters.position (replica 2) :=
  (cached_position_valid_iff (by decide) (by decide) (replica 2)).2

/-- Without one the version is the same for other voters, and the second grant of
replica 2 marks the ticket of replica 3 and not its own. -/
theorem cached_position_stale :
    threeVoters.version ≠ kInvalidIndex ∧
    (threeVoters.performAll ([.removeVoter (replica 1)].map .mutate)).voterSet ≠
      threeVoters.voterSet ∧
    (threeVoters.performAll ([.removeVoter (replica 1)].map .mutate)).version =
      threeVoters.version ∧
    (threeVoters.performAll ([.removeVoter (replica 1)].map .mutate)).containsVoter
      (replica 2) = true ∧
    ∃ first hint second final,
      (Ballot.construct threeVoters {}).grantWithUpdateHint (replica 2) {} = .ok (first, hint) ∧
      (Ballot.construct (threeVoters.performAll ([.removeVoter (replica 1)].map .mutate))
        {}).grantWithUpdateHint (replica 2) hint = .ok (second, final) ∧
      second.voters.map (fun ticket => (ticket.peer.index, ticket.voted)) =
        [(2, false), (3, true)] :=
  ⟨by decide, by decide, by decide, by decide, _, _, _, _, rfl, rfl, rfl⟩

end Configuration

end Traft.Raft
