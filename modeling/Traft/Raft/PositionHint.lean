import Traft.Raft.CommitRange
import Traft.Raft.Tally

/-!
# Whom a cached position credits

A ballot is credited when its marked tickets are those of the peers which
visited it. `VoterPositionHint.Guides` says when the positions cached for a
ballot's versions credit the peer that is about to visit it, and
`credited_grant_iff` that nothing less will do. `GuidesAll` threads the hint
through the ballots of one call.
-/

namespace Traft.Raft

/-- A ballot whose marked tickets belong to exactly the peers in `visitors`. -/
structure Ballot.Credited (ballot : Ballot) (visitors : List PeerId) : Prop where
  current : ∀ ticket ∈ ballot.voters,
    ticket.voted = true ↔ ticket.member ∈ memberSet visitors
  previous : ∀ ticket ∈ ballot.oldVoters,
    ticket.voted = true ↔ ticket.member ∈ memberSet visitors

instance (ballot : Ballot) (visitors : List PeerId) : Decidable (ballot.Credited visitors) :=
  decidable_of_iff
    ((∀ ticket ∈ ballot.voters, ticket.voted = true ↔ ticket.member ∈ memberSet visitors) ∧
      ∀ ticket ∈ ballot.oldVoters, ticket.voted = true ↔ ticket.member ∈ memberSet visitors)
    ⟨fun ⟨current, previous⟩ => ⟨current, previous⟩,
      fun credited => ⟨credited.current, credited.previous⟩⟩

/-- No two tickets of one half of a ballot belong to the same member. -/
structure Ballot.Distinct (ballot : Ballot) : Prop where
  current : (ballot.voters.map Ticket.member).Nodup
  previous : (ballot.oldVoters.map Ticket.member).Nodup

/-- The positions `hint` holds for the versions of `ballot` are `peer`'s own, or
lead to marked tickets when `peer`'s are marked too. The old half consults the
position of the current version when it has none of its own. -/
structure VoterPositionHint.Guides (hint : VoterPositionHint) (ballot : Ballot)
    (peer : PeerId) : Prop where
  current : hint.peerVersion = ballot.confVersion →
    Lands ballot.voters peer hint.voterOffset
  previous : ballot.oldVoters ≠ [] → hint.oldPeerVersion = ballot.oldConfVersion →
    Lands ballot.oldVoters peer hint.oldVoterOffset
  borrowed : ballot.oldVoters ≠ [] → hint.oldPeerVersion ≠ ballot.oldConfVersion →
    hint.peerVersion = ballot.oldConfVersion → Lands ballot.oldVoters peer hint.voterOffset

/-- The hint guides `peer` through a run of ballots, as each leaves it behind. -/
def VoterPositionHint.GuidesAll (peer : PeerId) (hint : VoterPositionHint) : List Ballot → Prop
  | [] => True
  | ballot :: rest => hint.Guides ballot peer ∧ GuidesAll peer (ballot.hintAfter peer hint) rest

namespace Ballot

variable {ballot ballot' : Ballot} {peer : PeerId} {hint hint' : VoterPositionHint}
  {visitors : List PeerId}

/-- Looking up the old half leaves the cached current position alone. -/
theorem hintAfterOld_voterOffset (ballot : Ballot) (peer : PeerId) (hint : VoterPositionHint) :
    (ballot.hintAfterOld peer hint).voterOffset = hint.voterOffset := by
  unfold hintAfterOld getOldVoterTicketWithUpdateHint
  dsimp only
  split_ifs <;> rfl

/-- A lookup in the current half lands unless a cached position misleads it. -/
theorem lands_iter_iff : Lands ballot.voters peer (ballot.iter peer hint) ↔
    (hint.peerVersion = ballot.confVersion → Lands ballot.voters peer hint.voterOffset) := by
  unfold iter getVoterTicketWithUpdateHint
  rw [hintAfterOld_peerVersion, hintAfterOld_voterOffset]
  by_cases cached : ballot.confVersion = hint.peerVersion
  · simp [cached]
  · rw [if_neg cached]
    refine iff_of_true ?_ fun same => absurd same.symm cached
    dsimp only
    split <;> exact .inl rfl

/-- A lookup in the old half lands unless a cached position misleads it. -/
theorem lands_oldIter_iff : Lands ballot.oldVoters peer (ballot.oldIter peer hint) ↔
    (hint.oldPeerVersion = ballot.oldConfVersion →
      Lands ballot.oldVoters peer hint.oldVoterOffset) ∧
    (hint.oldPeerVersion ≠ ballot.oldConfVersion → hint.peerVersion = ballot.oldConfVersion →
      Lands ballot.oldVoters peer hint.voterOffset) := by
  unfold oldIter getOldVoterTicketWithUpdateHint
  by_cases cached : ballot.oldConfVersion = hint.oldPeerVersion
  · simp [cached]
  · have differs : hint.oldPeerVersion ≠ ballot.oldConfVersion := Ne.symm cached
    rw [if_neg cached]
    by_cases borrowed : ballot.oldConfVersion = hint.peerVersion
    · simp [borrowed, borrowed ▸ differs]
    · rw [if_neg borrowed]
      refine iff_of_true ?_
        ⟨fun same => absurd same differs, fun _ same => absurd same.symm borrowed⟩
      dsimp only
      split <;> exact .inl rfl

/-- A hint guides a peer through a ballot when the lookups of both halves land. -/
theorem guides_iff : hint.Guides ballot peer ↔
    Lands ballot.voters peer (ballot.iter peer hint) ∧
      (ballot.oldVoters ≠ [] → Lands ballot.oldVoters peer (ballot.oldIter peer hint)) := by
  rw [lands_iter_iff, lands_oldIter_iff]
  constructor
  · intro guides
    exact ⟨guides.current, fun joint => ⟨guides.previous joint, guides.borrowed joint⟩⟩
  · rintro ⟨current, old⟩
    exact ⟨current, fun joint => (old joint).1, fun joint => (old joint).2⟩

/-- A visit adds the visiting member. -/
theorem memberSet_append (visitors : List PeerId) (peer : PeerId) :
    memberSet (visitors ++ [peer]) = insert peer.member (memberSet visitors) := by
  ext member
  simp [memberSet]

/-- A grant credits the peer that makes it exactly if the hint guides that peer. -/
theorem credited_grant_iff (distinct : ballot.Distinct) (credited : ballot.Credited visitors)
    (granted : ballot.grantWithUpdateHint peer hint = .ok (ballot', hint')) :
    ballot'.Credited (visitors ++ [peer]) ↔ hint.Guides ballot peer := by
  obtain ⟨_, _, _, cast, oldHalf⟩ := grantWithUpdateHint_ok.mp granted
  have current : (∀ ticket ∈ ballot'.voters,
        ticket.voted = true ↔ ticket.member ∈ insert peer.member (memberSet visitors)) ↔
      Lands ballot.voters peer (ballot.iter peer hint) :=
    castVote_marked_iff distinct.current credited.current cast
  have previous : (∀ ticket ∈ ballot'.oldVoters,
        ticket.voted = true ↔ ticket.member ∈ insert peer.member (memberSet visitors)) ↔
      (ballot.oldVoters ≠ [] → Lands ballot.oldVoters peer (ballot.oldIter peer hint)) := by
    rcases oldHalf.cases with ⟨simple, none, _⟩ | ⟨joint, oldCast⟩
    · refine iff_of_true ?_ fun joint => absurd simple joint
      simp [none]
    · rw [castVote_marked_iff distinct.previous credited.previous oldCast]
      exact ⟨fun lands _ => lands, fun lands => lands joint⟩
  rw [guides_iff, ← current, ← previous, ← memberSet_append]
  exact ⟨fun after => ⟨after.current, after.previous⟩, fun after => ⟨after.1, after.2⟩⟩

/-- The tickets of a new ballot belong to distinct members. -/
theorem distinct_construct (conf oldConf : Configuration) :
    (construct conf oldConf).Distinct :=
  ⟨(represents_construct conf oldConf).current.nodup,
    (represents_construct conf oldConf).previous.nodup⟩

/-- Nobody has visited a new ballot. -/
theorem credited_construct (conf oldConf : Configuration) :
    (construct conf oldConf).Credited [] :=
  ⟨(represents_construct conf oldConf).current.marked,
    (represents_construct conf oldConf).previous.marked⟩

/-- Whether tickets belong to distinct members is a matter of the paper. -/
theorem Distinct.of_paper (distinct : ballot.Distinct) (same : ballot'.paper = ballot.paper) :
    ballot'.Distinct := by
  have current : ballot'.voters.map Ticket.member = ballot.voters.map Ticket.member := by
    have peers := congrArg (fun paper => paper.voters.map PeerId.member) same
    rw [paper, paper, List.map_map, List.map_map] at peers
    exact peers
  have previous : ballot'.oldVoters.map Ticket.member = ballot.oldVoters.map Ticket.member := by
    have peers := congrArg (fun paper => paper.oldVoters.map PeerId.member) same
    rw [paper, paper, List.map_map, List.map_map] at peers
    exact peers
  exact ⟨current ▸ distinct.current, previous ▸ distinct.previous⟩

/-- Ballots with the papers of others have distinct tickets when those have. -/
theorem distinct_of_papers {ballots others : List Ballot}
    (same : ballots.map paper = others.map paper) (distinct : ∀ ballot ∈ others, ballot.Distinct) :
    ∀ ballot ∈ ballots, ballot.Distinct := by
  intro ballot present
  have kept : ballot.paper ∈ others.map paper := same ▸ List.mem_map_of_mem present
  obtain ⟨other, held, equal⟩ := List.mem_map.mp kept
  exact (distinct other held).of_paper equal.symm

end Ballot

/-- The grants of one call credit its peer exactly if the hint guides that peer
through all its ballots. -/
theorem credited_grantAll_iff {peer : PeerId} {hint final : VoterPositionHint}
    {ballots granted : List Ballot} {visitors : List (List PeerId)}
    (distinct : ∀ ballot ∈ ballots, ballot.Distinct)
    (credited : List.Forall₂ Ballot.Credited ballots visitors)
    (returned : grantAll peer hint ballots = .ok (granted, final)) :
    List.Forall₂ Ballot.Credited granted (visitors.map (· ++ [peer])) ↔
      hint.GuidesAll peer ballots := by
  induction credited generalizing hint granted with
  | nil =>
      cases returned
      exact iff_of_true .nil trivial
  | @cons ballot seen rest others first remaining inductionHypothesis =>
      obtain ⟨ballot', middle, rest', grant, grants, rfl⟩ := grantAll_cons.mp returned
      have next := inductionHypothesis
        (fun other present => distinct other (List.mem_cons_of_mem _ present)) grants
      obtain rfl : middle = ballot.hintAfter peer hint :=
        (Ballot.grantWithUpdateHint_ok.mp grant).1
      rw [List.map_cons, List.forall₂_cons, next, VoterPositionHint.GuidesAll,
        Ballot.credited_grant_iff (distinct ballot List.mem_cons_self) first grant]

end Traft.Raft
