import Traft.Raft.FreshGrant

/-!
# Positions kept for one peer

As long as a version stands for one set of voters, it stands for one position of a
peer among the tickets, since tickets are issued in the order of the set. A hint
that one peer threads through its grants then recalls what a search would find.
The mutators of a membership keep the version, so only `SetVersion` can make that
so again after a change.
-/

namespace Traft.Raft

namespace Configuration

/-- The members of the tickets of a configuration, in order. -/
def seats (conf : Configuration) : List Member := conf.voters.toList.map PeerId.member

/-- A peer of a member; comparisons of peers read no more of them. -/
def peerOf (member : Member) : PeerId := ⟨member.2, member.1, .default⟩

/-- Seats follow the order of the peers. -/
theorem seats_ordered (conf : Configuration) :
    conf.seats.Pairwise fun left right => compare (peerOf left) (peerOf right) = .lt := by
  rw [seats, List.pairwise_map]
  exact conf.voters.ordered_toList

/-- Configurations with the same voters seat them alike. -/
theorem seats_eq {conf other : Configuration} (same : conf.voterSet = other.voterSet) :
    conf.seats = other.seats := by
  have perm : conf.seats.Perm other.seats :=
    List.perm_of_nodup_nodup_toFinset_eq (members_nodup conf.voters)
      (members_nodup other.voters) same
  apply perm.eq_of_pairwise _ conf.seats_ordered other.seats_ordered
  intro left right _ _ before after
  exact absurd after (Std.OrientedCmp.not_lt_of_lt before)

/-- The position of a peer among the tickets of a configuration, or of `end()`. -/
def position (conf : Configuration) (peer : PeerId) : Nat :=
  findTicket (issueTickets conf.voters) peer

/-- Configurations with the same voters hold a peer at the same position. -/
theorem position_eq {conf other : Configuration} (same : conf.voterSet = other.voterSet)
    (peer : PeerId) : conf.position peer = other.position peer := by
  have seated : ∀ conf : Configuration, conf.position peer =
      conf.seats.findIdx fun member => peerOf member == peer := by
    intro conf
    rw [position, findTicket, issueTickets, seats, List.findIdx_map, List.findIdx_map]
    rfl
  rw [seated conf, seated other, seats_eq same]

end Configuration

/-- What a hint has cached are the positions that belong to its versions. -/
structure VoterPositionHint.Recalls (hint : VoterPositionHint) (positions : Int → Nat) :
    Prop where
  current : hint.peerVersion ≠ kInvalidIndex → hint.voterOffset = positions hint.peerVersion
  previous : hint.oldPeerVersion ≠ kInvalidIndex →
    hint.oldVoterOffset = positions hint.oldPeerVersion

namespace Ballot

/-- A ballot whose versions stand for the positions of a peer in it. -/
structure Places (ballot : Ballot) (peer : PeerId) (positions : Int → Nat) : Prop where
  versioned : ballot.confVersion ≠ kInvalidIndex
  oldVersioned : ballot.oldConfVersion ≠ kInvalidIndex
  current : findTicket ballot.voters peer = positions ballot.confVersion
  previous : ballot.oldVoters ≠ [] →
    findTicket ballot.oldVoters peer = positions ballot.oldConfVersion

variable {ballot : Ballot} {peer : PeerId} {hint : VoterPositionHint} {positions : Int → Nat}

/-- A hint that recalls the positions of a ballot leads its old half to the peer,
and goes on recalling them. -/
theorem Places.old (places : ballot.Places peer positions) (recalls : hint.Recalls positions)
    (joint : ballot.oldVoters ≠ []) :
    ballot.oldIter peer hint = findTicket ballot.oldVoters peer ∧
      (ballot.getOldVoterTicketWithUpdateHint peer hint).2.Recalls positions := by
  have placed := places.previous joint
  unfold oldIter getOldVoterTicketWithUpdateHint
  by_cases cached : ballot.oldConfVersion = hint.oldPeerVersion
  · rw [if_pos cached]
    refine ⟨?_, recalls⟩
    rw [recalls.previous (cached ▸ places.oldVersioned), placed, cached]
  rw [if_neg cached]
  by_cases borrowed : ballot.oldConfVersion = hint.peerVersion
  · rw [if_pos borrowed]
    have offset := recalls.current (borrowed ▸ places.oldVersioned)
    rw [← borrowed] at offset
    exact ⟨by rw [offset, placed], recalls.current, fun _ => offset⟩
  rw [if_neg borrowed]
  dsimp only
  split
  · exact ⟨rfl, recalls.current, fun _ => congrArg Nat.cast placed⟩
  · exact ⟨rfl, recalls⟩

/-- A hint that recalls the positions of a ballot leads its current half to the
peer, and goes on recalling them. -/
theorem Places.voter (places : ballot.Places peer positions) (recalls : hint.Recalls positions) :
    (ballot.getVoterTicketWithUpdateHint peer hint).1 = findTicket ballot.voters peer ∧
      (ballot.getVoterTicketWithUpdateHint peer hint).2.Recalls positions := by
  unfold getVoterTicketWithUpdateHint
  by_cases cached : ballot.confVersion = hint.peerVersion
  · rw [if_pos cached]
    refine ⟨?_, recalls⟩
    rw [recalls.current (cached ▸ places.versioned), places.current, cached]
  rw [if_neg cached]
  dsimp only
  split
  · exact ⟨rfl, fun _ => congrArg Nat.cast places.current, recalls.previous⟩
  · exact ⟨rfl, recalls⟩

/-- The old half of a grant keeps what the hint recalls. -/
theorem Places.afterOld (places : ballot.Places peer positions)
    (recalls : hint.Recalls positions) : (ballot.hintAfterOld peer hint).Recalls positions := by
  unfold hintAfterOld
  split
  · rename_i joint
    exact (places.old recalls (List.ne_nil_of_length_pos joint)).2
  · exact recalls

/-- An iterator which is no `end()` stands inside its vector. -/
def Inside (tickets : List Ticket) (iter : Int) : Prop :=
  iter ≠ tickets.length → 0 ≤ iter ∧ iter < tickets.length

/-- The iterators a grant dereferences stand inside their vectors. -/
structure ReadsInside (ballot : Ballot) (peer : PeerId) (hint : VoterPositionHint) : Prop where
  current : Inside ballot.voters (ballot.iter peer hint)
  previous : ballot.oldVoters ≠ [] → Inside ballot.oldVoters (ballot.oldIter peer hint)

/-- A search ends inside its vector or at `end()`. -/
theorem inside_findTicket (tickets : List Ticket) (peer : PeerId) :
    Inside tickets (findTicket tickets peer) := by
  intro found
  have atMost : findTicket tickets peer ≤ tickets.length := List.findIdx_le_length
  omega

/-- With a hint that recalls the positions of its ballot a grant credits the peer,
reads inside, and leaves a hint that goes on recalling them. -/
theorem Places.grant (places : ballot.Places peer positions) (recalls : hint.Recalls positions)
    (distinct : ballot.Distinct) :
    ballot.grantWithUpdateHint peer hint =
        .ok (ballot.credit peer, ballot.hintAfter peer hint) ∧
      ballot.ReadsInside peer hint ∧ (ballot.hintAfter peer hint).Recalls positions := by
  obtain ⟨found, recalled⟩ := places.voter (places.afterOld recalls)
  have current : ballot.iter peer hint = findTicket ballot.voters peer := found
  have previous : ballot.oldVoters ≠ [] →
      ballot.oldIter peer hint = findTicket ballot.oldVoters peer :=
    fun joint => (places.old recalls joint).1
  refine ⟨grant_eq_credit distinct current previous, ⟨?_, fun joint => ?_⟩, recalled⟩
  · rw [current]
    exact inside_findTicket ballot.voters peer
  · rw [previous joint]
    exact inside_findTicket ballot.oldVoters peer

end Ballot

/-- The grants of a peer on a run of ballots, threading one hint, read inside. -/
def VoterPositionHint.StaysInside (peer : PeerId) (hint : VoterPositionHint) :
    List Ballot → Prop
  | [] => True
  | ballot :: rest =>
      ballot.ReadsInside peer hint ∧ StaysInside peer (ballot.hintAfter peer hint) rest

/-- While versions stand for positions, threading one hint through a run of ballots
credits the peer on each. -/
theorem grantAll_of_recalls {peer : PeerId} {positions : Int → Nat} {hint : VoterPositionHint}
    {ballots : List Ballot} (distinct : ∀ ballot ∈ ballots, ballot.Distinct)
    (places : ∀ ballot ∈ ballots, ballot.Places peer positions)
    (recalls : hint.Recalls positions) :
    hint.StaysInside peer ballots ∧
      ∃ final, grantAll peer hint ballots = .ok (ballots.map (·.credit peer), final) := by
  induction ballots generalizing hint with
  | nil => exact ⟨trivial, hint, rfl⟩
  | cons ballot rest inductionHypothesis =>
      obtain ⟨granted, inside, recalled⟩ := (places ballot List.mem_cons_self).grant recalls
        (distinct ballot List.mem_cons_self)
      obtain ⟨others, final, grants⟩ := inductionHypothesis
        (fun other present => distinct other (List.mem_cons_of_mem _ present))
        (fun other present => places other (List.mem_cons_of_mem _ present)) recalled
      exact ⟨⟨inside, others⟩, final, grantAll_cons.mpr ⟨_, _, _, granted, grants, rfl⟩⟩

/-- The configurations of some pairs, current and old alike. -/
def configurations (pairs : List (Configuration × Configuration)) : List Configuration :=
  pairs.flatMap fun pair => [pair.1, pair.2]

/-- Equal versions mean equal voters, and no version is the sentinel. -/
structure Consistent (confs : List Configuration) : Prop where
  versioned : ∀ conf ∈ confs, conf.version ≠ kInvalidIndex
  voters : ∀ conf ∈ confs, ∀ other ∈ confs, conf.version = other.version →
    conf.voterSet = other.voterSet

/-- The position of a peer in the configuration of a version. -/
def positionsIn (confs : List Configuration) (peer : PeerId) (version : Int) : Nat :=
  match confs.find? (·.version = version) with
  | some conf => conf.position peer
  | none => 0

/-- Versions of consistent configurations stand for positions. -/
theorem Consistent.position_eq {confs : List Configuration} {conf : Configuration}
    (consistent : Consistent confs) (present : conf ∈ confs) (peer : PeerId) :
    conf.position peer = positionsIn confs peer conf.version := by
  unfold positionsIn
  split
  · rename_i other found
    have chosen := List.find?_some found
    have same : other.version = conf.version := of_decide_eq_true chosen
    exact conf.position_eq
      (consistent.voters conf present other (List.mem_of_find?_eq_some found) same.symm) peer
  · rename_i absent
    exact absurd (decide_eq_true rfl) (List.find?_eq_none.mp absent conf present)

/-- New ballots of consistent configurations have their peers where the versions
place them. -/
theorem Consistent.places {confs : List Configuration} {conf oldConf : Configuration}
    (consistent : Consistent confs) (present : conf ∈ confs) (oldPresent : oldConf ∈ confs)
    (peer : PeerId) :
    (Ballot.construct conf oldConf).Places peer (positionsIn confs peer) := by
  obtain ⟨version, oldVersion⟩ := Ballot.construct_versions conf oldConf
  obtain ⟨tickets, oldTickets⟩ := Ballot.construct_tickets conf oldConf
  constructor
  · exact version ▸ consistent.versioned conf present
  · exact oldVersion ▸ consistent.versioned oldConf oldPresent
  · rw [tickets, version]
    exact consistent.position_eq present peer
  · intro _
    rw [oldTickets, oldVersion]
    exact consistent.position_eq oldPresent peer

/-- For one peer the hint changes nothing: threaded from the default through the
ballots of consistent configurations, it leaves each as a fresh hint would, and
never leads outside a vector. -/
theorem grantAll_eq_fresh (peer : PeerId) {pairs : List (Configuration × Configuration)}
    (consistent : Consistent (configurations pairs)) :
    (∃ ballots final,
      grantAll peer {} (pairs.map fun pair => Ballot.construct pair.1 pair.2) =
        .ok (ballots, final) ∧
      List.Forall₂ (fun pair ballot => ∃ hint,
        (Ballot.construct pair.1 pair.2).grantWithUpdateHint peer {} = .ok (ballot, hint))
        pairs ballots) ∧
      ({} : VoterPositionHint).StaysInside peer
        (pairs.map fun pair => Ballot.construct pair.1 pair.2) := by
  have present : ∀ pair ∈ pairs, pair.1 ∈ configurations pairs ∧ pair.2 ∈ configurations pairs :=
    fun pair listed =>
      ⟨List.mem_flatMap.mpr ⟨pair, listed, List.mem_cons_self⟩,
        List.mem_flatMap.mpr ⟨pair, listed, List.mem_cons_of_mem _ List.mem_cons_self⟩⟩
  have places : ∀ pair ∈ pairs, (Ballot.construct pair.1 pair.2).Places peer
      (positionsIn (configurations pairs) peer) := fun pair listed =>
    consistent.places (present pair listed).1 (present pair listed).2 peer
  have recalls : ({} : VoterPositionHint).Recalls (positionsIn (configurations pairs) peer) :=
    ⟨fun cached => absurd rfl cached, fun cached => absurd rfl cached⟩
  have fits : ∀ ballot ∈ pairs.map fun pair => Ballot.construct pair.1 pair.2,
      ballot.Distinct ∧ ballot.Places peer (positionsIn (configurations pairs) peer) := by
    intro ballot listed
    obtain ⟨pair, held, rfl⟩ := List.mem_map.mp listed
    exact ⟨Ballot.distinct_construct pair.1 pair.2, places pair held⟩
  obtain ⟨inside, final, granted⟩ := grantAll_of_recalls (fun ballot listed =>
    (fits ballot listed).1) (fun ballot listed => (fits ballot listed).2) recalls
  refine ⟨⟨_, final, granted, ?_⟩, inside⟩
  rw [List.map_map, List.forall₂_map_right_iff, List.forall₂_same]
  intro pair listed
  exact ⟨_, Ballot.grant_fresh peer (Ballot.distinct_construct pair.1 pair.2)
    (places pair listed).versioned (places pair listed).oldVersioned⟩

/-- A change from replicas 1 and 2 to replicas 2 and 3, through a joint ballot and
back. Replica 2 moves from one position to the other. -/
def roundTrip : List (Configuration × Configuration) :=
  [(.ofVoters 1 [replica 1, replica 2], {}),
    (.ofVoters 2 [replica 2, replica 3], .ofVoters 1 [replica 1, replica 2]),
    (.ofVoters 1 [replica 1, replica 2], .ofVoters 2 [replica 2, replica 3])]

/-- The hint of replica 2 changes nothing there. -/
theorem grantAll_eq_fresh_roundTrip :
    (∃ ballots final,
      grantAll (replica 2) {} (roundTrip.map fun pair => Ballot.construct pair.1 pair.2) =
        .ok (ballots, final) ∧
      List.Forall₂ (fun pair ballot => ∃ hint,
        (Ballot.construct pair.1 pair.2).grantWithUpdateHint (replica 2) {} = .ok (ballot, hint))
        roundTrip ballots) ∧
      ({} : VoterPositionHint).StaysInside (replica 2)
        (roundTrip.map fun pair => Ballot.construct pair.1 pair.2) :=
  grantAll_eq_fresh (replica 2) ⟨by decide, by decide⟩

end Traft.Raft
