import Traft.Raft.Tally

/-!
# Quorum intersection

Two ballots of neighbouring configurations cannot both be granted by disjoint
sets of voters. The configurations are those of one change of membership: the
same pair twice, a simple configuration beside a joint one it takes part in, or
two simple ones that differ by one `AddVoter` or `RemoveVoter`.
-/

namespace Traft.Raft

open Traft.Quorum

/-- The configuration pairs of two ballots around one membership change. -/
inductive Neighbours : Configuration × Configuration → Configuration × Configuration → Prop where
  | same (conf oldConf) : Neighbours (conf, oldConf) (conf, oldConf)
  | joining {conf none} (next) (simple : none.voterSize = 0) :
      Neighbours (conf, none) (next, conf)
  | leaving {conf none} (old) (simple : none.voterSize = 0) :
      Neighbours (conf, none) (conf, old)
  | added {conf none none'} (peer) (success : (conf.addVoter peer).1 = true)
      (simple : none.voterSize = 0) (stillSimple : none'.voterSize = 0) :
      Neighbours (conf, none) ((conf.addVoter peer).2, none')
  | removed {conf none none'} (peer) (success : (conf.removeVoter peer).1 = true)
      (simple : none.voterSize = 0) (stillSimple : none'.voterSize = 0) :
      Neighbours (conf, none) ((conf.removeVoter peer).2, none')

/-- A successful `RemoveVoter` is undone by inserting the member again. -/
theorem voterSet_eq_insert_removed {conf : Configuration} {peer : PeerId}
    (success : (conf.removeVoter peer).1 = true) :
    conf.voterSet = insert peer.member (conf.removeVoter peer).2.voterSet := by
  have present : peer.member ∈ conf.voterSet := Configuration.containsVoter_iff.mp success
  rw [Configuration.voterSet_removeVoter, Finset.insert_erase present]

/-- Neighbouring configurations have adjacent electorates, in one order or the
other. -/
theorem Neighbours.adjacent {first second : Configuration × Configuration}
    (neighbours : Neighbours first second) :
    Electorate.Adjacent (electorateOf first.1 first.2) (electorateOf second.1 second.2) ∨
      Electorate.Adjacent (electorateOf second.1 second.2) (electorateOf first.1 first.2) := by
  cases neighbours with
  | same conf oldConf => exact .inl (.current rfl)
  | joining next simple => exact .inl (.previous rfl)
  | leaving old simple => exact .inl (.current rfl)
  | added peer success => exact .inl (.grown _ (Configuration.voterSet_addVoter success))
  | removed peer success => exact .inr (.grown _ (voterSet_eq_insert_removed success))

/-- A member of a ballot's electorate is a voter of one of its configurations. -/
theorem mem_members_electorateOf {conf oldConf : Configuration} {peer : PeerId} :
    peer.member ∈ (electorateOf conf oldConf).members ↔
      conf.containsVoter peer = true ∨ oldConf.containsVoter peer = true := by
  rw [Electorate.members, Finset.mem_union, Configuration.containsVoter_iff,
    Configuration.containsVoter_iff]
  rfl

/-- A ballot granted by fresh grants of `grants` alone has a quorum among them. -/
theorem Ballot.quorate_of_grantEach {conf oldConf : Configuration} {grants : List PeerId}
    {ballot : Ballot} (versioned : conf.version ≠ kInvalidIndex)
    (oldVersioned : oldConf.version ≠ kInvalidIndex)
    (returned : (construct conf oldConf).grantEach grants = .ok ballot)
    (granted : ballot.isGranted = true) :
    (electorateOf conf oldConf).Quorate (memberSet grants) := by
  obtain ⟨version, oldVersion⟩ := construct_versions conf oldConf
  obtain ⟨final, reached, represents⟩ := (represents_construct conf oldConf).grantEach
    (version ▸ versioned) (oldVersion ▸ oldVersioned) grants
  obtain rfl : final = ballot := Except.ok.inj (reached.symm.trans returned)
  rw [Finset.empty_union] at represents
  exact represents.isGranted_iff.mp granted

/-- Two ballots of neighbouring configurations, each granted by its own list of
peers, were both acknowledged by one peer that votes in both. -/
theorem granted_ballots_intersect {first second : Configuration × Configuration}
    (neighbours : Neighbours first second ∨ Neighbours second first)
    (versioned : first.1.version ≠ kInvalidIndex ∧ first.2.version ≠ kInvalidIndex)
    (versioned' : second.1.version ≠ kInvalidIndex ∧ second.2.version ≠ kInvalidIndex)
    {grants others : List PeerId} {ballot other : Ballot}
    (returned : (Ballot.construct first.1 first.2).grantEach grants = .ok ballot)
    (granted : ballot.isGranted = true)
    (returned' : (Ballot.construct second.1 second.2).grantEach others = .ok other)
    (granted' : other.isGranted = true) :
    ∃ peer ∈ grants, ∃ same ∈ others, (peer == same) = true ∧
      (first.1.containsVoter peer = true ∨ first.2.containsVoter peer = true) ∧
      (second.1.containsVoter peer = true ∨ second.2.containsVoter peer = true) := by
  have quorum := Ballot.quorate_of_grantEach versioned.1 versioned.2 returned granted
  have quorum' := Ballot.quorate_of_grantEach versioned'.1 versioned'.2 returned' granted'
  have adjacent : Electorate.Adjacent (electorateOf first.1 first.2)
      (electorateOf second.1 second.2) ∨
      Electorate.Adjacent (electorateOf second.1 second.2) (electorateOf first.1 first.2) :=
    neighbours.elim Neighbours.adjacent fun swapped => swapped.adjacent.symm
  have common : ∃ member, member ∈ (electorateOf first.1 first.2).members ∧
      member ∈ (electorateOf second.1 second.2).members ∧
      member ∈ memberSet grants ∧ member ∈ memberSet others := by
    rcases adjacent with forward | backward
    · obtain ⟨member, both, acked, acked'⟩ := quorum.inter_of_adjacent forward quorum'
      exact ⟨member, (Finset.mem_inter.mp both).1, (Finset.mem_inter.mp both).2, acked, acked'⟩
    · obtain ⟨member, both, acked', acked⟩ := quorum'.inter_of_adjacent backward quorum
      exact ⟨member, (Finset.mem_inter.mp both).2, (Finset.mem_inter.mp both).1, acked, acked'⟩
  obtain ⟨member, voter, voter', acked, acked'⟩ := common
  obtain ⟨peer, present, rfl⟩ := mem_memberSet.mp acked
  obtain ⟨same, present', equal⟩ := mem_memberSet.mp acked'
  exact ⟨peer, present, same, present', PeerId.beq_iff_member.mpr equal.symm,
    mem_members_electorateOf.mp voter, mem_members_electorateOf.mp voter'⟩

/-- Three voters before and four after `AddVoter`: two acknowledgements of the
one ballot and three of the other share replica 2. -/
theorem granted_ballots_intersect_added :
    ∃ peer ∈ [replica 1, replica 2], ∃ same ∈ [replica 2, replica 3, replica 4],
      (peer == same) = true ∧
      ((Configuration.ofVoters 1 [replica 1, replica 2, replica 3]).containsVoter peer = true ∨
        ({} : Configuration).containsVoter peer = true) ∧
      (((Configuration.ofVoters 1 [replica 1, replica 2, replica 3]).addVoter
          (replica 4)).2.containsVoter peer = true ∨
        ({} : Configuration).containsVoter peer = true) :=
  @granted_ballots_intersect
    (Configuration.ofVoters 1 [replica 1, replica 2, replica 3], {})
    (((Configuration.ofVoters 1 [replica 1, replica 2, replica 3]).addVoter (replica 4)).2, {})
    (.inl (.added (replica 4) (by decide) (by decide) (by decide)))
    (by decide) (by decide) _ _ _ _ rfl (by decide) rfl (by decide)

end Traft.Raft
