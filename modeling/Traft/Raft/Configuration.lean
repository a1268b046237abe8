import Traft.Raft.Identity
import Mathlib.Data.Finset.Card

/-!
# Configurations

`std::set<PeerId>` is the tree set over `PeerId::operator<=>`, and `members` is
what it holds. A configuration is used by ballots as a set of members,
`Configuration.voterSet`; the lemmas here say how the mutators move that set.
-/

namespace Traft.Raft

/-- The members of a set of peers. -/
def members (peers : Std.TreeSet PeerId) : Finset Member :=
  (peers.toList.map PeerId.member).toFinset

/-- A set keeps one peer of each member. -/
theorem members_nodup (peers : Std.TreeSet PeerId) :
    (peers.toList.map PeerId.member).Nodup := by
  have distinct := Std.TreeSet.distinct_toList (t := peers)
  rw [List.Nodup, List.pairwise_map]
  exact distinct.imp fun differs same => differs (PeerId.compare_eq_iff_member.mpr same)

/-- A set looks a peer up by its member. -/
theorem contains_iff_mem_members {peers : Std.TreeSet PeerId} {peer : PeerId} :
    peers.contains peer = true ↔ peer.member ∈ members peers := by
  rw [← Std.TreeSet.contains_toList, List.contains_iff_exists_mem_beq]
  simp only [members, List.mem_toFinset, List.mem_map, PeerId.beq_iff_member]
  exact exists_congr fun voter => and_congr_right fun _ => eq_comm

/-- Sets with the same members answer alike, so it is enough to ask for peers. -/
theorem members_ext {first second : Finset Member}
    (same : ∀ peer : PeerId, peer.member ∈ first ↔ peer.member ∈ second) : first = second := by
  ext ⟨index, endpoint⟩
  exact same ⟨endpoint, index, .default⟩

/-- Inserting a peer adds its member. -/
theorem members_insert (peers : Std.TreeSet PeerId) (peer : PeerId) :
    members (peers.insert peer) = insert peer.member (members peers) := by
  refine members_ext fun other => ?_
  rw [Finset.mem_insert, ← contains_iff_mem_members, ← contains_iff_mem_members,
    Std.TreeSet.contains_insert, Bool.or_eq_true, beq_iff_eq, PeerId.compare_eq_iff_member,
    eq_comm]

/-- Erasing a peer removes its member. -/
theorem members_erase (peers : Std.TreeSet PeerId) (peer : PeerId) :
    members (peers.erase peer) = (members peers).erase peer.member := by
  refine members_ext fun other => ?_
  rw [Finset.mem_erase, ← contains_iff_mem_members, ← contains_iff_mem_members,
    Std.TreeSet.contains_erase, Bool.and_eq_true, bne_iff_ne, ne_eq,
    PeerId.compare_eq_iff_member, eq_comm]

/-- Inserting a peer whose member is there leaves the set as it was, with the
replica type it held. -/
theorem insert_of_contains {peers : Std.TreeSet PeerId} {peer : PeerId}
    (present : peers.contains peer = true) : peers.insert peer = peers := by
  obtain ⟨⟨⟨tree, wf⟩⟩⟩ := peers
  have found : tree.contains peer = true := present
  have kept : (tree.insertIfNew peer () wf.balanced).impl = tree := by
    rw [Std.DTreeMap.Internal.Impl.insertIfNew, if_pos found]
  simp only [Std.TreeSet.insert, Std.TreeMap.insertIfNew, Std.DTreeMap.insertIfNew, kept]

/-- `Configuration`. -/
structure Configuration where
  version : Int := 0
  voters : Std.TreeSet PeerId := ∅
  learners : Std.TreeSet PeerId := ∅

namespace Configuration

/-- `Reset`. -/
def reset (conf : Configuration) : Configuration :=
  { conf with voters := ∅, learners := ∅ }

def isEmpty (conf : Configuration) : Bool := conf.voters.isEmpty && conf.learners.isEmpty

def voterSize (conf : Configuration) : Nat := conf.voters.size

def setVersion (conf : Configuration) (version : Int) : Configuration :=
  { conf with version }

def containsVoter (conf : Configuration) (peer : PeerId) : Bool := conf.voters.contains peer

def containsLearner (conf : Configuration) (peer : PeerId) : Bool := conf.learners.contains peer

/-- `AddVoter`: whether the voter was inserted, and the configuration after. -/
def addVoter (conf : Configuration) (peer : PeerId) : Bool × Configuration :=
  if conf.containsLearner peer then
    (false, conf)
  else
    (!conf.voters.contains peer, { conf with voters := conf.voters.insert peer })

/-- `AddLearner`. -/
def addLearner (conf : Configuration) (peer : PeerId) : Bool × Configuration :=
  if conf.containsVoter peer then
    (false, conf)
  else
    (!conf.learners.contains peer, { conf with learners := conf.learners.insert peer })

/-- `RemoveVoter`. -/
def removeVoter (conf : Configuration) (peer : PeerId) : Bool × Configuration :=
  (conf.voters.contains peer, { conf with voters := conf.voters.erase peer })

/-- `RemoveLearner`. -/
def removeLearner (conf : Configuration) (peer : PeerId) : Bool × Configuration :=
  (conf.learners.contains peer, { conf with learners := conf.learners.erase peer })

/-- The configuration of a version whose voters were added one by one. -/
def ofVoters (version : Int) (peers : List PeerId) : Configuration :=
  peers.foldl (fun conf peer => (conf.addVoter peer).2) { version }

/-- The members a ballot of this configuration counts. -/
def voterSet (conf : Configuration) : Finset Member :=
  (conf.voters.toList.map PeerId.member).toFinset

/-- `ContainsVoter` looks a peer up by its member. -/
theorem containsVoter_iff {conf : Configuration} {peer : PeerId} :
    conf.containsVoter peer = true ↔ peer.member ∈ conf.voterSet :=
  contains_iff_mem_members

/-- Members are counted by `VoterSize`. -/
theorem card_voterSet (conf : Configuration) : conf.voterSet.card = conf.voterSize := by
  rw [voterSet, List.toFinset_card_of_nodup (members_nodup conf.voters), List.length_map,
    Std.TreeSet.length_toList, voterSize]

/-- A successful `AddVoter` adds exactly the peer's member. -/
theorem voterSet_addVoter {conf : Configuration} {peer : PeerId}
    (added : (conf.addVoter peer).1 = true) :
    (conf.addVoter peer).2.voterSet = insert peer.member conf.voterSet := by
  have inserted : (conf.addVoter peer).2.voters = conf.voters.insert peer := by
    unfold addVoter at added ⊢
    split at added
    · cases added
    · rename_i other
      simp [other]
  rw [voterSet, inserted]
  exact members_insert conf.voters peer

/-- `RemoveVoter` removes exactly the peer's member. -/
theorem voterSet_removeVoter (conf : Configuration) (peer : PeerId) :
    (conf.removeVoter peer).2.voterSet = conf.voterSet.erase peer.member :=
  members_erase conf.voters peer

end Configuration

/-- `ConfigurationCtx`: the configurations in force, the old one during a change. -/
structure ConfigurationCtx where
  conf : Configuration := {}
  oldConf : Configuration := {}

end Traft.Raft
