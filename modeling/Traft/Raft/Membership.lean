import Traft.Raft.Configuration
import Traft.Quorum.Roster

/-!
# The life of a configuration

Every configuration is a default one on which operations were performed. Read as
sets of members, its voters and learners follow a `Roster` under the same
changes, and a roster keeps the two apart. What the tree sets hold is then
settled by their comparison reading the fields equality reads.
-/

namespace Traft.Raft

open Traft.Quorum

/-- Peers with the same index at the same endpoint, whatever their replica type. -/
def PeerId.Agrees (left right : PeerId) : Prop :=
  left.index = right.index ∧ left.endpoint = right.endpoint

/-- To agree is to be the same member. -/
theorem PeerId.agrees_iff_member {left right : PeerId} :
    left.Agrees right ↔ left.member = right.member :=
  Prod.mk_inj.symm

namespace Configuration

/-- The members that only follow. -/
def learnerSet (conf : Configuration) : Finset Member := members conf.learners

/-- `ContainsLearner` looks a peer up by its member. -/
theorem containsLearner_iff {conf : Configuration} {peer : PeerId} :
    conf.containsLearner peer = true ↔ peer.member ∈ conf.learnerSet :=
  contains_iff_mem_members

/-- The configuration a mutator of the membership leaves behind. -/
def mutate (conf : Configuration) : Change PeerId → Configuration
  | .addVoter peer => (conf.addVoter peer).2
  | .addLearner peer => (conf.addLearner peer).2
  | .removeVoter peer => (conf.removeVoter peer).2
  | .removeLearner peer => (conf.removeLearner peer).2
  | .reset => conf.reset

/-- An operation on a configuration. -/
inductive Operation where
  | mutate (change : Change PeerId)
  | setVersion (version : Int)

/-- The configuration after an operation. -/
def perform (conf : Configuration) : Operation → Configuration
  | .mutate change => conf.mutate change
  | .setVersion version => conf.setVersion version

/-- The configuration after some operations, performed in order. -/
def performAll (conf : Configuration) (operations : List Operation) : Configuration :=
  operations.foldl perform conf

/-- A configuration has the roles of a roster. -/
structure Enrolls (conf : Configuration) (roster : Roster Member) : Prop where
  voters : conf.voterSet = roster.voters
  learners : conf.learnerSet = roster.learners

/-- What `AddVoter` does to the voters, whether or not it succeeds. -/
theorem voterSet_after_addVoter (conf : Configuration) (peer : PeerId) :
    (conf.addVoter peer).2.voterSet =
      if peer.member ∈ conf.learnerSet then conf.voterSet
      else insert peer.member conf.voterSet := by
  by_cases learns : conf.containsLearner peer = true
  · rw [addVoter, if_pos learns, if_pos (containsLearner_iff.mp learns)]
  · rw [addVoter, if_neg learns, if_neg (containsLearner_iff.not.mp learns)]
    exact members_insert conf.voters peer

/-- What `AddLearner` does to the learners, whether or not it succeeds. -/
theorem learnerSet_after_addLearner (conf : Configuration) (peer : PeerId) :
    (conf.addLearner peer).2.learnerSet =
      if peer.member ∈ conf.voterSet then conf.learnerSet
      else insert peer.member conf.learnerSet := by
  by_cases votes : conf.containsVoter peer = true
  · rw [addLearner, if_pos votes, if_pos (containsVoter_iff.mp votes)]
  · rw [addLearner, if_neg votes, if_neg (containsVoter_iff.not.mp votes)]
    exact members_insert conf.learners peer

/-- `AddVoter` leaves the learners alone. -/
@[simp] theorem learners_addVoter (conf : Configuration) (peer : PeerId) :
    (conf.addVoter peer).2.learners = conf.learners := by
  unfold addVoter
  split <;> rfl

/-- `AddLearner` leaves the voters alone. -/
@[simp] theorem voters_addLearner (conf : Configuration) (peer : PeerId) :
    (conf.addLearner peer).2.voters = conf.voters := by
  unfold addLearner
  split <;> rfl

/-- A mutator changes a configuration as its members change a roster. -/
theorem Enrolls.mutate {conf : Configuration} {roster : Roster Member}
    (enrolls : conf.Enrolls roster) (change : Change PeerId) :
    (conf.mutate change).Enrolls (roster.apply (change.map PeerId.member)) := by
  obtain ⟨voters, learners⟩ := enrolls
  cases change with
  | addVoter peer =>
      constructor
      · exact (voterSet_after_addVoter conf peer).trans
          (by rw [voters, learners]; exact (roster.voters_addVoter peer.member).symm)
      · change members (conf.addVoter peer).2.learners = (roster.addVoter peer.member).learners
        rw [learners_addVoter, Roster.learners_addVoter]
        exact learners
  | addLearner peer =>
      constructor
      · change members (conf.addLearner peer).2.voters = (roster.addLearner peer.member).voters
        rw [voters_addLearner, Roster.voters_addLearner]
        exact voters
      · exact (learnerSet_after_addLearner conf peer).trans
          (by rw [voters, learners]; exact (roster.learners_addLearner peer.member).symm)
  | removeVoter peer =>
      exact ⟨(voterSet_removeVoter conf peer).trans (by rw [voters]; rfl), learners⟩
  | removeLearner peer =>
      exact ⟨voters, (members_erase conf.learners peer).trans
        (congrArg (·.erase peer.member) learners)⟩
  | reset =>
      exact ⟨rfl, rfl⟩

/-- What an operation asks of a roster. -/
def Operation.follow (roster : Roster Member) : Operation → Roster Member
  | .mutate change => roster.apply (change.map PeerId.member)
  | .setVersion _ => roster

/-- Operations change a configuration as their members change a roster. -/
theorem Enrolls.performAll {conf : Configuration} {roster : Roster Member}
    (enrolls : conf.Enrolls roster) (operations : List Operation) :
    (conf.performAll operations).Enrolls (operations.foldl Operation.follow roster) := by
  induction operations generalizing conf roster with
  | nil => exact enrolls
  | cons operation rest inductionHypothesis =>
      apply inductionHypothesis
      cases operation with
      | mutate change => exact enrolls.mutate change
      | setVersion version => exact ⟨enrolls.voters, enrolls.learners⟩

/-- Every configuration that can be built has the roles of a roster. -/
theorem enrolls_performAll (operations : List Operation) :
    (performAll {} operations).Enrolls (operations.foldl Operation.follow .empty) :=
  Enrolls.performAll ⟨rfl, rfl⟩ operations

/-- No member is a voter and a learner of a configuration that can be built. -/
theorem learner_not_voter {operations : List Operation} {peer : PeerId}
    (learns : (performAll {} operations).containsLearner peer = true) :
    (performAll {} operations).containsVoter peer = false := by
  have enrolls := enrolls_performAll operations
  rw [Bool.eq_false_iff, ne_eq, containsVoter_iff, enrolls.voters]
  apply Roster.not_mem_voters
  rw [← enrolls.learners]
  exact containsLearner_iff.mp learns

/-- A peer of a set agrees with `peer` exactly if the set contains `peer`. -/
theorem contains_iff_agrees {peers : Std.TreeSet PeerId} {peer : PeerId} :
    peers.contains peer = true ↔ ∃ held ∈ peers.toList, held.Agrees peer := by
  rw [contains_iff_mem_members, members, List.mem_toFinset, List.mem_map]
  simp only [PeerId.agrees_iff_member]

/-- No two peers of a set agree. -/
theorem pairwise_agrees (peers : Std.TreeSet PeerId) :
    peers.toList.Pairwise fun left right => ¬ left.Agrees right := by
  have distinct := members_nodup peers
  rw [List.Nodup, List.pairwise_map] at distinct
  exact distinct.imp fun differs agrees => differs (PeerId.agrees_iff_member.mp agrees)

/-- Each member of a configuration is listed once, as a voter or as a learner. -/
structure Sound (conf : Configuration) : Prop where
  voters : conf.voters.toList.Pairwise fun left right => ¬ left.Agrees right
  learners : conf.learners.toList.Pairwise fun left right => ¬ left.Agrees right
  apart : ∀ voter ∈ conf.voters.toList, ∀ learner ∈ conf.learners.toList,
    ¬ voter.Agrees learner

/-- Neither the voters nor the learners hold a peer that agrees with `peer`. -/
structure Unlisted (conf : Configuration) (peer : PeerId) : Prop where
  voters : ∀ voter ∈ conf.voters.toList, ¬ voter.Agrees peer
  learners : ∀ learner ∈ conf.learners.toList, ¬ learner.Agrees peer

/-- An addition succeeds exactly for an unlisted peer, and otherwise leaves the
configuration as it was. -/
structure Admits (conf : Configuration) (peer : PeerId) (added : Bool × Configuration) : Prop where
  succeeds : added.1 = true ↔ conf.Unlisted peer
  refuses : added.1 = false → added.2 = conf

/-- A peer is unlisted when neither lookup finds it. -/
theorem unlisted_iff {conf : Configuration} {peer : PeerId} :
    conf.Unlisted peer ↔ conf.containsVoter peer = false ∧ conf.containsLearner peer = false := by
  simp only [containsVoter, containsLearner, Bool.eq_false_iff, ne_eq, contains_iff_agrees,
    not_exists, not_and]
  exact ⟨fun unlisted => ⟨unlisted.voters, unlisted.learners⟩,
    fun ⟨voters, learners⟩ => ⟨voters, learners⟩⟩

/-- `AddVoter` admits unlisted peers alone. -/
theorem admits_addVoter (conf : Configuration) (peer : PeerId) :
    conf.Admits peer (conf.addVoter peer) := by
  unfold addVoter
  split
  · rename_i learns
    constructor
    · rw [unlisted_iff]
      simp [learns]
    · exact fun _ => rfl
  · rename_i other
    constructor
    · rw [unlisted_iff]
      simp [containsVoter, other]
    · intro present
      rw [insert_of_contains (by simpa using present)]

/-- `AddLearner` admits unlisted peers alone. -/
theorem admits_addLearner (conf : Configuration) (peer : PeerId) :
    conf.Admits peer (conf.addLearner peer) := by
  unfold addLearner
  split
  · rename_i votes
    constructor
    · rw [unlisted_iff]
      simp [votes]
    · exact fun _ => rfl
  · rename_i other
    constructor
    · rw [unlisted_iff]
      simp [containsLearner, other]
    · intro present
      rw [insert_of_contains (by simpa using present)]

/-- Whatever operations built a configuration, each of its members is listed
once, and both additions admit unlisted peers alone. -/
theorem sound_performAll (operations : List Operation) :
    (performAll {} operations).Sound ∧
      ∀ peer, (performAll {} operations).Admits peer ((performAll {} operations).addVoter peer) ∧
        (performAll {} operations).Admits peer ((performAll {} operations).addLearner peer) := by
  refine ⟨⟨pairwise_agrees _, pairwise_agrees _, ?_⟩,
    fun peer => ⟨admits_addVoter _ peer, admits_addLearner _ peer⟩⟩
  intro voter votes learner learns agrees
  have found : (performAll {} operations).containsLearner learner = true :=
    contains_iff_agrees.mpr ⟨learner, learns, rfl, rfl⟩
  have absent := learner_not_voter found
  rw [containsVoter, contains_iff_agrees.mpr ⟨voter, votes, agrees⟩] at absent
  cases absent

end Configuration

end Traft.Raft
