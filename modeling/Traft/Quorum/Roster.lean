import Mathlib.Data.Finset.Disjoint
import Mathlib.Data.Finset.Erase

/-!
# Rosters

A roster splits its members into voters and learners. A member holds one of the
two roles at most, and a `Roster` cannot be built otherwise. Changes that would
give a member a second role are refused.
-/

namespace Traft.Quorum

/-- Members with one role each. -/
structure Roster (α : Type*) where
  voters : Finset α
  learners : Finset α
  apart : Disjoint voters learners

/-- A learner does not vote. -/
theorem Roster.not_mem_voters {α : Type*} {roster : Roster α} {member : α}
    (learns : member ∈ roster.learners) : member ∉ roster.voters :=
  Finset.disjoint_right.mp roster.apart learns

/-- What may be asked of a roster. -/
inductive Change (α : Type*) where
  | addVoter (member : α)
  | addLearner (member : α)
  | removeVoter (member : α)
  | removeLearner (member : α)
  | reset

/-- The same change asked under other names. -/
def Change.map {α β : Type*} (name : α → β) : Change α → Change β
  | .addVoter member => .addVoter (name member)
  | .addLearner member => .addLearner (name member)
  | .removeVoter member => .removeVoter (name member)
  | .removeLearner member => .removeLearner (name member)
  | .reset => .reset

namespace Roster

variable {α : Type*} [DecidableEq α]

/-- Nobody has a role. -/
def empty : Roster α := ⟨∅, ∅, Finset.disjoint_empty_left _⟩

/-- A new voter, unless the member is a learner. -/
def addVoter (roster : Roster α) (member : α) : Roster α :=
  if learns : member ∈ roster.learners then
    roster
  else
    { roster with
      voters := insert member roster.voters
      apart := Finset.disjoint_insert_left.mpr ⟨learns, roster.apart⟩ }

/-- A new learner, unless the member is a voter. -/
def addLearner (roster : Roster α) (member : α) : Roster α :=
  if votes : member ∈ roster.voters then
    roster
  else
    { roster with
      learners := insert member roster.learners
      apart := Finset.disjoint_insert_right.mpr ⟨votes, roster.apart⟩ }

/-- One voter less. -/
def removeVoter (roster : Roster α) (member : α) : Roster α :=
  { roster with
    voters := roster.voters.erase member
    apart := roster.apart.mono_left (Finset.erase_subset member roster.voters) }

/-- One learner less. -/
def removeLearner (roster : Roster α) (member : α) : Roster α :=
  { roster with
    learners := roster.learners.erase member
    apart := roster.apart.mono_right (Finset.erase_subset member roster.learners) }

/-- The roster after a change. -/
def apply (roster : Roster α) : Change α → Roster α
  | .addVoter member => roster.addVoter member
  | .addLearner member => roster.addLearner member
  | .removeVoter member => roster.removeVoter member
  | .removeLearner member => roster.removeLearner member
  | .reset => empty

/-- The voters after `addVoter`. -/
theorem voters_addVoter (roster : Roster α) (member : α) :
    (roster.addVoter member).voters =
      if member ∈ roster.learners then roster.voters else insert member roster.voters := by
  unfold addVoter
  split <;> rfl

/-- The learners after `addLearner`. -/
theorem learners_addLearner (roster : Roster α) (member : α) :
    (roster.addLearner member).learners =
      if member ∈ roster.voters then roster.learners else insert member roster.learners := by
  unfold addLearner
  split <;> rfl

/-- Adding a voter leaves the learners alone. -/
@[simp] theorem learners_addVoter (roster : Roster α) (member : α) :
    (roster.addVoter member).learners = roster.learners := by
  unfold addVoter
  split <;> rfl

/-- Adding a learner leaves the voters alone. -/
@[simp] theorem voters_addLearner (roster : Roster α) (member : α) :
    (roster.addLearner member).voters = roster.voters := by
  unfold addLearner
  split <;> rfl

end Roster

end Traft.Quorum
