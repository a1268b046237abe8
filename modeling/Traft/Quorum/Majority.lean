import Mathlib.Data.Finset.Card

/-!
# Majorities and joint electorates

A majority of a finite set is at least half of it, rounded down, plus one. An
electorate asks for a majority of its current members and, while it has any,
of its previous members too. Two quorums of neighbouring electorates meet in a
member both of them count.
-/

namespace Traft.Quorum

variable {α : Type*} [DecidableEq α]

/-- At least `⌊n / 2⌋ + 1` of the `n` members are among the acknowledgements. -/
def Majority (members acks : Finset α) : Prop :=
  members.card / 2 + 1 ≤ (members ∩ acks).card

instance (members acks : Finset α) : Decidable (Majority members acks) :=
  inferInstanceAs (Decidable (_ ≤ _))

/-- Where no member is listed twice, the acknowledged members can be counted along
the list. -/
theorem card_inter_toFinset {β : Type*} {items : List β} {member : β → α}
    (nodup : (items.map member).Nodup) (acks : Finset α) :
    ((items.map member).toFinset ∩ acks).card =
      items.countP fun item => decide (member item ∈ acks) := by
  have counted : (items.map member).toFinset ∩ acks =
      ((items.filter fun item => decide (member item ∈ acks)).map member).toFinset := by
    ext one
    simp only [Finset.mem_inter, List.mem_toFinset, List.mem_map, List.mem_filter,
      decide_eq_true_eq]
    constructor
    · rintro ⟨⟨item, listed, rfl⟩, acked⟩
      exact ⟨item, ⟨listed, acked⟩, rfl⟩
    · rintro ⟨item, ⟨listed, acked⟩, rfl⟩
      exact ⟨⟨item, listed, rfl⟩, acked⟩
  have distinct : ((items.filter fun item => decide (member item ∈ acks)).map member).Nodup :=
    (List.filter_sublist.map member).nodup nodup
  rw [counted, List.toFinset_card_of_nodup distinct, List.length_map,
    List.countP_eq_length_filter]

/-- Counted members are acknowledged members. -/
theorem Majority.exists_mem {members acks : Finset α} (holds : Majority members acks) :
    ∃ member ∈ members, member ∈ acks := by
  have positive : 0 < (members ∩ acks).card := Nat.lt_of_lt_of_le (Nat.succ_pos _) holds
  obtain ⟨member, counted⟩ := Finset.card_pos.mp positive
  exact ⟨member, Finset.mem_inter.mp counted⟩

/-- Majorities of two sets meet once the sets together have fewer members than
the two majorities need. -/
theorem Majority.inter_of_card_union {first second acks others : Finset α}
    (left : Majority first acks) (right : Majority second others)
    (few : (first ∪ second).card < (first.card / 2 + 1) + (second.card / 2 + 1)) :
    ∃ member ∈ first ∩ second, member ∈ acks ∧ member ∈ others := by
  have counted : (first ∪ second).card < (first ∩ acks).card + (second ∩ others).card :=
    Nat.lt_of_lt_of_le few (Nat.add_le_add left right)
  have inLeft : first ∩ acks ⊆ first ∪ second :=
    Finset.inter_subset_left.trans Finset.subset_union_left
  have inRight : second ∩ others ⊆ first ∪ second :=
    Finset.inter_subset_left.trans Finset.subset_union_right
  obtain ⟨member, common⟩ :=
    Finset.inter_nonempty_of_card_lt_card_add_card inLeft inRight counted
  simp only [Finset.mem_inter] at common
  exact ⟨member, Finset.mem_inter.mpr ⟨common.1.1, common.2.1⟩, common.1.2, common.2.2⟩

/-- Two majorities of one set share a member. -/
theorem Majority.inter {members acks others : Finset α}
    (left : Majority members acks) (right : Majority members others) :
    ∃ member ∈ members, member ∈ acks ∧ member ∈ others := by
  have few : (members ∪ members).card <
      (members.card / 2 + 1) + (members.card / 2 + 1) := by
    rw [Finset.union_idempotent]
    omega
  simpa using left.inter_of_card_union right few

/-- Adding one member cannot separate a majority from an earlier one. -/
theorem Majority.inter_insert {members acks others : Finset α} {added : α}
    (left : Majority members acks) (right : Majority (insert added members) others) :
    ∃ member ∈ members, member ∈ acks ∧ member ∈ others := by
  have few : (members ∪ insert added members).card <
      (members.card / 2 + 1) + ((insert added members).card / 2 + 1) := by
    rw [Finset.union_eq_right.mpr (Finset.subset_insert added members)]
    have grown := Finset.card_insert_le added members
    omega
  obtain ⟨member, common, acked⟩ := left.inter_of_card_union right few
  exact ⟨member, (Finset.mem_inter.mp common).1, acked⟩

/-- The members whose votes are counted for one entry: those of the current
configuration and, during a change, those of the previous one. -/
structure Electorate (α : Type*) where
  current : Finset α
  previous : Finset α

namespace Electorate

/-- A joint quorum: a majority of each set the electorate has. -/
def Quorate (electorate : Electorate α) (acks : Finset α) : Prop :=
  Majority electorate.current acks ∧
    (electorate.previous.Nonempty → Majority electorate.previous acks)

instance (electorate : Electorate α) (acks : Finset α) : Decidable (electorate.Quorate acks) :=
  inferInstanceAs (Decidable (_ ∧ _))

/-- A member is anybody whose vote may count. -/
def members (electorate : Electorate α) : Finset α :=
  electorate.current ∪ electorate.previous

/-- Electorates that may follow each other: both have the same current members,
the one's current members are the other's previous ones, or one has a single
current member more. -/
inductive Adjacent : Electorate α → Electorate α → Prop where
  | current {left right} (same : left.current = right.current) : Adjacent left right
  | previous {left right} (same : left.current = right.previous) : Adjacent left right
  | grown {left right} (added : α) (same : right.current = insert added left.current) :
      Adjacent left right

/-- Quorums of adjacent electorates share a member of both. -/
theorem Quorate.inter_of_adjacent {left right : Electorate α} {acks others : Finset α}
    (adjacent : Adjacent left right) (first : left.Quorate acks)
    (second : right.Quorate others) :
    ∃ member ∈ left.members ∩ right.members, member ∈ acks ∧ member ∈ others := by
  cases adjacent with
  | current same =>
      obtain ⟨member, counted, acked⟩ := first.1.inter (same ▸ second.1)
      refine ⟨member, ?_, acked⟩
      simp [members, counted, ← same]
  | previous same =>
      obtain ⟨voter, counted, _⟩ := first.1.exists_mem
      have joint : right.previous.Nonempty := ⟨voter, same ▸ counted⟩
      obtain ⟨member, counted, acked⟩ := first.1.inter (same ▸ second.2 joint)
      refine ⟨member, ?_, acked⟩
      simp [members, counted, ← same]
  | grown added same =>
      obtain ⟨member, counted, acked⟩ := first.1.inter_insert (same ▸ second.1)
      refine ⟨member, ?_, acked⟩
      simp [members, counted, same]

end Electorate

end Traft.Quorum
