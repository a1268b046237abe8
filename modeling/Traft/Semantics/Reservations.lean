import Mathlib.Data.List.Basic

/-!
# Optimistic reservations

A reservation is made by adding to a shared count, before it is known whether
there is anything left to reserve, and is granted in part when that is known. What
is not granted is given back on a second count. A thread learns how far it may go
from an old value of that second count, which is its credit. However late the
answers come, no more is granted than there is.
-/

namespace Traft.Semantics

variable {Owner : Type}

/-- A reservation, with the part of it that was granted once that is known. -/
structure Reservation (Owner : Type) where
  owner : Owner
  count : Nat
  credit : Nat
  granted : Option Nat

namespace Reservation

/-- What was granted of a reservation. -/
def passed (reservation : Reservation Owner) : Nat := reservation.granted.getD 0

/-- What is known not to be granted. -/
def refused (reservation : Reservation Owner) : Nat :=
  (reservation.granted.map (reservation.count - ·)).getD 0

end Reservation

/-- A measure of all reservations together. -/
def sumOf (measure : Reservation Owner → Nat) : List (Reservation Owner) → Nat
  | [] => 0
  | reservation :: others => measure reservation + sumOf measure others

/-- Reservations made later come behind. -/
theorem sumOf_append (measure : Reservation Owner → Nat) (made later : List (Reservation Owner)) :
    sumOf measure (made ++ later) = sumOf measure made + sumOf measure later := by
  induction made with
  | nil => exact (Nat.zero_add _).symm
  | cons reservation made inductionHypothesis =>
      rw [List.cons_append, sumOf, sumOf, inductionHypothesis, Nat.add_assoc]

/-- Below `bound`, each reservation is credited only with what was refused before
it, and what was granted of it is within the bound for its place; `made` and
`refused` are the counts before the first. -/
def Sound (bound : Nat) : Nat → Nat → List (Reservation Owner) → Prop
  | _, _, [] => True
  | made, refused, reservation :: later =>
      reservation.credit ≤ refused ∧
        (∀ granted, reservation.granted = some granted → granted ≤ reservation.count ∧
          (0 < granted → made + granted ≤ bound + reservation.credit)) ∧
        Sound bound (made + reservation.count) (refused + reservation.refused) later

namespace Sound

variable {bound made refused : Nat} {reservations : List (Reservation Owner)}

/-- More refusals and a higher bound do no harm. -/
theorem mono (sound : Sound bound made refused reservations) {higher more : Nat}
    (above : bound ≤ higher) (further : refused ≤ more) :
    Sound higher made more reservations := by
  induction reservations generalizing made refused more with
  | nil => trivial
  | cons reservation later inductionHypothesis =>
      obtain ⟨credit, granted, rest⟩ := sound
      refine ⟨Nat.le_trans credit further, ?_, inductionHypothesis rest (by omega)⟩
      intro count known
      obtain ⟨part, within⟩ := granted count known
      exact ⟨part, fun positive => Nat.le_trans (within positive) (by omega)⟩

/-- No more is granted than the bound. -/
theorem passed_le (sound : Sound bound made refused reservations) {passed : Nat}
    (covered : passed + refused ≤ made) (below : passed ≤ bound) :
    passed + sumOf Reservation.passed reservations ≤ bound := by
  induction reservations generalizing made refused passed with
  | nil => exact below
  | cons reservation later inductionHypothesis =>
      obtain ⟨credit, granted, rest⟩ := sound
      rw [sumOf, ← Nat.add_assoc]
      cases known : reservation.granted with
      | none =>
          have passes : reservation.passed = 0 := by rw [Reservation.passed, known]; rfl
          have refuses : reservation.refused = 0 := by rw [Reservation.refused, known]; rfl
          rw [passes]
          exact inductionHypothesis rest (by omega) below
      | some count =>
          have passes : reservation.passed = count := by rw [Reservation.passed, known]; rfl
          have refuses : reservation.refused = reservation.count - count := by
            rw [Reservation.refused, known]; rfl
          obtain ⟨part, within⟩ := granted count known
          rw [passes]
          refine inductionHypothesis rest (by omega) ?_
          rcases Nat.eq_zero_or_pos count with rfl | positive
          · exact below
          · have enough := within positive
            omega

/-- No more is granted than was reserved. -/
theorem passed_le_count (sound : Sound bound made refused reservations) :
    sumOf Reservation.passed reservations ≤ sumOf Reservation.count reservations := by
  induction reservations generalizing made refused with
  | nil => exact Nat.le_refl 0
  | cons reservation later inductionHypothesis =>
      obtain ⟨_, granted, rest⟩ := sound
      refine Nat.add_le_add ?_ (inductionHypothesis rest)
      cases known : reservation.granted with
      | none =>
          rw [Reservation.passed, known]
          exact Nat.zero_le reservation.count
      | some count =>
          rw [Reservation.passed, known]
          exact (granted count known).1

/-- A new reservation is sound with a credit that was refused before it. -/
theorem reserve (sound : Sound bound made refused reservations) {reservation : Reservation Owner}
    (credit : reservation.credit ≤ refused + sumOf Reservation.refused reservations)
    (pending : reservation.granted = none) :
    Sound bound made refused (reservations ++ [reservation]) := by
  induction reservations generalizing made refused with
  | nil =>
      refine ⟨credit, ?_, trivial⟩
      intro granted known
      rw [pending] at known
      cases known
  | cons first later inductionHypothesis =>
      obtain ⟨credit', granted, rest⟩ := sound
      refine ⟨credit', granted, inductionHypothesis rest ?_⟩
      rwa [sumOf, ← Nat.add_assoc] at credit

/-- Granting a reservation what is within the bound for its place is sound. -/
theorem grant {before after : List (Reservation Owner)} {reservation : Reservation Owner}
    (sound : Sound bound made refused (before ++ reservation :: after))
    (pending : reservation.granted = none) {count : Nat} (part : count ≤ reservation.count)
    (within : 0 < count → made + sumOf Reservation.count before + count ≤
      bound + reservation.credit) :
    Sound bound made refused (before ++ { reservation with granted := some count } :: after) := by
  induction before generalizing made refused with
  | nil =>
      obtain ⟨credit, _, rest⟩ := sound
      refine ⟨credit, ?_, rest.mono (Nat.le_refl bound) ?_⟩
      · rintro _ ⟨⟩
        exact ⟨part, within⟩
      · rw [Reservation.refused, pending]
        exact Nat.add_le_add_left (Nat.zero_le _) refused
  | cons first before inductionHypothesis =>
      obtain ⟨credit, granted, rest⟩ := sound
      refine ⟨credit, granted, inductionHypothesis rest ?_⟩
      rwa [sumOf, ← Nat.add_assoc] at within

end Sound

/-- `owner` waits for the answer to a reservation of `count` with `credit`, before
which `made` were reserved. -/
def Pending (reservations : List (Reservation Owner)) (owner : Owner)
    (count credit made : Nat) : Prop :=
  ∃ before after, reservations = before ++ ⟨owner, count, credit, none⟩ :: after ∧
    sumOf Reservation.count before = made

namespace Pending

variable {reservations : List (Reservation Owner)} {owner : Owner} {count credit made : Nat}

/-- A reservation that was just made is pending. -/
theorem new (reservations : List (Reservation Owner)) (owner : Owner) (count credit : Nat) :
    Pending (reservations ++ [⟨owner, count, credit, none⟩]) owner count credit
      (sumOf Reservation.count reservations) :=
  ⟨reservations, [], rfl, rfl⟩

/-- What it reserves is counted. -/
theorem made_le (pending : Pending reservations owner count credit made) :
    made + count ≤ sumOf Reservation.count reservations := by
  obtain ⟨before, after, rfl, rfl⟩ := pending
  rw [sumOf_append, sumOf]
  exact Nat.add_le_add_left (Nat.le_add_right ..) _

/-- It stays so while others are made. -/
theorem append (pending : Pending reservations owner count credit made)
    (reservation : Reservation Owner) :
    Pending (reservations ++ [reservation]) owner count credit made := by
  obtain ⟨before, after, rfl, rfl⟩ := pending
  exact ⟨before, after ++ [reservation], by rw [List.append_assoc, List.cons_append], rfl⟩

/-- It stays so while a reservation of another owner is answered. -/
theorem answered {before after : List (Reservation Owner)} {other : Reservation Owner}
    (pending : Pending (before ++ other :: after) owner count credit made)
    (distinct : owner ≠ other.owner) (granted : Option Nat) :
    Pending (before ++ { other with granted } :: after) owner count credit made := by
  obtain ⟨front, back, whole, rfl⟩ := pending
  rcases List.append_eq_append_iff.mp whole with ⟨middle, rfl, rest⟩ | ⟨middle, rfl, rest⟩
  · -- the answered reservation comes first
    cases middle with
    | nil =>
        obtain ⟨rfl, _⟩ := List.cons.inj rest
        exact absurd rfl distinct
    | cons first middle =>
        obtain ⟨rfl, rfl⟩ := List.cons.inj rest
        refine ⟨before ++ { other with granted } :: middle, back, ?_, ?_⟩
        · rw [List.append_assoc, List.cons_append]
          rfl
        · rw [sumOf_append, sumOf_append]
          rfl
  · -- the answered reservation comes behind
    cases middle with
    | nil =>
        obtain ⟨rfl, _⟩ := List.cons.inj rest
        exact absurd rfl distinct
    | cons first middle =>
        obtain ⟨rfl, rfl⟩ := List.cons.inj rest
        refine ⟨front, middle ++ { other with granted } :: after, ?_, rfl⟩
        rw [List.append_assoc, List.cons_append]

/-- Answering a pending reservation with a part that is within the bound for its
place is sound, and changes the sums by that part and by the rest. -/
theorem grant {bound granted : Nat} (pending : Pending reservations owner count credit made)
    (sound : Sound bound 0 0 reservations) (part : granted ≤ count)
    (within : 0 < granted → made + granted ≤ bound + credit) :
    ∃ answered : List (Reservation Owner), Sound bound 0 0 answered ∧
      sumOf Reservation.count answered = sumOf Reservation.count reservations ∧
      sumOf Reservation.passed answered = sumOf Reservation.passed reservations + granted ∧
      sumOf Reservation.refused answered =
        sumOf Reservation.refused reservations + (count - granted) ∧
      ∀ {other count credit made}, other ≠ owner →
        Pending reservations other count credit made →
          Pending answered other count credit made := by
  obtain ⟨before, after, rfl, rfl⟩ := pending
  refine ⟨before ++ ⟨owner, count, credit, some granted⟩ :: after, ?_, ?_, ?_, ?_, ?_⟩
  · exact sound.grant rfl part (by rwa [Nat.zero_add])
  · rw [sumOf_append, sumOf_append]
    rfl
  · simp only [sumOf_append, sumOf, Reservation.passed, Option.getD_some, Option.getD_none]
    omega
  · simp only [sumOf_append, sumOf, Reservation.refused, Option.map_some, Option.map_none,
      Option.getD_some, Option.getD_none]
    omega
  · intro other _ _ _ distinct pending
    exact pending.answered distinct (some granted)

end Pending

end Traft.Semantics
