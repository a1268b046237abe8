import Mathlib.Algebra.Order.Ring.Int
import Mathlib.Algebra.Ring.Divisibility.Basic

/-!
# Numbers in a circular array

Things numbered in turn are kept in an array that begins again behind its end. A
position belongs to the numbers which differ from it by a `shift`, up to multiples
of the size. The position of a number can be told from that of any other one.
-/

namespace Traft.Semantics

/-- A position of a circular array is one for a number. -/
def Belongs (size : Nat) (shift : Int) (position : Nat) (number : Int) : Prop :=
  (size : Int) ∣ number - position - shift

namespace Belongs

variable {size : Nat} {shift : Int} {position other : Nat} {number : Int}

/-- A number has one position. -/
theorem unique (here : Belongs size shift position number)
    (there : Belongs size shift other number) (inside : position < size)
    (within : other < size) : position = other := by
  have apart : (size : Int) ∣ position - other := by
    have difference := Int.dvd_sub there here
    rwa [show number - other - shift - (number - position - shift) = position - other by omega]
      at difference
  have same := Int.eq_zero_of_dvd_of_natAbs_lt_natAbs apart (by omega)
  omega

/-- A number off by a multiple of the size belongs to the same position. -/
theorem of_dvd_sub {next : Int} (here : Belongs size shift position number)
    (apart : (size : Int) ∣ next - number) : Belongs size shift position next := by
  have sum := Int.dvd_add apart here
  rwa [show next - number + (number - position - shift) = next - position - shift by omega] at sum

/-- A smaller array whose size divides that of a larger one. -/
theorem coarser {smaller : Nat} (here : Belongs size shift position number)
    (divides : smaller ∣ size) : Belongs smaller shift position number :=
  (Int.natCast_dvd_natCast.mpr divides).trans here

/-- A position that is as far off as the number, up to multiples of the size. -/
theorem move {distance : Int} (here : Belongs size shift position number)
    (apart : (size : Int) ∣ other - position - distance) :
    Belongs size shift other (number + distance) := by
  have difference := Int.dvd_sub here apart
  rwa [show number - position - shift - (other - position - distance) =
    number + distance - other - shift by omega] at difference

/-- The next position is for the next number. -/
theorem succ (here : Belongs size shift position number) :
    Belongs size shift ((position + 1) % size) (number + 1) := by
  apply here.move
  refine ⟨-((position + 1) / size : Nat), ?_⟩
  have division := Nat.mod_add_div (position + 1) size
  rw [mul_neg, ← Nat.cast_mul]
  omega

/-- The position before is for the number before. -/
theorem pred (here : Belongs size shift position number) (inside : position < size) :
    Belongs size shift ((position + size - 1) % size) (number - 1) := by
  apply here.move
  refine ⟨1 - ((position + size - 1) / size : Nat), ?_⟩
  have division := Nat.mod_add_div (position + size - 1) size
  rw [mul_sub, mul_one, ← Nat.cast_mul]
  omega

/-- From one position, that of any other number. -/
theorem seek (here : Belongs size shift position number) (some : 0 < size) (distance : Int)
    {offset : Int} (apart : (size : Int) ∣ offset - distance) :
    Belongs size shift ((position + offset) % size).toNat (number + distance) := by
  apply here.move
  have nonneg := Int.emod_nonneg (position + offset) (Int.natCast_ne_zero.mpr some.ne')
  rw [Int.toNat_of_nonneg nonneg]
  have residue := Int.dvd_sub apart (Int.dvd_self_sub_emod (x := position + offset) (m := size))
  rwa [show offset - distance - (position + offset - (position + offset) % size) =
    (position + offset) % size - position - distance by omega] at residue

end Belongs

end Traft.Semantics
