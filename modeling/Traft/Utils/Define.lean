import Mathlib.Data.Int.Notation

/-!
# Constants, builds and faults

`std::int64_t` values are integers. Where the code could leave their range the
operation goes through `int64`, because signed overflow has no defined result.
-/

namespace Traft

/-- `kInvalidIndex`, the sentinel of indexes, terms, versions and offsets. -/
def kInvalidIndex : Int := -1

@[simp] theorem kInvalidIndex_eq : kInvalidIndex = -1 := rfl

/-- Whether assertions are compiled in. Under `NDEBUG` an assertion disappears
together with the effects of its argument. -/
inductive Build where
  | debug
  | release
deriving DecidableEq, Repr

/-- How an operation can end without returning. -/
inductive Fault where
  /-- A failed `assert`, which aborts the process. -/
  | assertionFailed
  /-- `std::length_error`, thrown to the caller. -/
  | lengthError
  /-- `std::bad_alloc`, thrown to the caller. -/
  | badAlloc
  /-- Undefined behaviour: an access outside a container. -/
  | outOfRange
  /-- Undefined behaviour: signed arithmetic beyond `std::int64_t`. -/
  | signedOverflow
deriving DecidableEq, Repr

/-- A fault the caller can catch, and go on. -/
def Fault.thrown : Fault → Bool
  | .lengthError | .badAlloc => true
  | .assertionFailed | .outOfRange | .signedOverflow => false

/-- `ErrorCode`. -/
inductive ErrorCode where
  | ok
  | nodeAppendLogFailed
  | nodeUnexpectedTerm
  | logIndexInvalid
deriving DecidableEq, Repr

/-- A value of `std::int64_t`. -/
def IsInt64 (value : Int) : Prop :=
  -9223372036854775808 ≤ value ∧ value ≤ 9223372036854775807

/-- The result of a signed 64-bit computation, when there is one. -/
def int64 (value : Int) : Except Fault Int :=
  if -9223372036854775808 ≤ value ∧ value ≤ 9223372036854775807 then
    .ok value
  else
    .error .signedOverflow

/-- Conversion of a signed 64-bit value to `std::size_t`. -/
def toSize (value : Int) : Nat := (value % 18446744073709551616).toNat

/-- Conversion of a `std::size_t` to a signed 64-bit value. -/
def toSigned (size : Nat) : Int :=
  if size < 9223372036854775808 then size else size - 18446744073709551616

/-- A sequence of fallible operations returns exactly when each of them does. -/
theorem bind_ok {ε α β : Type} {first : Except ε α} {next : α → Except ε β} {result : β} :
    (first >>= next) = .ok result ↔ ∃ value, first = .ok value ∧ next value = .ok result := by
  cases first with
  | error fault => simp [bind, Except.bind]
  | ok value => simp [bind, Except.bind]

/-- A sequence of fallible operations has a result when each of them has one. -/
theorem bind_returns {ε α β : Type} {first : Except ε α} {next : α → Except ε β} :
    (∃ result, (first >>= next) = .ok result) ↔
      ∃ value, first = .ok value ∧ ∃ result, next value = .ok result := by
  simp only [bind_ok]
  constructor
  · rintro ⟨result, value, returned, rest⟩
    exact ⟨value, returned, result, rest⟩
  · rintro ⟨value, returned, result, rest⟩
    exact ⟨result, value, returned, rest⟩

/-- A sequence of fallible operations fails in the first of them to fail. -/
theorem bind_error {ε α β : Type} {first : Except ε α} {next : α → Except ε β} {fault : ε} :
    (first >>= next) = .error fault ↔
      first = .error fault ∨ ∃ value, first = .ok value ∧ next value = .error fault := by
  cases first with
  | error fault => simp [bind, Except.bind]
  | ok value => simp [bind, Except.bind]

/-- An in-range computation returns its mathematical value. -/
theorem int64_ok {value result : Int} (computed : int64 value = .ok result) :
    result = value ∧ -9223372036854775808 ≤ value ∧ value ≤ 9223372036854775807 := by
  unfold int64 at computed
  split at computed
  · rename_i bounds
    cases computed
    exact ⟨rfl, bounds⟩
  · cases computed

/-- A computation only fails by overflow. -/
theorem int64_error {value : Int} {fault : Fault} (failed : int64 value = .error fault) :
    fault = .signedOverflow := by
  unfold int64 at failed
  split at failed <;> cases failed
  rfl

/-- A value in range is computed. -/
theorem int64_of_isInt64 {value : Int} (inRange : IsInt64 value) : int64 value = .ok value :=
  if_pos inRange

/-- Conversion keeps a value which is not negative. -/
theorem toSize_of_nonneg {value : Int} (nonneg : 0 ≤ value)
    (bound : value ≤ 9223372036854775807) : toSize value = value.toNat := by
  unfold toSize
  rw [Int.emod_eq_of_lt nonneg (by omega)]

/-- A size keeps its sign below half of the range. -/
theorem toSigned_nonneg {size : Nat} (sized : size < 18446744073709551616) :
    0 ≤ toSigned size ↔ size < 9223372036854775808 := by
  unfold toSigned
  split <;> omega

end Traft
