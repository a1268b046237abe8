import Mathlib.Logic.Function.Basic

/-!
# Reserved vector storage

A growable vector distinguishes the elements it has constructed (`size`) from
the storage it has obtained (`capacity`). `Reserved` keeps both, what has been
written to the storage, and every position an access touched, so that reading
back what was written and staying below `size` are separate questions. Whether
there is storage at all is up to an `Allocator`.
-/

namespace Traft.Memory

/-- An allocator, by the numbers of elements it has storage for. -/
structure Allocator where
  has : Nat → Bool

/-- An allocator that never runs out. -/
def Allocator.ample : Allocator := ⟨fun _ => true⟩

/-- The storage behind a vector, with the positions its accesses have touched. -/
structure Reserved (α : Type*) where
  capacity : Nat
  size : Nat
  cells : Nat → Option α
  touched : List Nat

namespace Reserved

variable {α : Type*}

/-- Fresh storage for `capacity` elements; reserving constructs none of them. -/
def reserve (capacity : Nat) : Reserved α where
  capacity := capacity
  size := 0
  cells _ := none
  touched := []

/-- Assign through a position of the storage. -/
def write (storage : Reserved α) (position : Nat) (value : α) : Option (Reserved α) :=
  if position < storage.capacity then
    some { storage with
      cells := Function.update storage.cells position (some value)
      touched := storage.touched ++ [position] }
  else
    none

/-- Read a position something has been written to. -/
def read (storage : Reserved α) (position : Nat) : Option (α × Reserved α) :=
  (storage.cells position).map fun value =>
    (value, { storage with touched := storage.touched ++ [position] })

/-- Assign consecutive positions through an advancing iterator. -/
def writeFrom (storage : Reserved α) (position : Nat) : List α → Option (Reserved α)
  | [] => some storage
  | value :: rest => do
      let written ← storage.write position value
      written.writeFrom (position + 1) rest

/-- Read `count` consecutive positions. -/
def readFrom (storage : Reserved α) (position : Nat) : Nat → Option (List α × Reserved α)
  | 0 => some ([], storage)
  | count + 1 => do
      let (value, storage) ← storage.read position
      let (rest, storage) ← storage.readFrom (position + 1) count
      return (value :: rest, storage)

/-- Every access so far stayed below the constructed size. -/
def WithinSize (storage : Reserved α) : Prop :=
  ∀ position ∈ storage.touched, position < storage.size

/-- Where nothing is constructed, any access at all is one too many. -/
theorem withinSize_iff_untouched {storage : Reserved α} (empty : storage.size = 0) :
    storage.WithinSize ↔ storage.touched = [] := by
  rw [WithinSize, empty, List.eq_nil_iff_forall_not_mem]
  exact forall_congr' fun position => imp_congr_right fun _ => by simp

/-- Writing a run that fits the capacity succeeds, fills exactly those cells and
touches exactly those positions. -/
theorem writeFrom_fits (storage : Reserved α) (position : Nat) (values : List α)
    (room : position + values.length ≤ storage.capacity) :
    ∃ written, storage.writeFrom position values = some written ∧
      written.size = storage.size ∧
      written.touched = storage.touched ++ List.range' position values.length ∧
      (∀ index, index < position → written.cells index = storage.cells index) ∧
      (∀ index, index < values.length →
        written.cells (position + index) = values[index]?) := by
  induction values generalizing storage position with
  | nil => exact ⟨storage, rfl, rfl, by simp, fun _ _ => rfl, by simp⟩
  | cons value rest inductionHypothesis =>
      simp only [List.length_cons] at room
      have inside : position < storage.capacity := by omega
      let first : Reserved α := { storage with
        cells := Function.update storage.cells position (some value)
        touched := storage.touched ++ [position] }
      have fits : position + 1 + rest.length ≤ first.capacity := by
        change position + 1 + rest.length ≤ storage.capacity
        omega
      obtain ⟨written, wrote, size, touched, below, filled⟩ :=
        inductionHypothesis first (position + 1) fits
      refine ⟨written, ?_, size, ?_, ?_, ?_⟩
      · simpa [writeFrom, write, inside] using wrote
      · simp [touched, first, List.range'_succ]
      · intro index earlier
        rw [below index (by omega)]
        exact Function.update_of_ne (by omega) _ _
      · intro index within
        cases index with
        | zero =>
            rw [Nat.add_zero, below position (by omega)]
            simp [first]
        | succ index =>
            have later := filled index (by simpa using within)
            rw [show position + (index + 1) = position + 1 + index by omega, later]
            simp

/-- Reading a run of written cells returns them in order. -/
theorem readFrom_written (storage : Reserved α) (position : Nat) (values : List α)
    (written : ∀ index, index < values.length →
      storage.cells (position + index) = values[index]?) :
    storage.readFrom position values.length =
      some (values, { storage with
        touched := storage.touched ++ List.range' position values.length }) := by
  induction values generalizing storage position with
  | nil => simp [readFrom]
  | cons value rest inductionHypothesis =>
      have head : storage.cells position = some value := by
        simpa using written 0 (by simp)
      have tail : ∀ index, index < rest.length →
          storage.cells (position + 1 + index) = rest[index]? := by
        intro index within
        have later := written (index + 1) (by simpa using within)
        rw [show position + (index + 1) = position + 1 + index by omega] at later
        simpa using later
      have remaining := inductionHypothesis
        { storage with touched := storage.touched ++ [position] } (position + 1) tail
      simp [readFrom, read, head, remaining, List.range'_succ]

/-- A run written to fresh storage reads back unchanged. Each position is
touched twice and the constructed size is still zero. -/
theorem reserve_write_read (capacity : Nat) (values : List α)
    (room : values.length ≤ capacity) :
    ∃ written final, (reserve capacity).writeFrom 0 values = some written ∧
      written.readFrom 0 values.length = some (values, final) ∧
      final.size = 0 ∧
      final.touched = List.range values.length ++ List.range values.length := by
  obtain ⟨written, wrote, size, touched, _, filled⟩ :=
    writeFrom_fits (reserve capacity) 0 values (by simpa [reserve] using room)
  refine ⟨written, _, wrote, readFrom_written written 0 values filled, size, ?_⟩
  simp [touched, reserve, List.range_eq_range']

end Reserved

end Traft.Memory
