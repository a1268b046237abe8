import Traft.Utils.Define
import Traft.Semantics.Program

/-!
# The dequeuing methods of the queue wrapper

`ConcurrentQueueV1` takes the result of one call from up to three requests to the
queue it wraps, and other threads may act between them. `filling` is what makes
the parts one: a call writes behind what it has written already, never asks for
more than the rest of its budget, and returns the number of elements it got.
-/

namespace Traft.ConcurrentQueueV1

open Traft.Semantics

/-- The requests to the wrapped queue, with the position of their iterator. A timeout
is what the wrapped queue makes of it: the count after its `duration_cast` to
microseconds, negative for an indefinite one. -/
inductive Request where
  | tryDequeueBulk (it maxSize : Nat)
  | waitDequeueTimed (it : Nat) (timeout : Int)

namespace Request

/-- What a request reports: a number of elements, or whether there was one. -/
def Answer : Request → Type
  | .tryDequeueBulk .. => Nat
  | .waitDequeueTimed .. => Bool

/-- The first position a request may write to. -/
def it : Request → Nat
  | .tryDequeueBulk it _ => it
  | .waitDequeueTimed it _ => it

/-- The largest number of elements a request may remove. -/
def limit : Request → Nat
  | .tryDequeueBulk _ maxSize => maxSize
  | .waitDequeueTimed .. => 1

/-- The report on `count` removed elements. -/
def answer : (request : Request) → Nat → request.Answer
  | .tryDequeueBulk .., count => count
  | .waitDequeueTimed .., count => decide (count ≠ 0)

end Request

/-- `WaitDequeueBulkTimed`, with its iterator as a distance from the one passed and its
timeout as a count of microseconds. -/
def waitDequeueBulkTimed (maxSize : Nat) (timeout : Int) :
    Program Request Request.Answer Nat :=
  .ask (.tryDequeueBulk 0 maxSize) fun (size : Nat) =>
    if size ≠ 0 then
      .done size
    else
      .ask (.waitDequeueTimed 0 timeout) fun (dequeued : Bool) =>
        if dequeued then
          -- `max_size - 1` and the sum are computed in `std::size_t`
          .ask (.tryDequeueBulk 1 (toSize (maxSize - 1))) fun (size : Nat) =>
            .done (toSize (size + 1))
        else
          .done 0

/-- `TryDequeueBulk`. -/
def tryDequeueBulk (maxSize : Nat) : Program Request Request.Answer Nat :=
  .ask (.tryDequeueBulk 0 maxSize) fun (size : Nat) => .done size

/-- The two dequeuing methods, with their arguments beside the iterator; the timeout is
a count of microseconds. -/
inductive Method where
  | waitDequeueBulkTimed (maxSize : Nat) (timeout : Int)
  | tryDequeueBulk (maxSize : Nat)

namespace Method

def maxSize : Method → Nat
  | .waitDequeueBulkTimed maxSize _ => maxSize
  | .tryDequeueBulk maxSize => maxSize

def program : Method → Program Request Request.Answer Nat
  | .waitDequeueBulkTimed maxSize timeout =>
      ConcurrentQueueV1.waitDequeueBulkTimed maxSize timeout
  | .tryDequeueBulk maxSize => ConcurrentQueueV1.tryDequeueBulk maxSize

end Method

/-- A call that has removed some number of elements asks for the positions behind
them and for no more than its budget, and returns their number. -/
def filling (maxSize : Nat) : Contract Request Request.Answer Nat Nat where
  Allows removed request := request.it = removed ∧ removed + request.limit ≤ maxSize
  Moves removed request answer after :=
    ∃ count ≤ request.limit, answer = request.answer count ∧ after = removed + count
  Returns removed size := size = removed

/-- `TryDequeueBulk` fills its buffer from the start. -/
theorem tryDequeueBulk_meets (maxSize : Nat) :
    (tryDequeueBulk maxSize).Meets (filling maxSize) 0 := by
  refine ⟨⟨rfl, by simp [Request.limit]⟩, ?_⟩
  rintro (size : Nat) after ⟨count, _, reported, rfl⟩
  obtain rfl : size = count := reported
  change size = 0 + size
  rw [Nat.zero_add]

/-- `WaitDequeueBulkTimed` puts the bulk it finds behind the single element it
has waited for. -/
theorem waitDequeueBulkTimed_meets {maxSize : Nat} (positive : 1 ≤ maxSize)
    (sized : maxSize < 18446744073709551616) (timeout : Int) :
    (waitDequeueBulkTimed maxSize timeout).Meets (filling maxSize) 0 := by
  have budget : toSize (maxSize - 1) = maxSize - 1 := by
    unfold toSize
    omega
  refine ⟨⟨rfl, by simp [Request.limit]⟩, ?_⟩
  rintro (size : Nat) _ ⟨first, _, reported, rfl⟩
  obtain rfl : size = first := reported
  dsimp only
  by_cases found : size = 0
  · -- nothing there: wait for one element, then look behind it
    subst found
    refine ⟨⟨rfl, by simpa [Request.limit] using positive⟩, ?_⟩
    rintro (dequeued : Bool) _ ⟨single, one, reported, rfl⟩
    obtain rfl : dequeued = decide (single ≠ 0) := reported
    change single ≤ 1 at one
    dsimp only
    by_cases timedOut : single = 0
    · subst timedOut
      rfl
    · obtain rfl : single = 1 := by omega
      refine ⟨⟨rfl, ?_⟩, ?_⟩
      · change 0 + 0 + 1 + toSize (maxSize - 1) ≤ maxSize
        omega
      rintro (more : Nat) _ ⟨rest, bound, reported, rfl⟩
      obtain rfl : more = rest := reported
      change more ≤ toSize (maxSize - 1) at bound
      change toSize (more + 1) = 0 + 0 + 1 + more
      unfold toSize
      omega
  · rw [if_pos found]
    change size = 0 + size
    rw [Nat.zero_add]

/-- No call makes more than three requests. -/
theorem Method.within (method : Method) : method.program.Within 3 := by
  cases method with
  | tryDequeueBulk maxSize => exact fun _ => trivial
  | waitDequeueBulkTimed maxSize timeout =>
      intro (size : Nat)
      change Program.Within 2 (if size ≠ 0 then _ else _)
      split
      · trivial
      intro (dequeued : Bool)
      change Program.Within 1 (if dequeued = true then _ else _)
      split
      · exact fun _ => trivial
      · trivial

/-- Both methods fill their buffer from the start. -/
theorem Method.meets {method : Method} (positive : 1 ≤ method.maxSize)
    (sized : method.maxSize < 18446744073709551616) :
    method.program.Meets (filling method.maxSize) 0 := by
  cases method with
  | tryDequeueBulk maxSize => exact tryDequeueBulk_meets maxSize
  | waitDequeueBulkTimed maxSize timeout =>
      exact waitDequeueBulkTimed_meets positive sized timeout

end Traft.ConcurrentQueueV1
