import Mathlib.Algebra.Order.Ring.Int

/-!
# The queue of one producer

`ImplicitProducer`, cut where one of its atomic operations is made. One thread
enqueues; any number of threads dequeue, each of which first reserves elements on
`dequeueOptimisticCount`, gives back on `dequeueOvercommit` what turns out not to
be there, and only then moves `headIndex` over the rest. The counters are counted
up without a bound here and compared as the 64-bit words the source compares.
Elements live in blocks, and the thread that dequeues the last one of a block puts
it back on the free list. Memory is sequentially consistent.
-/

namespace Traft.Moodycamel

/-- `circular_less_than` for `index_t`. -/
def circularLessThan (a b : Int) : Bool := decide ((a - b) % 2 ^ 64 > 2 ^ 63)

/-- Where the words are at most half their range apart, the comparison is that of
the counts. -/
theorem circularLessThan_iff {a b : Int} (behind : b - a < 2 ^ 63) (ahead : a - b ≤ 2 ^ 63) :
    circularLessThan a b ↔ a < b := by
  simp only [circularLessThan, decide_eq_true_eq]
  omega

/-- A word that is greater than zero is no greater than the count it stands for,
which has not fallen below zero by half the range. -/
theorem word_le_of_circularLessThan {count : Int} (ahead : -(2 ^ 63) ≤ count)
    (positive : circularLessThan 0 (count % 2 ^ 64).toNat) :
    0 < count ∧ ((count % 2 ^ 64).toNat : Int) ≤ count := by
  simp only [circularLessThan, decide_eq_true_eq] at positive
  omega

/-- `BLOCK_SIZE`, with what the source asserts of it. -/
structure Traits where
  blockSize : Nat
  power : ∃ exponent, blockSize = 2 ^ exponent
  large : 1 < blockSize
  bounded : blockSize < 2 ^ 63

/-- `ImplicitProducer` with the counters of `ProducerBase`. Elements and blocks are
numbered from the first one on: `elements` are those before `tailIndex`,
`constructed` are those behind it, and a block on the free list is in `freed`. -/
structure SubQueue (α : Type) where
  tailIndex : Nat := 0
  headIndex : Nat := 0
  dequeueOptimisticCount : Nat := 0
  dequeueOvercommit : Nat := 0
  elements : List α := []
  constructed : List α := []
  elementsCompletelyDequeued : Nat → Nat := fun _ => 0
  freed : List Nat := []

namespace SubQueue

/-- The dequeuing methods. The bulk method is never called for nothing. -/
inductive Method where
  | dequeue
  | dequeueBulk (max : Nat) (positive : 0 < max)

/-- A run of elements inside one block: from `start` to `endIndex`, of which those
before `index` are moved out; the thread goes on with other blocks until `last`. -/
structure Run where
  start : Nat
  index : Nat
  endIndex : Nat
  last : Nat

/-- Where a thread is inside a dequeuing method, before its next operation. -/
inductive Point (α : Type) where
  | loadTail
  | loadOvercommit (tail : Nat)
  | loadOptimisticCount (tail overcommit : Nat)
  /-- `dequeueOptimisticCount.fetch_add(desiredCount)` -/
  | reserve (overcommit desiredCount : Nat)
  /-- the second load of the tail -/
  | reloadTail (overcommit desiredCount myDequeueCount : Nat)
  /-- `dequeueOvercommit.fetch_add(amount)`, before going on with `actualCount` -/
  | giveBack (amount actualCount : Nat)
  /-- `headIndex.fetch_add(actualCount)` -/
  | claim (actualCount : Nat)
  /-- the loop that moves elements out of a block -/
  | move (run : Run) (removed : List α)
  /-- `set_empty` or `set_many_empty` -/
  | setEmpty (run : Run) (removed : List α)
  /-- `add_block_to_free_list` -/
  | free (run : Run) (removed : List α)
  | done (removed : List α)

namespace Method

/-- How many elements a method reserves, if there seem to be any. -/
def desiredCount (method : Method) (tail overcommit optimisticCount : Nat) : Option Nat :=
  match method with
  | .dequeue =>
      if circularLessThan (optimisticCount - overcommit) tail then some 1 else none
  | .dequeueBulk max _ =>
      let desiredCount : Nat := ((tail - (optimisticCount - overcommit : Int)) % 2 ^ 64).toNat
      if circularLessThan 0 desiredCount then some (min desiredCount max) else none

/-- How many of the reserved elements there really are. -/
def actualCount (method : Method) (tail overcommit myDequeueCount desiredCount : Nat) : Nat :=
  match method with
  | .dequeue =>
      if circularLessThan (myDequeueCount - overcommit) tail then 1 else 0
  | .dequeueBulk _ _ =>
      let actualCount : Nat := ((tail - (myDequeueCount - overcommit : Int)) % 2 ^ 64).toNat
      if circularLessThan 0 actualCount then min desiredCount actualCount else 0

end Method

namespace Run

/-- The number of a run's block. -/
def block (run : Run) (traits : Traits) : Nat := run.start / traits.blockSize

/-- The run that begins at `start`: to the end of its block, or to `last`. -/
def begin (traits : Traits) (start last : Nat) : Run where
  start
  index := start
  endIndex :=
    let endIndex := start / traits.blockSize * traits.blockSize + traits.blockSize
    if circularLessThan last endIndex then last else endIndex
  last

/-- Behind a run: the next one, or the end of the method. -/
def next {α : Type} (run : Run) (traits : Traits) (removed : List α) : Point α :=
  if run.endIndex = run.last then .done removed
  else .move (begin traits run.endIndex run.last) removed

end Run

variable {α : Type}

/-- The next operation of a dequeuing method. There is none for a method that has
returned, and none that moves out an element where none was constructed. -/
def advance (traits : Traits) (queue : SubQueue α) (method : Method) :
    Point α → Option (SubQueue α × Point α)
  | .loadTail => some (queue, .loadOvercommit queue.tailIndex)
  | .loadOvercommit tail => some (queue, .loadOptimisticCount tail queue.dequeueOvercommit)
  | .loadOptimisticCount tail overcommit =>
      match method.desiredCount tail overcommit queue.dequeueOptimisticCount with
      | some desiredCount => some (queue, .reserve overcommit desiredCount)
      | none => some (queue, .done [])
  | .reserve overcommit desiredCount =>
      some ({ queue with dequeueOptimisticCount := queue.dequeueOptimisticCount + desiredCount },
        .reloadTail overcommit desiredCount queue.dequeueOptimisticCount)
  | .reloadTail overcommit desiredCount myDequeueCount =>
      let actualCount := method.actualCount queue.tailIndex overcommit myDequeueCount desiredCount
      if actualCount < desiredCount then
        some (queue, .giveBack (desiredCount - actualCount) actualCount)
      else some (queue, .claim actualCount)
  | .giveBack amount actualCount =>
      some ({ queue with dequeueOvercommit := queue.dequeueOvercommit + amount },
        if actualCount = 0 then .done [] else .claim actualCount)
  | .claim actualCount =>
      some ({ queue with headIndex := queue.headIndex + actualCount },
        .move (.begin traits queue.headIndex (queue.headIndex + actualCount)) [])
  | .move run removed =>
      if run.index = run.endIndex then some (queue, .setEmpty run removed)
      else
        match queue.elements[run.index]? with
        | some element =>
            some (queue, .move { run with index := run.index + 1 } (removed ++ [element]))
        | none => none
  | .setEmpty run removed =>
      let prevVal := queue.elementsCompletelyDequeued (run.block traits)
      let count := run.endIndex - run.start
      let queue := { queue with
        elementsCompletelyDequeued :=
          Function.update queue.elementsCompletelyDequeued (run.block traits) (prevVal + count) }
      if prevVal + count = traits.blockSize then some (queue, .free run removed)
      else some (queue, run.next traits removed)
  | .free run removed =>
      some ({ queue with freed := queue.freed ++ [run.block traits] }, run.next traits removed)
  | .done _ => none

/-- The producer constructs an element behind the tail. -/
def construct (queue : SubQueue α) (element : α) : SubQueue α :=
  { queue with constructed := queue.constructed ++ [element] }

/-- `tailIndex.store(newTailIndex)`, at the end of `enqueue` and `enqueue_bulk`. -/
def publish (queue : SubQueue α) : SubQueue α :=
  { queue with
    tailIndex := queue.tailIndex + queue.constructed.length
    elements := queue.elements ++ queue.constructed
    constructed := [] }

/-- `enqueue_bulk` destroys what it constructed when a constructor throws. -/
def discard (queue : SubQueue α) : SubQueue α := { queue with constructed := [] }

/-- `tailBlock`, the block of the last element. -/
def tailBlock (traits : Traits) (queue : SubQueue α) : Option Nat :=
  if queue.tailIndex = 0 then none else some ((queue.tailIndex - 1) / traits.blockSize)

/-- The loop of `~ImplicitProducer` from `index` on, for the elements that are
left: the blocks it puts back, where `block` is the one it is in. -/
def destroyFrom (traits : Traits) (index : Nat) (block : Option Nat) : Nat → List Nat
  | 0 => []
  | left + 1 =>
      if index % traits.blockSize = 0 ∨ block = none then
        block.toList ++ destroyFrom traits (index + 1) (some (index / traits.blockSize)) left
      else destroyFrom traits (index + 1) block left

/-- The blocks `~ImplicitProducer` puts back. -/
def destroy (traits : Traits) (queue : SubQueue α) : List Nat :=
  destroyFrom traits queue.headIndex none (queue.tailIndex - queue.headIndex) ++
    if queue.headIndex ≠ queue.tailIndex ∨ queue.tailIndex % traits.blockSize ≠ 0 then
      (queue.tailBlock traits).toList
    else []

/-- `size_approx`, with the tail loaded before the head. -/
def sizeApprox (tail head : Nat) : Nat :=
  if circularLessThan head tail then ((tail - head : Int) % 2 ^ 64).toNat else 0

end SubQueue

end Traft.Moodycamel
