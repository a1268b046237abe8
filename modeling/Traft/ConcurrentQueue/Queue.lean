import Mathlib.Data.List.Basic

/-!
# The queue wrapper between operations

The contents of a `ConcurrentQueue` while no other thread is inside it, oldest
element first. The wrapped queue hands out as many elements as it holds, up to
the size asked for.
-/

namespace Traft.ConcurrentQueue

variable {α : Type*}

/-- `Enqueue`. -/
def enqueue (queue : List α) (element : α) : List α := queue ++ [element]

/-- `TryDequeueBulk`: the elements handed out and those that stay queued. -/
def tryDequeueBulk (queue : List α) (maxSize : Nat) : List α × List α :=
  (queue.take maxSize, queue.drop maxSize)

/-- `SizeApprox`. -/
def sizeApprox (queue : List α) : Nat := queue.length

/-- `IsEmpty`, with the comparison the source makes: it answers true for a queue
which holds something. -/
def isEmpty (queue : List α) : Bool := decide (sizeApprox queue > 0)

end Traft.ConcurrentQueue
