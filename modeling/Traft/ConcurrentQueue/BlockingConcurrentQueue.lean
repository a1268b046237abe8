import Traft.ConcurrentQueue.SemaphoreRun
import Traft.Semantics.Origin
import Traft.Semantics.Simulation

/-!
# The blocking queue between its threads

`BlockingConcurrentQueue` puts a semaphore beside the queue it wraps: elements are
enqueued before they are signalled, and a dequeuing method first gets permits and
then asks the inner queue until it has as many elements. Of the inner queue it is
assumed that a request removes exactly the elements it reports, no more than it
was asked for, and the elements of each producer in their order; it may well
report none.
-/

namespace Traft.Moodycamel

open Traft.Semantics LightweightSemaphore

/-- The dequeuing methods. -/
inductive Dequeue where
  | tryDequeue
  | tryDequeueBulk (max : Nat)
  | waitDequeue
  | waitDequeueTimed (timeout : Int)
  | waitDequeueBulk (max : Nat)
  | waitDequeueBulkTimed (max : Nat) (timeout : Int)

namespace Dequeue

/-- The method of the semaphore which gets the permits. -/
def acquire : Dequeue → Method
  | .tryDequeue => .tryWait
  | .tryDequeueBulk max => .tryWaitMany max
  | .waitDequeue => .wait (-1)
  | .waitDequeueTimed timeout => .wait timeout
  | .waitDequeueBulk max => .waitMany max (-1)
  | .waitDequeueBulkTimed max timeout => .waitMany max timeout

/-- Whether a method tries again when it got no permit. -/
def repeats : Dequeue → Bool
  | .waitDequeue => true
  | _ => false

end Dequeue

/-- What a thread is doing: putting elements in, about to ask for permits, asking
for them, or taking out as many elements as it has permits left. -/
inductive Task (Producer α : Type) where
  | idle
  | enqueueing (count : Nat)
  | calling (method : Dequeue)
  | acquiring (method : Dequeue)
  | draining (method : Dequeue) (left : Nat) (removed : List (Producer × α))

namespace Task

variable {Producer α : Type}

/-- The permits a thread has left. -/
def left : Task Producer α → Int
  | .draining _ left _ => left
  | _ => 0

/-- The elements a thread has taken out and not returned. -/
def hand : Task Producer α → List (Producer × α)
  | .draining _ _ removed => removed
  | _ => []

/-- A thread which is outside the semaphore. -/
def Outside : Task Producer α → Prop
  | .enqueueing _ | .acquiring _ => False
  | _ => True

/-- A thread which is not dequeuing. -/
def Produces : Task Producer α → Prop
  | .idle | .enqueueing _ => True
  | _ => False

/-- It has nothing in hand. -/
theorem Produces.hand {task : Task Producer α} (produces : task.Produces) : task.hand = [] := by
  cases task with
  | draining => exact produces.elim
  | _ => rfl

/-- What a call does with the permits it got. -/
def granted (method : Dequeue) (result : Int) : Task Producer α :=
  if method.repeats ∧ result = 0 then .calling method else .draining method result.toNat []

end Task

/-- `BlockingConcurrentQueue`, with its threads. -/
structure BlockingConcurrentQueue (S ι Producer α : Type) where
  inner : List (Producer × α)
  sema : Contention S ι
  tasks : ι → Task Producer α

namespace BlockingConcurrentQueue

/-- What a thread does. -/
inductive Event (ι Producer α : Type) where
  | enqueue (thread : ι) (producer : Producer) (elements : List α) (accepted : Bool)
  | operate (thread : ι) (gives : Bool)
  | enqueued (thread : ι) (count : Nat) (result : Int)
  | dequeue (thread : ι) (method : Dequeue)
  | acquire (thread : ι) (method : Dequeue)
  | granted (thread : ι) (method : Dequeue) (result : Int)
  | drain (thread : ι) (taken : List (Producer × α))
  | leave (thread : ι) (method : Dequeue) (removed : List (Producer × α))

namespace Event

variable {ι Producer α : Type}

/-- What the semaphore sees of it. -/
def atSemaphore : Event ι Producer α → Option (LightweightSemaphore.Event ι)
  | .enqueue thread _ elements true => some (.call thread (.signal elements.length))
  | .operate thread gives => some (.advance thread gives)
  | .enqueued thread count result => some (.finish thread (.signal count) result)
  | .acquire thread method => some (.call thread method.acquire)
  | .granted thread method result => some (.finish thread method.acquire result)
  | _ => none

/-- The elements put in. -/
def enters : Event ι Producer α → List (Producer × α)
  | .enqueue _ producer elements true => elements.map fun element => (producer, element)
  | _ => []

/-- The elements taken out of the inner queue. -/
def takes : Event ι Producer α → List (Producer × α)
  | .drain _ taken => taken
  | _ => []

/-- The elements a method returns. -/
def returns : Event ι Producer α → List (Producer × α)
  | .leave _ _ removed => removed
  | _ => []

end Event

section Assign

variable {S ι Producer α : Type} [DecidableEq ι]

/-- The tasks with one thread at another. -/
def assign (state : BlockingConcurrentQueue S ι Producer α) (thread : ι)
    (task : Task Producer α) : ι → Task Producer α :=
  Function.update state.tasks thread task

/-- The thread that moves is at its new task. -/
theorem assign_self (state : BlockingConcurrentQueue S ι Producer α) (thread : ι)
    (task : Task Producer α) : state.assign thread task thread = task :=
  Function.update_self ..

end Assign

variable {S ι Producer α : Type} [FiberSemaphore S] [DecidableEq ι] [DecidableEq Producer]

/-- One thread goes on. -/
inductive Step : BlockingConcurrentQueue S ι Producer α → Event ι Producer α →
    BlockingConcurrentQueue S ι Producer α → Prop where
  | enqueue {state thread sema} (producer : Producer) (elements : List α)
      (idle : state.tasks thread = .idle)
      (signals : Contention.Step state.sema (.call thread (.signal elements.length)) sema) :
      Step state (.enqueue thread producer elements true)
        { inner := state.inner ++ elements.map fun element => (producer, element)
          sema
          tasks := state.assign thread (.enqueueing elements.length) }
  | refuse {state thread} (producer : Producer) (elements : List α)
      (idle : state.tasks thread = .idle) :
      Step state (.enqueue thread producer elements false) state
  | operate {state thread gives sema}
      (moves : Contention.Step state.sema (.advance thread gives) sema) :
      Step state (.operate thread gives) { state with sema }
  | enqueued {state thread count result sema} (here : state.tasks thread = .enqueueing count)
      (signalled : Contention.Step state.sema (.finish thread (.signal count) result) sema) :
      Step state (.enqueued thread count result)
        { state with sema, tasks := state.assign thread .idle }
  | dequeue {state thread} (method : Dequeue) (idle : state.tasks thread = .idle) :
      Step state (.dequeue thread method)
        { state with tasks := state.assign thread (.calling method) }
  | acquire {state thread method sema} (here : state.tasks thread = .calling method)
      (calls : Contention.Step state.sema (.call thread method.acquire) sema) :
      Step state (.acquire thread method)
        { state with sema, tasks := state.assign thread (.acquiring method) }
  | granted {state thread method result sema} (here : state.tasks thread = .acquiring method)
      (returned : Contention.Step state.sema (.finish thread method.acquire result) sema) :
      Step state (.granted thread method result)
        { state with sema, tasks := state.assign thread (.granted method result) }
  | drain {state thread method left removed taken rest}
      (here : state.tasks thread = .draining method left removed) (wanted : left ≠ 0)
      (bound : taken.length ≤ left) (removes : Parts state.inner taken rest) :
      Step state (.drain thread taken)
        { state with
          inner := rest
          tasks := state.assign thread
            (.draining method (left - taken.length) (removed ++ taken)) }
  | leave {state thread method removed}
      (here : state.tasks thread = .draining method 0 removed) :
      Step state (.leave thread method removed)
        { state with tasks := state.assign thread .idle }

/-- The runs of a queue that starts empty, with the spins of its semaphore. -/
def system (S ι Producer α : Type) [FiberSemaphore S] [DecidableEq ι] [DecidableEq Producer]
    (maxSpins : Nat) : StepSystem (Event ι Producer α) where
  State := BlockingConcurrentQueue S ι Producer α
  Initial state := state.inner = [] ∧ (Contention.system S ι 0 maxSpins).Initial state.sema ∧
    state.tasks = fun _ => .idle
  Step := Step

/-- `size_approx`. -/
def sizeApprox (state : BlockingConcurrentQueue S ι Producer α) : Nat :=
  state.sema.semaphore.availableApprox

end BlockingConcurrentQueue

end Traft.Moodycamel
