import Traft.ConcurrentQueue.BlockingRefinement

/-!
# The wrapper over the blocking queue

The wrapper's calls make requests to a `BlockingConcurrentQueue`, each of which is
a method with steps of its own, while producers enqueue at any time. With one
consumer the two layers together are the wrapper over an atomic queue, so its
calls deliver what that queue's would.
-/

namespace Traft.Moodycamel

open Traft.Semantics LightweightSemaphore
open Traft.ConcurrentQueueV1 (Request DequeueCall Traffic QueueEvent Buffer)

/-- The method of the blocking queue which a request calls. -/
def Dequeue.ofRequest : Request → Dequeue
  | .tryDequeueBulk _ maxSize => .tryDequeueBulk maxSize
  | .waitDequeueTimed _ timeout => .waitDequeueTimed timeout

/-- A request removes at most as many elements as its method asks permits for. -/
theorem Dequeue.max_ofRequest (request : Request) :
    (Dequeue.ofRequest request).acquire.max = request.limit := by
  cases request <;> rfl

/-- A request without a time limit is a method that waits forever. -/
theorem Dequeue.waits_ofRequest {request : Request} (indefinite : request.Indefinite) :
    (Dequeue.ofRequest request).acquire.waits ∧
      (Dequeue.ofRequest request).acquire.timeout < 0 := by
  cases request with
  | tryDequeueBulk it maxSize => exact indefinite.elim
  | waitDequeueTimed it timeout => exact ⟨rfl, indefinite⟩

/-- An answer of a bag is one a request can get whatever others enqueue. -/
theorem Bag.serves {Producer α : Type} {situation : ConcurrentQueueV1.Situation (Producer × α)}
    {request : Request} {removed rest : List (Producer × α)}
    (answer : Bag.Step (situation.present : Multiset (Producer × α))
      (.answer (.ofRequest request) removed) (rest : Multiset (Producer × α))) :
    situation.Serves request removed rest := by
  generalize whole : (situation.present : Multiset (Producer × α)) = bag at answer
  cases answer with
  | answer _ _ returns =>
      refine ⟨Multiset.coe_eq_coe.mp whole, ?_, ?_⟩
      · have most := returns.most
        rw [Dequeue.max_ofRequest] at most
        exact Int.ofNat_le.mp most
      · intro indefinite
        obtain ⟨waits, forever⟩ := Dequeue.waits_ofRequest indefinite
        have something := returns.something waits forever
        exact List.ne_nil_of_length_pos (Int.natCast_pos.mp something)

/-- A thread goes on with a method it has begun and does not return from. -/
def BlockingConcurrentQueue.Event.Inside {ι Producer α : Type} :
    BlockingConcurrentQueue.Event ι Producer α → Prop
  | .operate .. | .enqueued .. | .acquire .. | .granted .. | .drain .. => True
  | _ => False

/-- Callers do not see it. -/
theorem BlockingConcurrentQueue.Event.Inside.served {ι Producer α : Type}
    {event : BlockingConcurrentQueue.Event ι Producer α} (inside : event.Inside) :
    event.served = none := by
  cases event with
  | enqueue => exact inside.elim
  | leave => exact inside.elim
  | _ => rfl

/-- It does not begin a dequeue. -/
theorem BlockingConcurrentQueue.Event.Inside.byConsumer {ι Producer α : Type}
    {event : BlockingConcurrentQueue.Event ι Producer α} (inside : event.Inside) (consumer : ι) :
    event.ByConsumer consumer := by
  cases event with
  | dequeue => exact inside.elim
  | _ => trivial

/-- A blocking queue and the calls of the wrapper, which one thread makes. -/
structure WrappedQueue (S ι Producer α : Type) where
  queue : BlockingConcurrentQueue S ι Producer α
  calls : List (DequeueCall ι Producer α)

namespace WrappedQueue

/-- What happens at a wrapped queue: an element is enqueued, the consumer makes a
call, a request of it is passed on, a thread goes on inside the queue, or a request
is answered. -/
inductive Event (ι Producer α : Type) where
  | enqueue (thread : ι) (producer : Producer) (element : α) (accepted : Bool)
  | call (method : ConcurrentQueueV1.Method) (buffer : Buffer α)
  | request (request : Request)
  | inside (event : BlockingConcurrentQueue.Event ι Producer α)
  | answer (request : Request) (removed : List (Producer × α))

variable {S ι Producer α : Type} [FiberSemaphore S] [DecidableEq ι] [DecidableEq Producer]

/-- One step of a producer, of the consumer, or of a thread inside the queue. -/
inductive Step (consumer : ι) : WrappedQueue S ι Producer α → Event ι Producer α →
    WrappedQueue S ι Producer α → Prop where
  | enqueue {state queue} (thread producer element accepted)
      (enters : BlockingConcurrentQueue.Step state.queue
        (.enqueue thread producer [element] accepted) queue) :
      Step consumer state (.enqueue thread producer element accepted) { state with queue }
  | call {state} (method : ConcurrentQueueV1.Method) (buffer : Buffer α)
      (positive : 1 ≤ method.maxSize) (sized : method.maxSize < 18446744073709551616)
      (free : ∀ call ∈ state.calls, call.program.Returned) :
      Step consumer state (.call method buffer)
        { state with calls := state.calls ++ [.start consumer method buffer] }
  | request {state call request next queue} (running : call ∈ state.calls)
      (asks : call.program = .ask request next)
      (begins : BlockingConcurrentQueue.Step state.queue
        (.dequeue consumer (.ofRequest request)) queue) :
      Step consumer state (.request request) { state with queue }
  | inside {state queue event} (inside : event.Inside)
      (moves : BlockingConcurrentQueue.Step state.queue event queue) :
      Step consumer state (.inside event) { state with queue }
  | answer {state front call back request next removed queue}
      (running : state.calls = front ++ call :: back)
      (asks : call.program = .ask request next)
      (returns : BlockingConcurrentQueue.Step state.queue
        (.leave consumer (.ofRequest request) removed) queue) :
      Step consumer state (.answer request removed)
        { queue, calls := front ++ call.answered request next removed :: back }

/-- The runs of a queue that starts empty, with one consumer. -/
def system (S ι Producer α : Type) [FiberSemaphore S] [DecidableEq ι] [DecidableEq Producer]
    (maxSpins : Nat) (consumer : ι) : StepSystem (Event ι Producer α) where
  State := WrappedQueue S ι Producer α
  Initial state := (BlockingConcurrentQueue.system S ι Producer α maxSpins).Initial state.queue ∧
    state.calls = []
  Step := Step consumer

/-- What the atomic queue sees of an event. -/
def Event.atomic (consumer : ι) : Event ι Producer α → Option (QueueEvent ι Producer α)
  | .enqueue _ producer element accepted => some (.enqueue producer element accepted)
  | .call method buffer => some (.call consumer method buffer)
  | .answer _ removed => some (.request consumer removed)
  | _ => none

/-- The element an event puts in. -/
def Event.enters : Event ι Producer α → List (Producer × α)
  | .enqueue _ producer element true => [(producer, element)]
  | _ => []

variable [Fintype ι]

/-- Both layers together look like the wrapper over an atomic queue. -/
structure Parted (maxSpins : Nat) (consumer : ι) (events : List (Event ι Producer α))
    (state : WrappedQueue S ι Producer α) (traffic : Traffic ι Producer α) : Prop where
  queue : ∃ history, BlockingConcurrentQueue.Parted maxSpins consumer history state.queue
    traffic.queue
  calls : traffic.calls = state.calls
  own : ∀ call ∈ state.calls, call.consumer = consumer
  accepted : traffic.accepted = events.flatMap Event.enters

namespace Parted

variable {maxSpins : Nat} {consumer : ι} {events : List (Event ι Producer α)}
  {state next : WrappedQueue S ι Producer α} {traffic : Traffic ι Producer α}

/-- The layers together make a step of the atomic queue, or none. -/
theorem step (parted : Parted maxSpins consumer events state traffic) {event : Event ι Producer α}
    (step : Step consumer state event next) :
    ∃ after, (Traffic.system ι Producer α).Answers traffic (event.atomic consumer) after ∧
      Parted maxSpins consumer (events ++ [event]) next after := by
  obtain ⟨history, queue⟩ := parted.queue
  have accepted := parted.accepted
  have calls := parted.calls
  cases step with
  | enqueue thread producer element accept enters =>
      obtain ⟨after, answer, further⟩ := queue.step enters trivial
      cases accept with
      | false =>
          obtain rfl : after = traffic.queue := answer
          refine ⟨_, .enqueue producer element false, ⟨_, further⟩, calls, parted.own, ?_⟩
          rw [List.flatMap_append, ← accepted]
          exact (List.append_nil _).symm
      | true =>
          cases answer with
          | put =>
              refine ⟨_, .enqueue producer element true, ⟨_, further⟩, calls, parted.own, ?_⟩
              rw [List.flatMap_append, ← accepted]
              rfl
  | call method buffer positive sized free =>
      have free' : ∀ call ∈ traffic.calls, call.consumer = consumer → call.program.Returned :=
        fun call present _ => free call (calls ▸ present)
      refine ⟨_, .call method buffer positive sized free', ⟨history, queue⟩, ?_, ?_, ?_⟩
      · rw [calls]
      · intro call present
        rcases List.mem_append.mp present with before | new
        · exact parted.own call before
        · obtain rfl := List.mem_singleton.mp new
          rfl
      · rw [List.flatMap_append, ← accepted]
        exact (List.append_nil _).symm
  | request running asks begins =>
      obtain ⟨after, same, further⟩ := queue.step begins rfl
      obtain rfl : after = traffic.queue := same
      refine ⟨traffic, rfl, ⟨_, further⟩, calls, parted.own, ?_⟩
      rw [List.flatMap_append, ← accepted]
      exact (List.append_nil _).symm
  | inside inside moves =>
      obtain ⟨after, answer, further⟩ := queue.step moves (inside.byConsumer consumer)
      rw [inside.served] at answer
      obtain rfl : after = traffic.queue := answer
      refine ⟨traffic, rfl, ⟨_, further⟩, calls, parted.own, ?_⟩
      rw [List.flatMap_append, ← accepted]
      exact (List.append_nil _).symm
  | @answer front call back request program removed _ running asks returns =>
      obtain ⟨after, answer, further⟩ := queue.step returns trivial
      cases answer with
      | answer _ bounded removes =>
          have bound : removed.length ≤ request.limit := by
            rw [← Dequeue.max_ofRequest]
            exact Int.ofNat_le.mp bounded.most
          have own : call.consumer = consumer :=
            parted.own call (running ▸ List.mem_append_right _ List.mem_cons_self)
          have answered := Traffic.Step.request (calls.trans running) asks bound removes
          rw [own] at answered
          refine ⟨_, answered, ⟨_, further⟩, rfl, ?_, ?_⟩
          · intro other present
            rcases List.mem_append.mp present with before | later
            · exact parted.own other (running ▸ List.mem_append_left _ before)
            rcases List.mem_cons.mp later with rfl | behind
            · exact own
            · exact parted.own other
                (running ▸ List.mem_append_right _ (List.mem_cons_of_mem _ behind))
          · rw [List.flatMap_append, ← accepted]
            exact (List.append_nil _).symm

end Parted

end WrappedQueue

end Traft.Moodycamel
