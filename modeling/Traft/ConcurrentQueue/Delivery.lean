import Traft.ConcurrentQueue.Queue
import Traft.ConcurrentQueue.Wrapper
import Traft.Semantics.Origin
import Traft.Semantics.Run

/-!
# The queue wrapper between threads

Producers enqueue and consumers call the dequeuing methods at any time, and a
step is one request to the wrapped queue. Of that queue it is assumed that a
request removes exactly the elements it reports, no more than it was asked for,
and that it takes the elements of each producer in their order.
-/

namespace Traft.ConcurrentQueueV1

open Traft.Semantics

/-- The cells behind an iterator; none holds nothing that was written. -/
abbrev Buffer (α : Type) := Nat → Option α

/-- Assign consecutive elements from position `it`. -/
def Buffer.write {α : Type} (buffer : Buffer α) (it : Nat) (elements : List α) : Buffer α :=
  fun position =>
    if position < it then buffer position else elements[position - it]?.or (buffer position)

/-- Writing nothing changes nothing. -/
@[simp] theorem Buffer.write_nil {α : Type} (buffer : Buffer α) (it : Nat) :
    buffer.write it [] = buffer := by
  ext position : 1
  simp [write]

/-- Writing behind what was written from the start extends it. -/
theorem Buffer.write_write {α : Type} (buffer : Buffer α) (elements others : List α) :
    (buffer.write 0 elements).write elements.length others =
      buffer.write 0 (elements ++ others) := by
  ext position : 1
  simp only [write, Nat.not_lt_zero, if_false, Nat.sub_zero, List.getElem?_append]
  by_cases inside : position < elements.length
  · simp [inside]
  · simp [inside]

/-- A call of a consumer: its budget, its buffer before and now, what is left of
its program and, kept for reasoning, what its requests have removed. -/
structure DequeueCall (Consumer Producer α : Type) where
  consumer : Consumer
  maxSize : Nat
  before : Buffer α
  buffer : Buffer α
  program : Program Request Request.Answer Nat
  removed : List (Producer × α)

/-- A queue between its threads, with the calls made and the elements accepted so
far. An element is queued under the producer it came from. -/
structure Traffic (Consumer Producer α : Type) where
  queue : List (Producer × α) := []
  calls : List (DequeueCall Consumer Producer α) := []
  accepted : List (Producer × α) := []

/-- What producers and consumers do. -/
inductive QueueEvent (Consumer Producer α : Type) where
  | enqueue (producer : Producer) (element : α) (accepted : Bool)
  | call (consumer : Consumer) (method : Method) (buffer : Buffer α)
  | request (consumer : Consumer) (taken : List (Producer × α))

variable {Consumer Producer α : Type}

namespace DequeueCall

/-- A call that begins. -/
def start (consumer : Consumer) (method : Method) (buffer : Buffer α) :
    DequeueCall Consumer Producer α where
  consumer
  maxSize := method.maxSize
  before := buffer
  buffer
  program := method.program
  removed := []

/-- A call whose request removed `taken`: the elements are written behind the
iterator of the request and their number is reported. -/
def answered (call : DequeueCall Consumer Producer α) (request : Request)
    (next : request.Answer → Program Request Request.Answer Nat) (taken : List (Producer × α)) :
    DequeueCall Consumer Producer α :=
  { call with
    buffer := call.buffer.write request.it (taken.map Prod.snd)
    program := next (request.answer taken.length)
    removed := call.removed ++ taken }

end DequeueCall

namespace Traffic

/-- The elements removed, in the order of the calls. -/
def received (state : Traffic Consumer Producer α) : List (Producer × α) :=
  state.calls.flatMap DequeueCall.removed

variable [DecidableEq Producer]

/-- One step of a producer or a consumer. A consumer makes one call at a time,
with room for at least one element. -/
inductive Step : Traffic Consumer Producer α → QueueEvent Consumer Producer α →
    Traffic Consumer Producer α → Prop where
  | enqueue {state} (producer element accepted) :
      Step state (.enqueue producer element accepted) { state with
        queue :=
          if accepted then ConcurrentQueue.enqueue state.queue (producer, element)
          else state.queue
        accepted :=
          if accepted then state.accepted ++ [(producer, element)] else state.accepted }
  | call {state consumer} (method : Method) (buffer) (positive : 1 ≤ method.maxSize)
      (sized : method.maxSize < 18446744073709551616)
      (free : ∀ call ∈ state.calls, call.consumer = consumer → call.program.Returned) :
      Step state (.call consumer method buffer) { state with
        calls := state.calls ++ [.start consumer method buffer] }
  | request {state front call back request next taken rest}
      (running : state.calls = front ++ call :: back)
      (asks : call.program = .ask request next) (bound : taken.length ≤ request.limit)
      (removes : Parts state.queue taken rest) :
      Step state (.request call.consumer taken) { state with
        queue := rest
        calls := front ++ call.answered request next taken :: back }

/-- The runs of a queue that starts empty. -/
def system (Consumer Producer α : Type) [DecidableEq Producer] :
    StepSystem (QueueEvent Consumer Producer α) where
  State := Traffic Consumer Producer α
  Initial state := state = {}
  Step := Step

end Traffic

/-- What a call has done so far, and that it will return. -/
structure DequeueCall.Delivers (call : DequeueCall Consumer Producer α) : Prop where
  filled : call.buffer = call.before.write 0 (call.removed.map Prod.snd)
  bounded : call.removed.length ≤ call.maxSize
  counted : ∀ size, call.program = .done size → size = call.removed.length
  returns : call.program.Within 3

/-- Every accepted element is queued or has been removed by one call, and is so
once; each call has filled the front of its buffer with what it removed, and
returns the number of it; and a single consumer gets the elements of each
producer in their order. -/
structure Traffic.Delivers [DecidableEq Producer] (state : Traffic Consumer Producer α) :
    Prop where
  once : state.accepted.Perm (state.received ++ state.queue)
  calls : ∀ call ∈ state.calls, call.Delivers
  ordered : (∀ call ∈ state.calls, ∀ other ∈ state.calls, call.consumer = other.consumer) →
    Parts state.accepted state.received state.queue

/-- A call keeps to its contract: it has filled the front of its buffer and goes
on behind it. -/
structure DequeueCall.Fills (call : DequeueCall Consumer Producer α) : Prop where
  filled : call.buffer = call.before.write 0 (call.removed.map Prod.snd)
  bounded : call.removed.length ≤ call.maxSize
  meets : call.program.Meets (filling call.maxSize) call.removed.length
  returns : call.program.Within 3

namespace DequeueCall.Fills

/-- A call that fills its buffer delivers. -/
theorem delivers {call : DequeueCall Consumer Producer α} (fills : call.Fills) :
    call.Delivers := by
  refine ⟨fills.filled, fills.bounded, ?_, fills.returns⟩
  intro size returned
  have meets := fills.meets
  rw [returned] at meets
  exact meets

/-- A call that begins has its whole budget before it. -/
theorem start (consumer : Consumer) {method : Method} (buffer : Buffer α)
    (positive : 1 ≤ method.maxSize) (sized : method.maxSize < 18446744073709551616) :
    (DequeueCall.start consumer method buffer : DequeueCall Consumer Producer α).Fills :=
  ⟨(buffer.write_nil 0).symm, Nat.zero_le _, Method.meets positive sized, method.within⟩

/-- An answered request leaves its elements behind those before. -/
theorem answered {call : DequeueCall Consumer Producer α} {request : Request}
    {next : request.Answer → Program Request Request.Answer Nat} {taken : List (Producer × α)}
    (fills : call.Fills) (asks : call.program = .ask request next)
    (bound : taken.length ≤ request.limit) : (call.answered request next taken).Fills := by
  have meets := fills.meets
  have returns := fills.returns
  rw [asks] at meets returns
  obtain ⟨⟨behind, budget⟩, goesOn⟩ := meets
  have length : (call.removed ++ taken).length = call.removed.length + taken.length :=
    List.length_append
  refine ⟨?_, ?_, ?_, returns.answered _⟩
  · change call.buffer.write request.it (taken.map Prod.snd) = _
    have written : request.it = (call.removed.map Prod.snd).length := by
      rw [List.length_map, behind]
    rw [fills.filled, written, Buffer.write_write, ← List.map_append]
    rfl
  · change (call.removed ++ taken).length ≤ call.maxSize
    omega
  · apply goesOn
    exact ⟨taken.length, bound, rfl, length⟩

end DequeueCall.Fills

namespace Traffic

variable [DecidableEq Producer]

/-- What every step keeps: the elements are accounted for, each call keeps to its
contract, a consumer's earlier calls have returned, and a single consumer has
received each producer's elements in order. -/
structure Accounted (state : Traffic Consumer Producer α) : Prop where
  once : state.accepted.Perm (state.received ++ state.queue)
  fills : ∀ call ∈ state.calls, call.Fills
  sequential : state.calls.Pairwise fun earlier later =>
    earlier.consumer = later.consumer → earlier.program.Returned
  ordered : (∀ call ∈ state.calls, ∀ other ∈ state.calls, call.consumer = other.consumer) →
    Parts state.accepted state.received state.queue

namespace Accounted

variable {state next : Traffic Consumer Producer α}

/-- Accounted traffic delivers. -/
theorem delivers (account : state.Accounted) : state.Delivers :=
  ⟨account.once, fun call present => (account.fills call present).delivers, account.ordered⟩

/-- An accepted element is queued behind the others of its producer. -/
theorem enqueue {producer : Producer} {element : α} {accepted : Bool}
    (account : state.Accounted) (step : Step state (.enqueue producer element accepted) next) :
    next.Accounted := by
  cases step with
  | enqueue =>
      cases accepted with
      | false => exact ⟨account.once, account.fills, account.sequential, account.ordered⟩
      | true =>
          refine ⟨?_, account.fills, account.sequential, ?_⟩
          · have grown := account.once.append_right [(producer, element)]
            rw [List.append_assoc] at grown
            exact grown
          · intro single
            exact (account.ordered single).concat (producer, element)

/-- A new call has removed nothing yet. -/
theorem call {consumer : Consumer} {method : Method} {buffer : Buffer α}
    (account : state.Accounted) (step : Step state (.call consumer method buffer) next) :
    next.Accounted := by
  cases step with
  | call _ _ positive sized free =>
      have received : (state.calls ++ [DequeueCall.start consumer method buffer]).flatMap
          DequeueCall.removed = state.received := by
        simp [Traffic.received, DequeueCall.start]
      refine ⟨?_, ?_, ?_, ?_⟩
      · change state.accepted.Perm (List.flatMap _ _ ++ state.queue)
        rw [received]
        exact account.once
      · intro call present
        rcases List.mem_append.mp present with before | new
        · exact account.fills call before
        · obtain rfl := List.mem_singleton.mp new
          exact .start consumer buffer positive sized
      · rw [List.pairwise_append]
        refine ⟨account.sequential, List.pairwise_singleton _ _, ?_⟩
        intro earlier before later new same
        obtain rfl := List.mem_singleton.mp new
        exact free earlier before same
      · intro single
        change Parts state.accepted (List.flatMap _ _) state.queue
        rw [received]
        apply account.ordered
        intro call present other present'
        exact single call (List.mem_append_left _ present) other (List.mem_append_left _ present')

/-- The consumer of an unfinished call has made no call after it. -/
theorem unfinished_last {front back : List (DequeueCall Consumer Producer α)}
    {call : DequeueCall Consumer Producer α} (account : state.Accounted)
    (running : state.calls = front ++ call :: back) (unfinished : ¬ call.program.Returned) :
    ∀ later ∈ back, call.consumer ≠ later.consumer := by
  intro later behind same
  have sequential := account.sequential
  rw [running, List.pairwise_append, List.pairwise_cons] at sequential
  exact unfinished (sequential.2.1.1 later behind same)

/-- Nor has anybody else, if that consumer is the only one. -/
theorem unfinished_alone {front back : List (DequeueCall Consumer Producer α)}
    {call : DequeueCall Consumer Producer α} (account : state.Accounted)
    (running : state.calls = front ++ call :: back) (unfinished : ¬ call.program.Returned)
    (single : ∀ other ∈ state.calls, call.consumer = other.consumer) : back = [] := by
  rw [List.eq_nil_iff_forall_not_mem]
  intro later behind
  apply account.unfinished_last running unfinished later behind
  apply single
  rw [running]
  exact List.mem_append_right _ (List.mem_cons_of_mem _ behind)

/-- A call that goes on keeps the calls in sequence. -/
theorem sequential_replace {front back : List (DequeueCall Consumer Producer α)}
    {call changed : DequeueCall Consumer Producer α} (account : state.Accounted)
    (running : state.calls = front ++ call :: back) (unfinished : ¬ call.program.Returned)
    (same : changed.consumer = call.consumer) :
    (front ++ changed :: back).Pairwise fun earlier later =>
      earlier.consumer = later.consumer → earlier.program.Returned := by
  have last := account.unfinished_last running unfinished
  have sequential := account.sequential
  rw [running, List.pairwise_append, List.pairwise_cons] at sequential
  obtain ⟨inFront, ⟨_, inBack⟩, across⟩ := sequential
  rw [List.pairwise_append, List.pairwise_cons]
  refine ⟨inFront, ⟨?_, inBack⟩, ?_⟩
  · intro later behind equal
    exact absurd (same.symm.trans equal) (last later behind)
  · intro earlier before later present
    rcases List.mem_cons.mp present with rfl | behind
    · rw [same]
      exact across earlier before call List.mem_cons_self
    · exact across earlier before later (List.mem_cons_of_mem _ behind)

/-- An answered request moves its elements from the queue to its call, which for a
single consumer is the last one made. -/
theorem request {consumer : Consumer} {taken : List (Producer × α)}
    (account : state.Accounted) (step : Step state (.request consumer taken) next) :
    next.Accounted := by
  cases step with
  | @request front call back request program _ rest running asks bound removes =>
      have unfinished : ¬ call.program.Returned := by
        rw [asks]
        exact id
      have others : ∀ other ∈ front ++ back, other ∈ state.calls := by
        intro other present
        rw [running]
        rcases List.mem_append.mp present with before | behind
        · exact List.mem_append_left _ before
        · exact List.mem_append_right _ (List.mem_cons_of_mem _ behind)
      have received : state.received = front.flatMap DequeueCall.removed ++
          (call.removed ++ back.flatMap DequeueCall.removed) := by
        simp [Traffic.received, running]
      have receivedAfter : (front ++ call.answered request program taken :: back).flatMap
          DequeueCall.removed = front.flatMap DequeueCall.removed ++
            (call.removed ++ (taken ++ back.flatMap DequeueCall.removed)) := by
        simp [DequeueCall.answered]
      refine ⟨?_, ?_, account.sequential_replace running unfinished rfl, ?_⟩
      · change state.accepted.Perm (List.flatMap _ _ ++ rest)
        have moved : (back.flatMap DequeueCall.removed ++ (taken ++ rest)).Perm
            (taken ++ (back.flatMap DequeueCall.removed ++ rest)) :=
          List.perm_append_comm_assoc _ _ _
        have once := account.once.trans (removes.perm.append_left _)
        rw [received] at once
        rw [receivedAfter]
        simp only [List.append_assoc] at once ⊢
        exact once.trans ((moved.append_left _).append_left _)
      · intro other present
        rcases List.mem_append.mp present with before | later
        · exact account.fills other (others other (List.mem_append_left _ before))
        rcases List.mem_cons.mp later with rfl | behind
        · have here : call ∈ state.calls := running ▸ List.mem_append_right _ List.mem_cons_self
          exact (account.fills call here).answered asks bound
        · exact account.fills other (others other (List.mem_append_right _ behind))
      · intro single
        have alone : ∀ other ∈ front ++ call.answered request program taken :: back,
            call.consumer = other.consumer := fun other present =>
          single (call.answered request program taken)
            (List.mem_append_right _ List.mem_cons_self) other present
        have sameConsumer : ∀ other ∈ state.calls, call.consumer = other.consumer := by
          intro other present
          rw [running] at present
          rcases List.mem_append.mp present with before | later
          · exact alone other (List.mem_append_left _ before)
          rcases List.mem_cons.mp later with rfl | behind
          · rfl
          · exact alone other (List.mem_append_right _ (List.mem_cons_of_mem _ behind))
        obtain rfl := account.unfinished_alone running unfinished sameConsumer
        have ordered := account.ordered fun one present other present' =>
          (sameConsumer one present).symm.trans (sameConsumer other present')
        have further := ordered.trans removes
        change Parts state.accepted (List.flatMap _ _) rest
        rw [receivedAfter]
        simpa [received] using further

end Accounted

/-- Producers and consumers keep their traffic accounted. -/
def accounts (Consumer Producer α : Type) [DecidableEq Producer] :
    (system Consumer Producer α).Invariant where
  Holds _ state := state.Accounted
  initial := by
    rintro _ rfl
    exact ⟨.refl _, nofun, .nil, fun _ _ => rfl⟩
  preserved := by
    rintro _ state event next account step
    cases event with
    | enqueue producer element accepted => exact account.enqueue step
    | call consumer method buffer => exact account.call step
    | request consumer taken => exact account.request step

/-- However producers and consumers interleave, every state reached delivers. -/
theorem always_delivers (Consumer Producer α : Type) [DecidableEq Producer]
    (events : List (QueueEvent Consumer Producer α)) :
    (system Consumer Producer α).Always (fun _ state => state.Delivers) events :=
  fun _ run => ((accounts Consumer Producer α).of_runs run).delivers

end Traffic

end Traft.ConcurrentQueueV1
