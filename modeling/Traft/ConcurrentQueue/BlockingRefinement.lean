import Traft.ConcurrentQueue.BlockingRun
import Traft.ConcurrentQueue.Budget
import Traft.ConcurrentQueue.Delivery

/-!
# The blocking queue as one atomic container

A method of the blocking queue takes its elements out one request after another,
but to its callers it is as if it took them all when it returns. For any number
of consumers the container is a bag; for one consumer it keeps the order of each
producer, which is what the wrapper's requests rely on.
-/

namespace Traft.Moodycamel

open Traft.Semantics LightweightSemaphore

/-- What callers see: elements that were put in, and the answers to methods. -/
inductive Served (Producer α : Type) where
  | put (elements : List (Producer × α))
  | answer (method : Dequeue) (removed : List (Producer × α))

/-- The elements a method may be answered with by a bag: some that are there, no
more than it asks for, and one at least if it waits forever. -/
inductive Bag.Step {Producer α : Type} :
    Multiset (Producer × α) → Served Producer α → Multiset (Producer × α) → Prop where
  | put (bag) (elements) : Step bag (.put elements) (bag + elements)
  | answer {rest} (method) (removed : List (Producer × α))
      (returns : method.acquire.Returns removed.length) :
      Step ((removed : Multiset (Producer × α)) + rest) (.answer method removed) rest

/-- The runs of a bag that starts empty. -/
def Bag.system (Producer α : Type) : StepSystem (Served Producer α) where
  State := Multiset (Producer × α)
  Initial bag := bag = 0
  Step := Bag.Step

/-- A queue answers with elements that come first for their producers. -/
inductive Fifo.Step {Producer α : Type} [DecidableEq Producer] :
    List (Producer × α) → Served Producer α → List (Producer × α) → Prop where
  | put (queue) (elements) : Step queue (.put elements) (queue ++ elements)
  | answer {queue removed rest} (method) (returns : method.acquire.Returns removed.length)
      (removes : Parts queue removed rest) : Step queue (.answer method removed) rest

/-- The runs of a queue that starts empty. -/
def Fifo.system (Producer α : Type) [DecidableEq Producer] : StepSystem (Served Producer α) where
  State := List (Producer × α)
  Initial queue := queue = []
  Step := Fifo.Step

namespace BlockingConcurrentQueue

variable {S ι Producer α : Type} [FiberSemaphore S] [Fintype ι] [DecidableEq ι]
  [DecidableEq Producer]

/-- What callers see of an event. -/
def Event.served : Event ι Producer α → Option (Served Producer α)
  | .enqueue _ producer elements true =>
      some (.put (elements.map fun element => (producer, element)))
  | .leave _ method removed => some (.answer method removed)
  | _ => none

/-- A bag holds the elements of the inner queue and those in some hand. -/
def bag (state : BlockingConcurrentQueue S ι Producer α) : Multiset (Producer × α) :=
  state.hands + state.inner

/-- A step that callers do not see leaves the bag as it is, and the others are
steps of the bag. -/
theorem Step.bag {maxSpins : Nat} {events : List (Event ι Producer α)}
    {state next : BlockingConcurrentQueue S ι Producer α} {event : Event ι Producer α}
    (account : state.Accounted maxSpins events) (step : Step state event next) :
    (Bag.system Producer α).Answers state.bag event.served next.bag := by
  unfold BlockingConcurrentQueue.bag
  cases step with
  | enqueue producer elements idle =>
      simp only [hands, ← Multiset.coe_add, state.hands_kept idle (.enqueueing _) rfl, ← add_assoc]
      exact .put _ _
  | refuse => exact rfl
  | operate => exact rfl
  | enqueued here =>
      simp only [hands, state.hands_kept here .idle rfl]
      exact rfl
  | dequeue method idle =>
      simp only [hands, state.hands_kept idle (.calling _) rfl]
      exact rfl
  | acquire here =>
      simp only [hands, state.hands_kept here (.acquiring _) rfl]
      exact rfl
  | granted here =>
      simp only [hands, state.hands_kept here _ (Task.hand_granted _ _)]
      exact rfl
  | @drain thread method left removed out _ here _ _ removes =>
      have grown := state.hands_grown here (.draining method (left - out.length) (removed ++ out)) rfl
      have whole : (state.inner : Multiset (Producer × α)) = out + _ :=
        (Multiset.coe_eq_coe.mpr removes.perm).trans (Multiset.coe_add _ _).symm
      simp only [hands, grown, add_assoc, ← whole]
      exact rfl
  | @leave thread method removed here =>
      have moved := (state.hands_assign here .idle).trans (add_zero _)
      have returns := account.budgets _ _ _ _ here
      rw [Int.ofNat_zero, Int.zero_add] at returns
      rw [← moved, add_comm (total _ _), add_assoc]
      exact .answer method removed returns

/-- Only `consumer` calls dequeuing methods. -/
def Event.ByConsumer (consumer : ι) : Event ι Producer α → Prop
  | .dequeue thread _ => thread = consumer
  | _ => True

/-- With one consumer, the queue callers see consists of the elements that
consumer has in hand and of the inner queue. -/
structure Parted (maxSpins : Nat) (consumer : ι) (events : List (Event ι Producer α))
    (state : BlockingConcurrentQueue S ι Producer α) (queue : List (Producer × α)) : Prop where
  account : state.Accounted maxSpins events
  others : ∀ thread, thread ≠ consumer → Task.Produces (state.tasks thread)
  parts : Parts queue (state.tasks consumer).hand state.inner

namespace Parted

variable {maxSpins : Nat} {consumer : ι} {events : List (Event ι Producer α)}
  {state next : BlockingConcurrentQueue S ι Producer α} {queue : List (Producer × α)}

/-- Another thread does not dequeue, so a thread that does is the consumer. -/
theorem eq_consumer (parted : Parted maxSpins consumer events state queue) {thread : ι}
    {task : Task Producer α} (here : state.tasks thread = task) (dequeues : ¬ Task.Produces task) :
    thread = consumer := by
  by_contra distinct
  exact dequeues (here ▸ parted.others thread distinct)

/-- A thread that begins or ends to enqueue is as good as idle. -/
theorem assign_producing (parted : Parted maxSpins consumer events state queue) {thread : ι}
    {before : Task Producer α} (here : state.tasks thread = before) (task : Task Producer α)
    (produced : Task.Produces before) (produces : Task.Produces task) :
    (∀ other, other ≠ consumer → Task.Produces (state.assign thread task other)) ∧
      (state.assign thread task consumer).hand = (state.tasks consumer).hand := by
  subst here
  constructor
  · intro other distinct
    by_cases same : other = thread
    · rw [same, assign, Function.update_self]
      exact produces
    · rw [assign, Function.update_of_ne same]
      exact parted.others other distinct
  · by_cases same : consumer = thread
    · rw [same, assign, Function.update_self, produces.hand, produced.hand]
    · rw [assign, Function.update_of_ne same]

/-- The consumer may do what it likes. -/
theorem assign_consumer (parted : Parted maxSpins consumer events state queue)
    (task : Task Producer α) :
    (∀ other, other ≠ consumer → Task.Produces (state.assign consumer task other)) ∧
      (state.assign consumer task consumer).hand = task.hand := by
  refine ⟨?_, congrArg Task.hand (Function.update_self ..)⟩
  intro other distinct
  rw [assign, Function.update_of_ne distinct]
  exact parted.others other distinct

/-- Callers see a step of the queue, or none. -/
theorem step (parted : Parted maxSpins consumer events state queue) {event : Event ι Producer α}
    (step : Step state event next) (allowed : event.ByConsumer consumer) :
    ∃ after, (Fifo.system Producer α).Answers queue event.served after ∧
      Parted maxSpins consumer (events ++ [event]) next after := by
  have account := parted.account.step step
  have parts := parted.parts
  cases step with
  | enqueue producer elements idle =>
      obtain ⟨others, hand⟩ := parted.assign_producing idle (.enqueueing elements.length)
        trivial trivial
      exact ⟨_, Fifo.Step.put _ _, account, others, hand ▸ parts.append_right _⟩
  | refuse => exact ⟨queue, rfl, account, parted.others, parts⟩
  | operate => exact ⟨queue, rfl, account, parted.others, parts⟩
  | enqueued here =>
      obtain ⟨others, hand⟩ := parted.assign_producing here .idle trivial trivial
      exact ⟨queue, rfl, account, others, hand ▸ parts⟩
  | dequeue method idle =>
      obtain rfl : _ = consumer := allowed
      obtain ⟨others, hand⟩ := parted.assign_consumer (.calling method)
      rw [idle] at parts
      exact ⟨queue, rfl, account, others, hand ▸ parts⟩
  | acquire here =>
      obtain rfl := parted.eq_consumer here id
      obtain ⟨others, hand⟩ := parted.assign_consumer (.acquiring _)
      rw [here] at parts
      exact ⟨queue, rfl, account, others, hand ▸ parts⟩
  | granted here =>
      obtain rfl := parted.eq_consumer here id
      obtain ⟨others, hand⟩ := parted.assign_consumer (.granted _ _)
      rw [Task.hand_granted] at hand
      rw [here] at parts
      exact ⟨queue, rfl, account, others, hand ▸ parts⟩
  | drain here _ _ removes =>
      obtain rfl := parted.eq_consumer here id
      obtain ⟨others, hand⟩ := parted.assign_consumer (.draining _ _ _)
      rw [here] at parts
      exact ⟨queue, rfl, account, others, hand ▸ parts.trans removes⟩
  | leave here =>
      obtain rfl := parted.eq_consumer here id
      obtain ⟨others, hand⟩ := parted.assign_consumer .idle
      have returns := parted.account.budgets _ _ _ _ here
      rw [Int.ofNat_zero, Int.zero_add] at returns
      rw [here] at parts
      exact ⟨state.inner, Fifo.Step.answer _ returns parts, account, others,
        hand ▸ Parts.append [] state.inner⟩

end Parted

end BlockingConcurrentQueue

end Traft.Moodycamel
