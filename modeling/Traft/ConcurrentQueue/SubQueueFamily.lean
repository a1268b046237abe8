import Traft.ConcurrentQueue.SubQueueElements
import Traft.Semantics.Origin
import Traft.Semantics.Simulation

/-!
# The queue of all producers

`ConcurrentQueue` is a list of sub-queues, one for each producer, and its
dequeuing methods go from one to the other. As one container it keeps the order of
each producer: whatever a method claims from a sub-queue comes first among the
elements of its producer.
-/

namespace Traft.Moodycamel

open Traft.Semantics SubQueue

/-- What happens to the queue of all producers: one of them puts elements in, or
some elements are taken out. -/
inductive Inner.Event (Producer α : Type) where
  | put (producer : Producer) (elements : List α)
  | take (taken : List (Producer × α))

/-- Elements are put in behind the others, and taken out in the order of each
producer. -/
inductive Inner.Step {Producer α : Type} [DecidableEq Producer] :
    List (Producer × α) → Inner.Event Producer α → List (Producer × α) → Prop where
  | put (queue) (producer) (elements : List α) :
      Step queue (.put producer elements) (queue ++ elements.map (Prod.mk producer))
  | take {queue taken rest} (removes : Parts queue taken rest) : Step queue (.take taken) rest

/-- The runs of a queue of all producers that starts empty. -/
def Inner.system (Producer α : Type) [DecidableEq Producer] :
    StepSystem (Inner.Event Producer α) where
  State := List (Producer × α)
  Initial queue := queue = []
  Step := Inner.Step

namespace SubQueue.Sharing

section Member

variable {ι α : Type}

/-- The elements nobody has claimed. -/
def waiting (state : Sharing ι α) : List α := state.queue.elements.drop state.queue.headIndex

variable [Fintype ι] [DecidableEq ι]

/-- An event puts elements in behind those that wait, and takes out the first. -/
theorem Step.waiting {traits : Traits} {state next : Sharing ι α} {event : Event ι α}
    {log : List (Reservation ι)} (reserved : state.Reserved log)
    (step : Step traits state event next) :
    state.waiting ++ event.enqueues = event.takes ++ next.waiting := by
  cases step with
  | publish =>
      have there : state.queue.headIndex ≤ state.queue.elements.length :=
        reserved.stored ▸ reserved.inBounds.head
      exact (List.drop_append_of_le_length there).symm
  | @advance thread method point queue after here moves =>
      obtain ⟨_, _, elements, _⟩ := advance_grows moves
      obtain ⟨_, takes⟩ := advance_head moves
      have whole : state.queue.elements.take state.queue.headIndex ++
          state.queue.elements.drop state.queue.headIndex =
            state.queue.elements.take state.queue.headIndex ++ (point.takes state.queue ++
              state.queue.elements.drop queue.headIndex) := by
        rw [List.take_append_drop, ← List.append_assoc, ← takes, List.take_append_drop]
      unfold Sharing.waiting
      rw [elements, List.append_cancel_left whole]
      exact List.append_nil _
  | construct => exact List.append_nil _
  | discard => exact List.append_nil _
  | call => exact List.append_nil _
  | finish => exact List.append_nil _

end Member

section Family

variable {Producer ι α : Type} [DecidableEq Producer]

/-- What an event is to the queue of all producers. -/
def Event.inner (producer : Producer) : Event ι α → Option (Inner.Event Producer α)
  | .publish elements => some (.put producer elements)
  | .advance _ [] => none
  | .advance _ taken => some (.take (taken.map (Prod.mk producer)))
  | _ => none

/-- A queue holds the elements that wait in the sub-queues. -/
def Gathers (states : Producer → Sharing ι α) (queue : List (Producer × α)) : Prop :=
  ∀ producer, ofOrigin producer queue = (states producer).waiting.map (Prod.mk producer)

/-- What one sub-queue does, the queue does. -/
theorem Gathers.step [Fintype ι] [DecidableEq ι] {traits : Traits}
    {states : Producer → Sharing ι α} {queue : List (Producer × α)} {producer : Producer}
    {event : Event ι α} {after : Sharing ι α} {log : List (Reservation ι)}
    (gathers : Gathers states queue) (reserved : (states producer).Reserved log)
    (step : Step traits (states producer) event after) :
    ∃ next, (Inner.system Producer α).Answers queue (event.inner producer) next ∧
      Gathers (Function.update states producer after) next := by
  have waiting := Step.waiting reserved step
  -- a queue which others see alike and which holds what waits in the one that moved
  have suffices_own : ∀ next : List (Producer × α),
      ofOrigin producer next = after.waiting.map (Prod.mk producer) →
      (∀ other, other ≠ producer → ofOrigin other next = ofOrigin other queue) →
      Gathers (Function.update states producer after) next := by
    intro next own others other
    by_cases same : other = producer
    · rw [same, Function.update_self]
      exact own
    · rw [Function.update_of_ne same, others other same]
      exact gathers other
  have quiet : event.enqueues = [] → event.takes = [] →
      Gathers (Function.update states producer after) queue := by
    intro nothing none
    rw [nothing, none, List.append_nil, List.nil_append] at waiting
    exact suffices_own queue (waiting ▸ gathers producer) fun _ _ => rfl
  cases event with
  | publish elements =>
      refine ⟨queue ++ elements.map (Prod.mk producer), .put queue producer elements, ?_⟩
      apply suffices_own
      · change (states producer).waiting ++ elements = after.waiting at waiting
        rw [ofOrigin_append, gathers producer, ofOrigin_map, if_pos rfl, ← List.map_append, waiting]
      · intro other distinct
        rw [ofOrigin_append, ofOrigin_map, if_neg distinct.symm, List.append_nil]
  | advance thread taken =>
      cases taken with
      | nil => exact ⟨queue, rfl, quiet rfl rfl⟩
      | cons element taken =>
          have own : ofOrigin producer queue =
              (element :: taken).map (Prod.mk producer) ++
                after.waiting.map (Prod.mk producer) := by
            rw [gathers producer, ← List.map_append]
            exact congrArg _ ((List.append_nil _).symm.trans waiting)
          obtain ⟨rest, parts, mine, theirs⟩ := Parts.of_origin own
          exact ⟨rest, .take parts, suffices_own rest mine theirs⟩
  | construct => exact ⟨queue, rfl, quiet rfl rfl⟩
  | discard => exact ⟨queue, rfl, quiet rfl rfl⟩
  | call => exact ⟨queue, rfl, quiet rfl rfl⟩
  | finish => exact ⟨queue, rfl, quiet rfl rfl⟩

variable [Fintype ι] [DecidableEq ι]

/-- The sub-queues keep behaving as one queue. -/
def gathering (traits : Traits) (Producer ι α : Type) [DecidableEq Producer] [Fintype ι]
    [DecidableEq ι] : ((system traits ι α).family Producer).Invariant :=
  ((reservations traits ι α).family Producer).beside (fun states => ∀ key, (states key).InRange)
    (fun events states => ∃ queue, (Inner.system Producer α).Runs
      (events.filterMap fun event => event.2.inner event.1) queue ∧ Gathers states queue)
    (by
      intro states valid
      refine ⟨[], .initial rfl, fun producer => ?_⟩
      rw [valid producer]
      rfl)
    (by
      rintro states event next ⟨after, moved, rfl⟩ small key
      by_cases own : key = event.1
      · subst own
        have later := small event.1
        rw [Function.update_self] at later
        exact Step.inRange moved later
      · have same := small key
        rwa [Function.update_of_ne own] at same)
    (by
      rintro events states ⟨producer, event⟩ next held small ⟨queue, ran, gathers⟩
        ⟨after, moved, rfl⟩
      obtain ⟨log, reserved⟩ := held producer (small producer)
      obtain ⟨queue', answer, gathered⟩ := gathers.step reserved moved
      refine ⟨queue', ?_, gathered⟩
      rw [filterMap_concat]
      exact ran.answers answer)

/-- However producers and consumers interleave, the sub-queues are one queue that
keeps the order of each producer. -/
theorem always_gathers (traits : Traits) (Producer ι α : Type) [DecidableEq Producer] [Fintype ι]
    [DecidableEq ι] (events : List (Producer × Event ι α)) :
    ((system traits ι α).family Producer).Always (fun before states =>
      (∀ producer, (states producer).InRange) →
        ∃ queue, (Inner.system Producer α).Runs
          (before.filterMap fun event => event.2.inner event.1) queue ∧
            Gathers states queue) events := by
  intro before states _ run small
  exact ((gathering traits Producer ι α).of_runs run).2 small

end Family

end SubQueue.Sharing

end Traft.Moodycamel
