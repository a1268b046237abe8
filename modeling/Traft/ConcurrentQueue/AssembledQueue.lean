import Traft.ConcurrentQueue.BlockingRefinement
import Traft.ConcurrentQueue.SubQueueFamily

/-!
# The blocking queue over its sub-queues

Both halves of the queue together, down to the atomic operations of each: the
threads that hold permits of the semaphore dequeue from the sub-queues, one after
the other, until they have as many elements. What the model of the blocking queue
assumes of the inner queue is what the sub-queues do.
-/

namespace Traft.Moodycamel

open Traft.Semantics LightweightSemaphore

namespace SubQueue

/-- A thread that has not claimed anything in its call yet. -/
def Point.Unclaimed {α : Type} : Point α → Prop
  | .move .. | .setEmpty .. | .free .. | .done _ => False
  | _ => True

section Claims

variable {α : Type} {traits : Traits} {queue later : SubQueue α} {method : Method}
  {point after : Point α}

/-- Behind a block a thread has claimed something. -/
theorem Point.next_claimed (run : Run) (removed : List α) :
    ¬(run.next traits removed).Unclaimed := by
  unfold Run.next
  split <;> exact id

/-- A thread that has not claimed anything yet had not before, and did not just now. -/
theorem advance_unclaimed (moves : queue.advance traits method point = some (later, after))
    (unclaimed : after.Unclaimed) : point.Unclaimed ∧ point.takes queue = [] := by
  cases point with
  | claim => obtain ⟨⟩ := moves; exact unclaimed.elim
  | move run removed =>
      simp only [advance] at moves
      split at moves
      · obtain ⟨⟩ := moves; exact unclaimed.elim
      · split at moves
        · obtain ⟨⟩ := moves; exact unclaimed.elim
        · cases moves
  | setEmpty run removed =>
      simp only [advance] at moves
      split at moves
      · obtain ⟨⟩ := moves; exact unclaimed.elim
      · obtain ⟨⟩ := moves; exact absurd unclaimed (Point.next_claimed run removed)
  | free run removed => obtain ⟨⟩ := moves; exact absurd unclaimed (Point.next_claimed run removed)
  | done => cases moves
  | _ => exact ⟨trivial, rfl⟩

end Claims

namespace Sharing

variable {ι α : Type} [DecidableEq ι] {traits : Traits} {state next : Sharing ι α}

/-- A thread inside was there before, has just called, or made an operation. -/
theorem Step.inside {event : Event ι α} (step : Step traits state event next) {thread : ι}
    {method : Method} {point : Point α} (here : next.places thread = some (method, point)) :
    (state.places thread = some (method, point) ∧ ∀ taken, event ≠ .advance thread taken) ∨
      event = .call thread method ∨ ∃ earlier taken, state.places thread = some (method, earlier) ∧
        event = .advance thread taken ∧ (point.Unclaimed → earlier.Unclaimed ∧ taken = []) := by
  cases step with
  | construct => exact .inl ⟨here, fun _ => nofun⟩
  | publish => exact .inl ⟨here, fun _ => nofun⟩
  | discard => exact .inl ⟨here, fun _ => nofun⟩
  | call called idle =>
      rcases state.move_cases here with ⟨rfl, moved⟩ | ⟨_, before⟩
      · obtain ⟨⟩ := moved
        exact .inr (.inl rfl)
      · exact .inl ⟨before, fun _ => nofun⟩
  | advance there moves =>
      rcases state.move_cases here with ⟨rfl, moved⟩ | ⟨distinct, before⟩
      · obtain ⟨⟩ := moved
        exact .inr (.inr ⟨_, _, there, rfl, advance_unclaimed moves⟩)
      · refine .inl ⟨before, ?_⟩
        rintro taken operated
        exact distinct (Event.advance.inj operated).1.symm
  | finish there =>
      rcases state.move_cases here with ⟨_, moved⟩ | ⟨_, before⟩
      · cases moved
      · exact .inl ⟨before, fun _ => nofun⟩

/-- A thread that makes an operation is inside. -/
theorem Step.operates {thread : ι} {taken : List α}
    (step : Step traits state (.advance thread taken) next) :
    ∃ method point, state.places thread = some (method, point) ∧
      taken = point.takes state.queue := by
  generalize same : Event.advance thread taken = event at step
  cases step with
  | advance here =>
      obtain ⟨rfl, rfl⟩ := Event.advance.inj same
      exact ⟨_, _, here, rfl⟩
  | _ => cases same

end Sharing

end SubQueue

/-- `BlockingConcurrentQueue`, with the sub-queues of its inner queue. -/
structure AssembledQueue (S ι Producer α : Type) where
  queues : Producer → SubQueue.Sharing ι α
  sema : Contention S ι
  tasks : ι → Task Producer α

namespace AssembledQueue

/-- What a thread does: something inside a sub-queue which leaves the elements that
wait there, an enqueue or a claim, or something outside the sub-queues. -/
inductive Event (ι Producer α : Type) where
  | inside (producer : Producer) (event : SubQueue.Sharing.Event ι α)
  | publish (thread : ι) (producer : Producer) (elements : List α)
  | claim (thread : ι) (producer : Producer) (element : α) (taken : List α)
  | outside (event : BlockingConcurrentQueue.Event ι Producer α)

namespace Event

variable {ι Producer α : Type}

/-- What one sub-queue sees of it. -/
def member [DecidableEq Producer] (producer : Producer) :
    Event ι Producer α → Option (SubQueue.Sharing.Event ι α)
  | .inside other event => if other = producer then some event else none
  | .publish _ other elements => if other = producer then some (.publish elements) else none
  | .claim thread other element taken =>
      if other = producer then some (.advance thread (element :: taken)) else none
  | .outside _ => none

end Event

/-- An event of the blocking queue that leaves the inner queue alone. -/
def Apart {ι Producer α : Type} : BlockingConcurrentQueue.Event ι Producer α → Prop
  | .enqueue _ _ _ accepted => accepted = false
  | .drain .. => False
  | _ => True

/-- A thread which takes elements out of the sub-queues. -/
def Drains {Producer α : Type} : Task Producer α → Prop
  | .draining .. => True
  | _ => False

section Threads

variable {S ι Producer α : Type}

/-- A thread which is inside no sub-queue. -/
def Outside (state : AssembledQueue S ι Producer α) (thread : ι) : Prop :=
  ∀ producer, (state.queues producer).places thread = none

/-- A thread calls a method of a sub-queue for no more elements than it has permits
left. -/
def Calls (state : AssembledQueue S ι Producer α) (thread : ι) (method : SubQueue.Method) : Prop :=
  state.Outside thread ∧ ∃ dequeue left removed,
    state.tasks thread = .draining dequeue left removed ∧ method.limit ≤ left

/-- The blocking queue, with some elements inside. -/
def above (state : AssembledQueue S ι Producer α) (inner : List (Producer × α)) :
    BlockingConcurrentQueue S ι Producer α where
  inner
  sema := state.sema
  tasks := state.tasks

/-- A thread inside a sub-queue is inside no other, and has permits left for all it
may still claim. -/
def Keeps (state : AssembledQueue S ι Producer α) : Prop :=
  ∀ producer thread method point, (state.queues producer).places thread = some (method, point) →
    (∀ other, other ≠ producer → (state.queues other).places thread = none) ∧
      ∃ dequeue left removed, state.tasks thread = .draining dequeue left removed ∧
        (point.Unclaimed → method.limit ≤ left)

variable [DecidableEq ι] [DecidableEq Producer]

/-- Where one sub-queue moved, a thread inside one is still inside no other; it was
inside that one, or has just called. -/
theorem Keeps.moved {traits : Traits} {state : AssembledQueue S ι Producer α}
    {moved : Producer} {event : SubQueue.Sharing.Event ι α} {after : SubQueue.Sharing ι α}
    (keeps : state.Keeps)
    (moves : SubQueue.Sharing.Step traits (state.queues moved) event after)
    (calls : ∀ thread method, event = .call thread method → state.Calls thread method)
    {producer : Producer} {thread : ι} {method : SubQueue.Method} {point : SubQueue.Point α}
    (here : (Function.update state.queues moved after producer).places thread =
      some (method, point)) :
    (∀ other, other ≠ producer →
      (Function.update state.queues moved after other).places thread = none) ∧
      (((state.queues producer).places thread = some (method, point) ∧
          ∀ taken, event ≠ .advance thread taken) ∨
        event = .call thread method ∨ ∃ earlier taken,
          (state.queues producer).places thread = some (method, earlier) ∧
            event = .advance thread taken ∧
              (point.Unclaimed → earlier.Unclaimed ∧ taken = [])) := by
  by_cases own : producer = moved
  · subst own
    rw [Function.update_self] at here
    have before := moves.inside here
    refine ⟨fun other distinct => ?_, before⟩
    rw [Function.update_of_ne distinct]
    rcases before with ⟨same, _⟩ | called | ⟨earlier, _, same, _⟩
    · exact (keeps producer thread method point same).1 other distinct
    · exact (calls thread method called).1 other
    · exact (keeps producer thread method earlier same).1 other distinct
  · rw [Function.update_of_ne own] at here
    have elsewhere := (keeps producer thread method point here).1
    refine ⟨fun other distinct => ?_, .inl ⟨here, ?_⟩⟩
    rotate_left
    · rintro taken rfl
      obtain ⟨_, _, there, _⟩ := moves.operates
      rw [elsewhere moved (Ne.symm own)] at there
      cases there
    by_cases same : other = moved
    · subst same
      rw [Function.update_self]
      -- the thread did not enter the sub-queue that moved
      cases entered : after.places thread with
      | none => rfl
      | some inside =>
          obtain ⟨method', point'⟩ := inside
          have outside := elsewhere other distinct
          rcases moves.inside entered with ⟨there, _⟩ | called | ⟨_, _, there, _⟩
          · rw [outside] at there
            cases there
          · have nowhere := (calls thread method' called).1 producer
            rw [here] at nowhere
            cases nowhere
          · rw [outside] at there
            cases there
    · rw [Function.update_of_ne same]
      exact elsewhere other distinct

end Threads

variable {S ι Producer α : Type} [FiberSemaphore S] [DecidableEq ι] [DecidableEq Producer]

/-- One thread goes on. -/
inductive Step (traits : Traits) : AssembledQueue S ι Producer α →
    Event ι Producer α → AssembledQueue S ι Producer α → Prop where
  | inside {state event after} (producer : Producer) (quiet : event.inner producer = none)
      (calls : ∀ thread method, event = .call thread method → state.Calls thread method)
      (moves : SubQueue.Sharing.Step traits (state.queues producer) event after) :
      Step traits state (.inside producer event)
        { state with queues := Function.update state.queues producer after }
  | publish {state thread elements after sema} (producer : Producer)
      (idle : state.tasks thread = .idle)
      (moves : SubQueue.Sharing.Step traits (state.queues producer) (.publish elements) after)
      (signals : Contention.Step state.sema (.call thread (.signal elements.length)) sema) :
      Step traits state (.publish thread producer elements)
        { queues := Function.update state.queues producer after
          sema
          tasks := Function.update state.tasks thread (.enqueueing elements.length) }
  | claim {state thread element taken after dequeue left removed} (producer : Producer)
      (here : state.tasks thread = .draining dequeue left removed)
      (moves : SubQueue.Sharing.Step traits (state.queues producer)
        (.advance thread (element :: taken)) after) :
      Step traits state (.claim thread producer element taken)
        { state with
          queues := Function.update state.queues producer after
          tasks := Function.update state.tasks thread (.draining dequeue
            (left - (element :: taken).length)
            (removed ++ (element :: taken).map (Prod.mk producer))) }
  | outside {state event sema tasks} (apart : Apart event)
      (leaves : ∀ thread method removed, event = .leave thread method removed →
        state.Outside thread)
      (moves : BlockingConcurrentQueue.Step (state.above []) event ⟨[], sema, tasks⟩) :
      Step traits state (.outside event) { state with sema, tasks }

/-- The runs of a queue that starts empty, with the spins of its semaphore. -/
def system (traits : Traits) (S ι Producer α : Type) [FiberSemaphore S]
    [DecidableEq ι] [DecidableEq Producer] (maxSpins : Nat) : StepSystem (Event ι Producer α) where
  State := AssembledQueue S ι Producer α
  Initial state :=
    (∀ producer, (SubQueue.Sharing.system traits ι α).Initial (state.queues producer)) ∧
      (BlockingConcurrentQueue.system S ι Producer α maxSpins).Initial (state.above [])
  Step := Step traits

/-- Each sub-queue takes the steps it sees, or none. -/
theorem Step.member {traits : Traits} {state next : AssembledQueue S ι Producer α}
    {event : Event ι Producer α} (step : Step traits state event next) (producer : Producer) :
    (SubQueue.Sharing.system traits ι α).Answers (state.queues producer)
      (event.member producer) (next.queues producer) := by
  -- the sub-queue that moved, or another
  have place : ∀ (moved : Producer) (event : SubQueue.Sharing.Event ι α) (after),
      SubQueue.Sharing.Step traits (state.queues moved) event after →
      (SubQueue.Sharing.system traits ι α).Answers (state.queues producer)
        (if moved = producer then some event else none)
        (Function.update state.queues moved after producer) := by
    intro moved event after moves
    split
    · rename_i own
      subst own
      rw [Function.update_self]
      exact moves
    · rename_i other
      rw [Function.update_of_ne (Ne.symm other)]
      exact rfl
  cases step with
  | inside moved _ _ moves => exact place moved _ _ moves
  | publish moved _ moves => exact place moved _ _ moves
  | claim moved _ moves => exact place moved _ _ moves
  | outside => exact rfl

/-- The sub-queues run by what they see. -/
def members (traits : Traits) (S ι Producer α : Type) [FiberSemaphore S] [DecidableEq ι]
    [DecidableEq Producer] (maxSpins : Nat) :
    (system traits S ι Producer α maxSpins).Invariant where
  Holds events state := ∀ producer, (SubQueue.Sharing.system traits ι α).Runs
    (events.filterMap (Event.member producer)) (state.queues producer)
  initial _ valid producer := .initial (valid.1 producer)
  preserved := by
    intro events state event next ran step producer
    rw [filterMap_concat]
    exact (ran producer).answers (Step.member step producer)

/-- No sub-queue has used up half the range of a word. -/
def InRange (state : AssembledQueue S ι Producer α) : Prop :=
  ∀ producer, (state.queues producer).InRange

/-- Outside the sub-queues, a thread that drains goes on to do so until it leaves. -/
theorem draining_kept {queue next : BlockingConcurrentQueue S ι Producer α}
    {event : BlockingConcurrentQueue.Event ι Producer α} (apart : Apart event)
    (step : BlockingConcurrentQueue.Step queue event next) {thread : ι} {dequeue : Dequeue}
    {left : Nat} {removed : List (Producer × α)}
    (here : queue.tasks thread = .draining dequeue left removed)
    (stays : ∀ method removed, event ≠ .leave thread method removed) :
    next.tasks thread = .draining dequeue left removed := by
  have other : ∀ {caller : ι} {task before : Task Producer α}, queue.tasks caller = before →
      ¬ Drains before → queue.assign caller task thread = .draining dequeue left removed := by
    intro caller task before there elsewhere
    have distinct : thread ≠ caller := by
      rintro rfl
      obtain rfl := there.symm.trans here
      exact elsewhere trivial
    rw [BlockingConcurrentQueue.assign, Function.update_of_ne distinct]
    exact here
  cases step with
  | enqueue => cases apart
  | refuse => exact here
  | operate => exact here
  | enqueued there => exact other there id
  | dequeue _ there => exact other there id
  | acquire there => exact other there id
  | granted there => exact other there id
  | drain => exact apart.elim
  | @leave caller _ _ there =>
      have distinct : thread ≠ caller := by
        rintro rfl
        exact stays _ _ rfl
      exact (Function.update_of_ne distinct ..).trans here

/-- Threads keep to one sub-queue at a time, and to their permits. -/
theorem Keeps.step {traits : Traits} {state next : AssembledQueue S ι Producer α}
    {event : Event ι Producer α} (keeps : state.Keeps) (step : Step traits state event next) :
    next.Keeps := by
  intro producer thread method point here
  cases step with
  | inside moved quiet calls moves =>
      obtain ⟨elsewhere, ⟨same, _⟩ | called | ⟨earlier, _, same, _, unclaimed⟩⟩ :=
        keeps.moved moves calls here
      · exact ⟨elsewhere, (keeps producer thread method point same).2⟩
      · obtain ⟨_, dequeue, left, removed, draining, within⟩ := calls thread method called
        exact ⟨elsewhere, dequeue, left, removed, draining, fun _ => within⟩
      · obtain ⟨_, dequeue, left, removed, draining, within⟩ :=
          keeps producer thread method earlier same
        exact ⟨elsewhere, dequeue, left, removed, draining, fun pending =>
          within (unclaimed pending).1⟩
  | @publish caller elements after sema moved idle moves =>
      obtain ⟨elsewhere, ⟨same, _⟩ | called | ⟨_, _, _, operated, _⟩⟩ :=
        keeps.moved moves (fun _ _ => nofun) here
      · obtain ⟨_, dequeue, left, removed, draining, within⟩ :=
          keeps producer thread method point same
        have distinct : thread ≠ caller := by
          rintro rfl
          rw [idle] at draining
          cases draining
        refine ⟨elsewhere, dequeue, left, removed, ?_, within⟩
        exact (Function.update_of_ne distinct ..).trans draining
      · cases called
      · cases operated
  | @claim caller element taken after dequeue left removed moved there moves =>
      obtain ⟨elsewhere, ⟨same, still⟩ | called | ⟨_, _, same, operated, unclaimed⟩⟩ :=
        keeps.moved moves (fun _ _ => nofun) here
      · obtain ⟨_, dequeue', left', removed', draining, within⟩ :=
          keeps producer thread method point same
        have distinct : thread ≠ caller := by
          rintro rfl
          exact still _ rfl
        refine ⟨elsewhere, dequeue', left', removed', ?_, within⟩
        exact (Function.update_of_ne distinct ..).trans draining
      · cases called
      · -- the thread that made the claim will make no other in its call
        obtain ⟨rfl, rfl⟩ := SubQueue.Sharing.Event.advance.inj operated
        refine ⟨elsewhere, dequeue, _, _, Function.update_self .., fun pending => ?_⟩
        cases (unclaimed pending).2
  | outside apart leaves moves =>
      obtain ⟨elsewhere, dequeue, left, removed, draining, within⟩ :=
        keeps producer thread method point here
      refine ⟨elsewhere, dequeue, left, removed, ?_, within⟩
      apply draining_kept apart moves draining
      rintro left' removed' rfl
      have nowhere := leaves thread left' removed' rfl producer
      rw [here] at nowhere
      cases nowhere

variable [Fintype ι]

end AssembledQueue

end Traft.Moodycamel
