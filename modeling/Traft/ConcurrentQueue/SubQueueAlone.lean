import Traft.ConcurrentQueue.SubQueueElements
import Traft.Semantics.Simulation

/-!
# The sub-queue between operations

Every reservation is given back or claimed in the end. With no thread inside, the
counters therefore tell how many elements there are, and a method that runs alone
takes out as many of them as it asks for, or all.
-/

namespace Traft.Moodycamel.SubQueue

open Traft.Semantics

namespace Method

variable {tail overcommit head : Nat}

/-- Where everything is settled, a method reserves what it asks for, or all there is. -/
theorem desiredCount_alone (method : Method) (behind : head ≤ tail) (few : tail - head < 2 ^ 63) :
    method.desiredCount tail overcommit (overcommit + head) =
      if head = tail then none else some (min method.limit (tail - head)) := by
  cases method with
  | dequeue =>
      simp only [Method.desiredCount, circularLessThan, decide_eq_true_eq, Method.limit]
      by_cases empty : head = tail
      · rw [if_pos empty, if_neg (by omega)]
      · rw [if_neg empty, if_pos (by omega)]
        exact congrArg some (by omega)
  | dequeueBulk max positive =>
      simp only [Method.desiredCount, circularLessThan, decide_eq_true_eq, Method.limit]
      by_cases empty : head = tail
      · rw [if_pos empty, if_neg (by omega)]
      · rw [if_neg empty, if_pos (by omega)]
        exact congrArg some (by omega)

/-- It then goes on with all it reserved. -/
theorem actualCount_alone (method : Method) (behind : head < tail) (few : tail - head < 2 ^ 63) :
    method.actualCount tail overcommit (overcommit + head) (min method.limit (tail - head)) =
      min method.limit (tail - head) := by
  cases method with
  | dequeue =>
      simp only [Method.actualCount, circularLessThan, decide_eq_true_eq, Method.limit]
      rw [if_pos (by omega)]
      omega
  | dequeueBulk max positive =>
      simp only [Method.actualCount, circularLessThan, decide_eq_true_eq, Method.limit]
      rw [if_pos (by omega)]
      omega

end Method

namespace Point

variable {α : Type}

/-- The elements a thread has reserved and neither given back nor claimed. -/
def outstanding : Point α → Int
  | .reloadTail _ desiredCount _ => desiredCount
  | .giveBack amount actualCount => amount + actualCount
  | .claim actualCount => actualCount
  | _ => 0

/-- Behind a block a thread has nothing reserved. -/
theorem next_settled (run : Run) (traits : Traits) (removed : List α) :
    (run.next traits removed).outstanding = 0 := by
  unfold Run.next
  split <;> rfl

end Point

/-- The difference between what was reserved and what was given back or claimed. -/
def unsettled {α : Type} (queue : SubQueue α) : Int :=
  queue.dequeueOptimisticCount - queue.dequeueOvercommit - queue.headIndex

section Advance

variable {α : Type} {traits : Traits} {queue later : SubQueue α} {method : Method}
  {point after : Point α}

/-- An operation settles what the thread has outstanding, or adds to it. -/
theorem advance_unsettled (fits : point.Fits traits queue method)
    (moves : queue.advance traits method point = some (later, after)) :
    later.unsettled + point.outstanding = queue.unsettled + after.outstanding := by
  cases point with
  | loadTail => obtain ⟨⟩ := moves; rfl
  | loadOvercommit => obtain ⟨⟩ := moves; rfl
  | loadOptimisticCount =>
      simp only [advance] at moves
      split at moves <;> (obtain ⟨⟩ := moves; rfl)
  | reserve overcommit desiredCount =>
      obtain ⟨⟩ := moves
      simp only [unsettled, Point.outstanding]
      omega
  | reloadTail overcommit desiredCount mine =>
      have part := method.actualCount_le queue.tailIndex overcommit mine fits.1
      simp only [advance] at moves
      split at moves
      · obtain ⟨⟩ := moves
        simp only [Point.outstanding]
        omega
      · obtain ⟨⟩ := moves
        simp only [Point.outstanding]
        omega
  | giveBack amount actualCount =>
      obtain ⟨⟩ := moves
      split
      · simp only [unsettled, Point.outstanding]
        omega
      · simp only [unsettled, Point.outstanding]
        omega
  | claim actualCount =>
      obtain ⟨⟩ := moves
      simp only [unsettled, Point.outstanding]
      omega
  | move =>
      simp only [advance] at moves
      split at moves
      · obtain ⟨⟩ := moves; rfl
      · split at moves
        · obtain ⟨⟩ := moves; rfl
        · cases moves
  | setEmpty run removed =>
      simp only [advance] at moves
      split at moves
      · obtain ⟨⟩ := moves; rfl
      · obtain ⟨⟩ := moves
        rw [Point.next_settled run traits removed]
        rfl
  | free run removed =>
      obtain ⟨⟩ := moves
      rw [Point.next_settled run traits removed]
      rfl
  | done => cases moves

end Advance

namespace Sharing

variable {ι α : Type} [Fintype ι] [DecidableEq ι]

/-- What is unsettled is outstanding with some thread. -/
def Settles (state : Sharing ι α) : Prop :=
  state.queue.unsettled = total (weigh Point.outstanding) state.places

/-- A step settles what it takes off. -/
theorem Settles.step {traits : Traits} {events : List (Event ι α)} {state next : Sharing ι α}
    {event : Event ι α} (settles : state.Settles) (handed : state.Handed traits events)
    (step : Step traits state event next) : next.Settles := by
  unfold Settles at settles ⊢
  cases step with
  | construct => exact settles
  | publish => exact settles
  | discard => exact settles
  | call method idle =>
      rw [move, total_moved idle]
      simp only [weigh, Point.outstanding]
      omega
  | @advance thread method point queue after here moves =>
      have balance := advance_unsettled (handed.fits thread method point here) moves
      rw [move, total_moved here]
      simp only [weigh]
      omega
  | finish here =>
      rw [move, total_moved here]
      simp only [weigh, Point.outstanding]
      omega

/-- Threads keep their reservations settled. -/
def settling (traits : Traits) (ι α : Type) [Fintype ι] [DecidableEq ι] :
    (system traits ι α).Invariant :=
  (handsOut traits ι α).beside InRange (fun _ state => state.Settles)
    (by
      rintro _ rfl
      exact (total_idle Point.outstanding).symm)
    Step.inRange (fun held small settles step => settles.step (held.2 small) step)

section Alone

variable {ι α : Type} [DecidableEq ι]

/-- The events of a thread that calls a method and goes on with it. -/
def Event.Alone (thread : ι) (method : Method) : Event ι α → Prop
  | .call caller called => caller = thread ∧ called = method
  | .advance caller _ => caller = thread
  | _ => False

/-- A sub-queue where one thread goes on alone with a method. -/
def alone (traits : Traits) (start : Sharing ι α) (thread : ι) (method : Method) :
    StepSystem (Event ι α) :=
  ((system traits ι α).startingAt start).restrict (Event.Alone thread method)

end Alone

end Sharing

/-- Where a method is that goes on alone from where everything is settled. -/
def GetsOn {α : Type} (start queue : SubQueue α) (method : Method) : Point α → Prop
  | .loadTail => queue = start
  | .loadOvercommit tail => queue = start ∧ tail = start.tailIndex
  | .loadOptimisticCount tail overcommit =>
      queue = start ∧ tail = start.tailIndex ∧ overcommit = start.dequeueOvercommit
  | .reserve overcommit desiredCount => queue = start ∧ start.headIndex < start.tailIndex ∧
      overcommit = start.dequeueOvercommit ∧
      desiredCount = min method.limit (start.tailIndex - start.headIndex)
  | .reloadTail overcommit desiredCount myDequeueCount =>
      queue.tailIndex = start.tailIndex ∧ queue.headIndex = start.headIndex ∧
      queue.elements = start.elements ∧ start.headIndex < start.tailIndex ∧
      overcommit = start.dequeueOvercommit ∧ myDequeueCount = start.dequeueOptimisticCount ∧
      desiredCount = min method.limit (start.tailIndex - start.headIndex)
  | .giveBack .. => False
  | .claim actualCount => queue.headIndex = start.headIndex ∧ queue.elements = start.elements ∧
      actualCount = min method.limit (start.tailIndex - start.headIndex)
  | point => point.holds queue = (start.elements.drop start.headIndex).take method.limit

namespace GetsOn

variable {α : Type} {traits : Traits} {start queue later : SubQueue α} {method : Method}
  {point after : Point α}

/-- Behind a block only what the method holds matters. -/
theorem next_iff (run : Run) (removed : List α) :
    GetsOn start queue method (run.next traits removed) ↔ (run.next traits removed).holds queue =
      (start.elements.drop start.headIndex).take method.limit := by
  unfold Run.next
  split <;> exact Iff.rfl

/-- A method goes on alone. -/
theorem advance (getsOn : GetsOn start queue method point) (settled : start.unsettled = 0)
    (behind : start.headIndex ≤ start.tailIndex)
    (few : start.tailIndex - start.headIndex < 2 ^ 63)
    (stored : start.elements.length = start.tailIndex) (fits : point.Fits traits queue method)
    (moves : queue.advance traits method point = some (later, after)) :
    GetsOn start later method after := by
  have holds := advance_holds fits moves
  have made : start.dequeueOptimisticCount = start.dequeueOvercommit + start.headIndex := by
    unfold unsettled at settled
    omega
  cases point with
  | loadTail =>
      obtain rfl := getsOn
      obtain ⟨⟩ := moves
      exact ⟨rfl, rfl⟩
  | loadOvercommit tail =>
      obtain ⟨rfl, rfl⟩ := getsOn
      obtain ⟨⟩ := moves
      exact ⟨rfl, rfl, rfl⟩
  | loadOptimisticCount tail overcommit =>
      obtain ⟨rfl, rfl, rfl⟩ := getsOn
      simp only [SubQueue.advance, made, method.desiredCount_alone behind few] at moves
      by_cases empty : queue.headIndex = queue.tailIndex
      · rw [if_pos empty] at moves
        obtain ⟨⟩ := moves
        change [] = _
        rw [List.drop_eq_nil_of_le (by omega), List.take_nil]
      · rw [if_neg empty] at moves
        obtain ⟨⟩ := moves
        exact ⟨rfl, Nat.lt_of_le_of_ne behind empty, rfl, rfl⟩
  | reserve overcommit desiredCount =>
      obtain ⟨rfl, some, rfl, rfl⟩ := getsOn
      obtain ⟨⟩ := moves
      exact ⟨rfl, rfl, rfl, some, rfl, rfl, rfl⟩
  | reloadTail overcommit desiredCount mine =>
      obtain ⟨tail, head, elements, some, rfl, rfl, rfl⟩ := getsOn
      simp only [SubQueue.advance, made, tail, method.actualCount_alone some few,
        Nat.lt_irrefl, if_false] at moves
      obtain ⟨⟩ := moves
      exact ⟨head, elements, rfl⟩
  | giveBack => exact getsOn.elim
  | claim actualCount =>
      obtain ⟨head, elements, rfl⟩ := getsOn
      obtain ⟨⟩ := moves
      refine holds.trans ?_
      change (queue.elements.drop queue.headIndex).take _ = _
      rw [head, elements]
      rcases Nat.le_total method.limit (start.tailIndex - start.headIndex) with less | more
      · rw [Nat.min_eq_left less]
      · have short : (start.elements.drop start.headIndex).length =
            start.tailIndex - start.headIndex := by
          rw [List.length_drop, stored]
        rw [Nat.min_eq_right more, List.take_of_length_le short.le,
          List.take_of_length_le (short.trans_le more)]
  | move run removed =>
      have kept := holds.trans ((List.append_nil _).trans getsOn)
      simp only [SubQueue.advance] at moves
      split at moves
      · obtain ⟨⟩ := moves
        exact kept
      · split at moves
        · obtain ⟨⟩ := moves
          exact kept
        · cases moves
  | setEmpty run removed =>
      have kept := holds.trans ((List.append_nil _).trans getsOn)
      simp only [SubQueue.advance] at moves
      split at moves
      · obtain ⟨⟩ := moves
        exact kept
      · obtain ⟨⟩ := moves
        exact (next_iff run removed).mpr kept
  | free run removed =>
      have kept := holds.trans ((List.append_nil _).trans getsOn)
      obtain ⟨⟩ := moves
      exact (next_iff run removed).mpr kept
  | done => cases moves

end GetsOn

/-- Where there are fewer elements than half the range of a word, `size_approx` tells
how many. -/
theorem sizeApprox_eq {tail head : Nat} (behind : head ≤ tail) (few : tail - head < 2 ^ 63) :
    sizeApprox tail head = tail - head := by
  simp only [sizeApprox, circularLessThan, decide_eq_true_eq]
  split <;> omega

namespace Sharing

variable {ι α : Type} [Fintype ι] [DecidableEq ι]

/-- How far a thread is that goes on alone: it has not called yet, or gets on. -/
def Gets (start state : Sharing ι α) (method : Method) : Option (Method × Point α) → Prop
  | none => state.queue = start.queue
  | some (called, point) => called = method ∧ GetsOn start.queue state.queue method point

/-- Along its run, that thread gets on. -/
def getting {traits : Traits} {history : List (Event ι α)} {start : Sharing ι α}
    (held : (settling traits ι α).Holds history start) (idle : ∀ thread, start.places thread = none)
    (few : start.queue.tailIndex - start.queue.headIndex < 2 ^ 63) (thread : ι) (method : Method) :
    (start.alone traits thread method).Invariant where
  Holds events state := (settling traits ι α).Holds (history ++ events) state ∧
    (state.InRange → start.InRange ∧ start.Gets state method (state.places thread))
  initial := by
    intro state first
    have same : state = start := first
    rw [same, List.append_nil, idle]
    exact ⟨held, fun small => ⟨small, rfl⟩⟩
  preserved := by
    rintro events state event next ⟨held', gets⟩ ⟨only, step⟩
    refine ⟨?_, fun later => ?_⟩
    · rw [← List.append_assoc]
      exact (settling traits ι α).preserved held' step
    · have small := Step.inRange step later
      obtain ⟨earlier, here⟩ := gets small
      obtain ⟨log, reserved⟩ := held.1.1 earlier
      have handed := held'.1.2 small
      refine ⟨earlier, ?_⟩
      cases step with
      | construct => exact only.elim
      | publish => exact only.elim
      | discard => exact only.elim
      | finish => exact only.elim
      | call called nowhere =>
          obtain ⟨rfl, rfl⟩ := only
          rw [nowhere] at here
          simp only [move, Function.update_self]
          exact ⟨rfl, here⟩
      | @advance _ called point queue after there moves =>
          obtain rfl : _ = thread := only
          rw [there] at here
          obtain ⟨rfl, getsOn⟩ := here
          simp only [move, Function.update_self]
          have settled : start.queue.unsettled = 0 := by
            rw [held.2 earlier, funext idle, total_idle]
          exact ⟨rfl, getsOn.advance settled reserved.inBounds.head few reserved.stored
            (handed.fits _ _ _ there) moves⟩

/-- A method that runs alone on a sub-queue between operations takes out the first
elements, as many as it asks for or all there are, and the size of the sub-queue is
the number of its elements. -/
theorem always_alone (traits : Traits) (ι α : Type) [Fintype ι] [DecidableEq ι]
    (events : List (Event ι α)) :
    (system traits ι α).Always (fun _ start => start.InRange →
      (∀ thread, start.places thread = none) →
      start.queue.tailIndex - start.queue.headIndex < 2 ^ 63 →
        sizeApprox start.queue.tailIndex start.queue.headIndex =
          (start.queue.elements.drop start.queue.headIndex).length ∧
        ∀ thread method later final removed, (start.alone traits thread method).Runs later final →
          final.InRange → final.places thread = some (method, .done removed) →
            removed = (start.queue.elements.drop start.queue.headIndex).take method.limit)
      events := by
  intro history start _ run small idle few
  have held := (settling traits ι α).of_runs run
  obtain ⟨log, reserved⟩ := held.1.1 small
  constructor
  · rw [sizeApprox_eq reserved.inBounds.head few, List.length_drop, reserved.stored]
  · intro thread method later final removed ran inRange returned
    obtain ⟨_, gets⟩ := (getting held idle few thread method).of_runs ran
    obtain ⟨_, here⟩ := gets inRange
    rw [returned] at here
    exact here.2

end Sharing

end Traft.Moodycamel.SubQueue
