import Traft.ConcurrentQueue.BlockingRun
import Traft.ConcurrentQueue.Queue

/-!
# The blocking queue between operations

With no other thread inside it, the blocking queue is the queue of elements it
holds: its size is their number, and a bulk dequeue takes as many of them as there
are, up to the size asked for.
-/

namespace Traft.Moodycamel

open Traft.Semantics LightweightSemaphore

variable {S : Type}

/-- Where `tryWaitMany` is, at a count nobody else changes. -/
def Trying (count : Nat) (max : Nat) (semaphore : LightweightSemaphore S) : Point → Prop
  | .load got => got = 0 ∧ semaphore.count = count
  | .exchange got oldCount _ => got = 0 ∧ oldCount = count ∧ semaphore.count = count
  | .done result => result = (min max count : Nat)
  | _ => False

/-- Before another round there are permits to take, or there is nothing. -/
theorem Trying.tried {count max : Nat} {semaphore : LightweightSemaphore S}
    (same : semaphore.count = count) : Trying count max semaphore
      ((Method.tryWaitMany max).tried semaphore.maxSpins 0 semaphore.count) := by
  unfold Method.tried
  split
  · exact ⟨rfl, same, same⟩
  · rename_i none
    have empty : count = 0 := by omega
    rw [if_neg (fun waits => Bool.false_ne_true waits.2)]
    change (0 : Int) = _
    rw [empty, Nat.min_zero]
    rfl

variable [FiberSemaphore S]

/-- `tryWaitMany` alone takes as many permits as there are, up to its maximum. -/
theorem Trying.advance {count max : Nat} {gives : Bool} {semaphore next : LightweightSemaphore S}
    {point after : Point} (trying : Trying count max semaphore point)
    (moves : advance gives semaphore (.tryWaitMany max) point = some (next, after)) :
    Trying count max next after := by
  cases point with
  | load got =>
      obtain ⟨rfl, same⟩ := trying
      obtain ⟨rfl, rfl⟩ := Prod.mk.inj (Option.some.inj moves)
      exact Trying.tried same
  | exchange got oldCount positive =>
      obtain ⟨rfl, rfl, same⟩ := trying
      simp only [LightweightSemaphore.advance] at moves
      split at moves
      · obtain ⟨rfl, rfl⟩ := Prod.mk.inj (Option.some.inj moves)
        simp only [Trying, Method.newCount]
        split <;> omega
      · obtain ⟨rfl, rfl⟩ := Prod.mk.inj (Option.some.inj moves)
        exact Trying.tried same
  | done result => cases moves
  | _ => exact trying.elim

/-- `try_dequeue_bulk` asks for permits once. -/
theorem Task.granted_bulk {Producer α : Type} (max : Nat) (result : Int) :
    (Task.granted (.tryDequeueBulk max) result : Task Producer α) =
      .draining (.tryDequeueBulk max) result.toNat [] :=
  if_neg fun again => Bool.false_ne_true again.1

namespace BlockingConcurrentQueue

variable {ι Producer α : Type} [DecidableEq ι] [DecidableEq Producer]

/-- The events of a thread in `try_dequeue_bulk`. -/
def Event.InBulk (thread : ι) (max : Nat) : Event ι Producer α → Prop
  | .dequeue other method => other = thread ∧ method = .tryDequeueBulk max
  | .operate other _ | .acquire other _ | .granted other _ _ | .drain other _
  | .leave other _ _ => other = thread
  | _ => False

/-- How far a thread that goes on alone is with `try_dequeue_bulk`. -/
def InBulk (start : BlockingConcurrentQueue S ι Producer α) (thread : ι) (max : Nat)
    (state : BlockingConcurrentQueue S ι Producer α) : Task Producer α → Prop
  | .idle => state.inner = start.inner ∧ state.sema.semaphore.count = start.inner.length
  | .calling method => method = .tryDequeueBulk max ∧ state.inner = start.inner ∧
      state.sema.semaphore.count = start.inner.length
  | .acquiring method => method = .tryDequeueBulk max ∧ state.inner = start.inner ∧
      ∃ point, state.sema.places thread = some (.tryWaitMany max, point) ∧
        Trying start.inner.length max state.sema.semaphore point
  | .draining method left removed => method = .tryDequeueBulk max ∧
      left + removed.length = min max start.inner.length ∧ Parts start.inner removed state.inner
  | .enqueueing _ => False

section Alone

variable [Fintype ι] {maxSpins : Nat} {history events : List (Event ι Producer α)}
  {start state next : BlockingConcurrentQueue S ι Producer α} {thread : ι} {max : Nat}

/-- A thread inside the semaphore is at its permits. -/
theorem InBulk.operate {gives : Bool} {sema : Contention S ι}
    (account : state.Accounted maxSpins history)
    (here : InBulk start thread max state (state.tasks thread))
    (moves : Contention.Step state.sema (.advance thread gives) sema) :
    InBulk start thread max { state with sema } (state.tasks thread) := by
  cases moves with
  | advance _ at_point moves =>
      have inside : ¬ (state.tasks thread).Outside := by
        intro is_outside
        have nowhere := account.outside thread is_outside
        rw [at_point] at nowhere
        cases nowhere
      cases task : state.tasks thread with
      | enqueueing count =>
          rw [task] at here
          exact here
      | acquiring method =>
          rw [task] at here
          obtain ⟨rfl, same, point', there, trying⟩ := here
          rw [at_point] at there
          cases there
          exact ⟨rfl, same, _, Function.update_self .., trying.advance moves⟩
      | idle =>
          rw [task] at inside
          exact absurd trivial inside
      | calling method =>
          rw [task] at inside
          exact absurd trivial inside
      | draining method left removed =>
          rw [task] at inside
          exact absurd trivial inside

/-- Alone, a thread gets on with its bulk dequeue until it returns. -/
theorem InBulk.step {event : Event ι Producer α} (account : state.Accounted maxSpins history)
    (here : InBulk start thread max state (state.tasks thread)) (only : event.InBulk thread max)
    (goesOn : ∀ method removed, event ≠ .leave thread method removed)
    (step : Step state event next) : InBulk start thread max next (next.tasks thread) := by
  cases step with
  | enqueue => exact only.elim
  | refuse => exact only.elim
  | enqueued => exact only.elim
  | operate moves =>
      obtain rfl : _ = thread := only
      exact here.operate account moves
  | dequeue method idle =>
      obtain ⟨rfl, rfl⟩ := only
      rw [idle] at here
      simp only [assign_self]
      exact ⟨rfl, here⟩
  | acquire at_task calls =>
      obtain rfl : _ = thread := only
      rw [at_task] at here
      simp only [assign_self]
      obtain ⟨rfl, same, count⟩ := here
      cases calls with
      | call => exact ⟨rfl, same, _, Function.update_self .., rfl, count⟩
  | granted at_task returned =>
      obtain rfl : _ = thread := only
      rw [at_task] at here
      simp only [assign_self]
      obtain ⟨rfl, same, point, there, trying⟩ := here
      cases returned with
      | finish at_point =>
          rw [at_point] at there
          cases there
          change _ = ((min max start.inner.length : Nat) : Int) at trying
          rw [Task.granted_bulk, trying]
          refine ⟨rfl, ?_, ?_⟩
          · rw [List.length_nil, Int.toNat_natCast, Nat.add_zero]
          · rw [same]
            exact Parts.append [] start.inner
  | drain at_task wanted bound removes =>
      obtain rfl : _ = thread := only
      rw [at_task] at here
      simp only [assign_self]
      obtain ⟨rfl, length, parts⟩ := here
      refine ⟨rfl, ?_, parts.trans removes⟩
      rw [List.length_append]
      omega
  | leave =>
      obtain rfl : _ = thread := only
      exact absurd rfl (goesOn _ _)

end Alone

/-- A queue where one thread goes on alone with a bulk dequeue. -/
def bulkAlone (start : BlockingConcurrentQueue S ι Producer α) (maxSpins : Nat) (thread : ι)
    (max : Nat) : StepSystem (Event ι Producer α) :=
  ((system S ι Producer α maxSpins).startingAt start).restrict (Event.InBulk thread max)

/-- Along its run, that thread gets on. -/
def getsOn [Fintype ι] {maxSpins : Nat} {history : List (Event ι Producer α)}
    {start : BlockingConcurrentQueue S ι Producer α} (account : start.Accounted maxSpins history)
    (idle : ∀ other, start.tasks other = .idle) (thread : ι) (max : Nat) :
    (start.bulkAlone maxSpins thread max).Invariant where
  Holds events state := Accounted maxSpins (history ++ events) state ∧
    ((∀ method removed, Event.leave thread method removed ∉ events) →
      InBulk start thread max state (state.tasks thread))
  initial := by
    intro state first
    have same : state = start := first
    rw [same, List.append_nil, idle]
    exact ⟨account, fun _ => ⟨rfl, account.idle_count idle⟩⟩
  preserved := by
    rintro events state event next ⟨account, here⟩ ⟨only, step⟩
    refine ⟨?_, fun goesOn => ?_⟩
    · rw [← List.append_assoc]
      exact account.step step
    · have before : ∀ method removed, Event.leave thread method removed ∉ events :=
        fun method removed present => goesOn method removed (List.mem_append_left _ present)
      refine (here before).step account only ?_ step
      rintro method removed rfl
      exact goesOn method removed (List.mem_append_right _ List.mem_cons_self)

end BlockingConcurrentQueue

end Traft.Moodycamel
