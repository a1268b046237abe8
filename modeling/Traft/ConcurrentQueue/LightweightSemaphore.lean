import Mathlib.Data.Nat.Notation
import Mathlib.Order.Lattice

/-!
# The semaphore in front of the queue

The methods of `LightweightSemaphore`, cut where one of its atomic operations is
made: a `Point` is what a thread does next, and `advance` makes that operation
and goes on to the next one. The semaphore keeps a count of permits, below zero
by the threads that block, beside a fiber semaphore on which they do.
-/

namespace Traft.Moodycamel

/-- What is relied on of `trpc::FiberSemaphore`: `Post` adds one to a count, and
`TryWait`, or a `Wait` that comes to its end, takes one from it. -/
class FiberSemaphore (S : Type) where
  value : S → Nat
  post : S → S
  tryWait : S → Option S
  value_post : ∀ sema, value (post sema) = value sema + 1
  value_tryWait : ∀ {sema rest}, tryWait sema = some rest → value sema = value rest + 1
  value_zero : ∀ {sema}, tryWait sema = none → value sema = 0

/-- A counter is such a semaphore. -/
instance : FiberSemaphore Nat where
  value count := count
  post count := count + 1
  tryWait
    | 0 => none
    | count + 1 => some count
  value_post _ := rfl
  value_tryWait {sema} _ taken := by
    cases sema with
    | zero => cases taken
    | succ count =>
        obtain rfl := Option.some.inj taken
        rfl
  value_zero {sema} failed := by
    cases sema with
    | zero => rfl
    | succ count => cases failed

/-- `LightweightSemaphore`. -/
structure LightweightSemaphore (S : Type) where
  count : Int
  sema : S
  maxSpins : Nat

namespace LightweightSemaphore

/-- The public methods which change the semaphore, with the arguments their
asserts allow. -/
inductive Method where
  | tryWait
  | wait (timeout : Int)
  | tryWaitMany (max : Nat)
  | waitMany (max : Nat) (timeout : Int)
  | signal (count : Nat)

/-- Where a thread is inside a method, before the atomic operation it makes next.
`got` is what it has taken already and returns with the rest. -/
inductive Point where
  /-- the load before the loop of `tryWait` and `tryWaitMany` -/
  | load (got : Int)
  /-- the weak exchange in that loop -/
  | exchange (got oldCount : Int) (positive : 0 < oldCount)
  /-- the spinning loop of a wait, with the rounds it has left -/
  | spin (left : Nat)
  /-- the strong exchange in that loop -/
  | spinExchange (left : Nat) (oldCount : Int) (positive : 0 < oldCount)
  /-- the `fetch_sub` behind that loop -/
  | subtract
  /-- `m_sema.wait()` or `m_sema.timed_wait(timeout_usecs)` -/
  | block
  /-- the load at the top of the loop which re-adjusts the count -/
  | recheck
  /-- `m_sema.try_wait()` in that loop -/
  | tryPosted
  /-- the strong exchange in that loop -/
  | giveUp (oldCount : Int) (negative : oldCount < 0)
  /-- the `fetch_add` of `signal` -/
  | add (count : Nat)
  /-- the loop of `m_sema.signal(toRelease)`, with the posts it has left -/
  | post (left : Nat)
  | done (result : Int)

namespace Method

/-- The most a method takes. -/
def max : Method → Nat
  | .tryWait => 1
  | .wait _ => 1
  | .tryWaitMany max => max
  | .waitMany max _ => max
  | .signal _ => 0

/-- Whether a method that found no permit goes on to spin and to block. -/
def waits : Method → Bool
  | .wait _ => true
  | .waitMany max _ => decide (max > 0)
  | _ => false

/-- How long a method is ready to block, in microseconds, and forever if that is
negative. -/
def timeout : Method → Int
  | .wait timeout => timeout
  | .waitMany _ timeout => timeout
  | _ => 0

/-- The count an exchange stores over `oldCount`, for a method that has taken
`got` already. -/
def newCount (method : Method) (got oldCount : Int) : Int :=
  match method with
  | .tryWait | .wait _ => oldCount - 1
  | .tryWaitMany max | .waitMany max _ =>
      if oldCount > max - got then oldCount - (max - got) else 0
  | .signal _ => oldCount

/-- The first operation of a method. -/
def start : Method → Point
  | .signal count => .add count
  | _ => .load 0

/-- Behind the last round of `tryWait` or `tryWaitMany`, which returns what it has
unless it is the first part of a wait. -/
def tried (method : Method) (maxSpins : Nat) (got oldCount : Int) : Point :=
  if positive : 0 < oldCount then .exchange got oldCount positive
  else if got = 0 ∧ method.waits then .spin maxSpins
  else .done got

/-- With the one permit a wait was given: `waitMany` tries to get the rest. -/
def gained (method : Method) : Point :=
  if method.max > 1 then .load 1 else .done 1

end Method

/-- `toRelease` of `signal`, which has found `oldCount` and adds `count`. -/
def toRelease (oldCount count : Int) : Int := if -oldCount < count then -oldCount else count

variable {S : Type} [FiberSemaphore S]

/-- The next atomic operation of a method. `gives` tells whether a weak exchange
succeeds, which it may fail to do for no reason, and whether a timed wait gets a
post before its time is up. There is no next operation for a method that has
returned, nor for one that waits forever where nothing was posted. -/
def advance (gives : Bool) (semaphore : LightweightSemaphore S) (method : Method) :
    Point → Option (LightweightSemaphore S × Point)
  | .load got => some (semaphore, method.tried semaphore.maxSpins got semaphore.count)
  | .exchange got oldCount _ =>
      if semaphore.count = oldCount ∧ gives then
        some ({ semaphore with count := method.newCount got oldCount },
          .done (got + (oldCount - method.newCount got oldCount)))
      else
        -- a failed exchange loads the count
        some (semaphore, method.tried semaphore.maxSpins got semaphore.count)
  | .spin 0 => some (semaphore, .subtract)
  | .spin (left + 1) =>
      if positive : 0 < semaphore.count then
        some (semaphore, .spinExchange left semaphore.count positive)
      else some (semaphore, .spin left)
  | .spinExchange left oldCount _ =>
      if semaphore.count = oldCount then
        some ({ semaphore with count := method.newCount 0 oldCount },
          .done (oldCount - method.newCount 0 oldCount))
      else some (semaphore, .spin left)
  | .subtract =>
      some ({ semaphore with count := semaphore.count - 1 },
        if 0 < semaphore.count then method.gained
        else if method.timeout = 0 then .recheck
        else .block)
  | .block =>
      match FiberSemaphore.tryWait semaphore.sema with
      | some sema =>
          if method.timeout < 0 ∨ gives then some ({ semaphore with sema }, method.gained)
          else some (semaphore, .recheck)
      | none => if method.timeout < 0 then none else some (semaphore, .recheck)
  | .recheck =>
      if negative : semaphore.count < 0 then
        some (semaphore, .giveUp semaphore.count negative)
      else some (semaphore, .tryPosted)
  | .tryPosted =>
      match FiberSemaphore.tryWait semaphore.sema with
      | some sema => some ({ semaphore with sema }, method.gained)
      | none => some (semaphore, .recheck)
  | .giveUp oldCount _ =>
      if semaphore.count = oldCount then
        some ({ semaphore with count := oldCount + 1 }, .done 0)
      else some (semaphore, .recheck)
  | .add count =>
      some ({ semaphore with count := semaphore.count + count },
        if toRelease semaphore.count count > 0 then .post (toRelease semaphore.count count).toNat
        else .done 0)
  | .post 0 => some (semaphore, .done 0)
  | .post (left + 1) =>
      some ({ semaphore with sema := FiberSemaphore.post semaphore.sema }, .post left)
  | .done _ => none

/-- `availableApprox`. -/
def availableApprox (semaphore : LightweightSemaphore S) : Nat :=
  if semaphore.count > 0 then semaphore.count.toNat else 0

end LightweightSemaphore

end Traft.Moodycamel
