import Traft.ConcurrentQueue.SemaphoreLedger
import Traft.Semantics.Run
import Traft.Semantics.Threads

/-!
# The semaphore between its threads

Threads call the methods of one `LightweightSemaphore` and make their atomic
operations in any order, over sequentially consistent memory. Whatever the order,
no permit is lost or given twice, and no post is missing for a thread that
waits.
-/

namespace Traft.Moodycamel.LightweightSemaphore

open Traft.Semantics

/-- A semaphore and where each thread is inside its methods. -/
structure Contention (S ι : Type) where
  semaphore : LightweightSemaphore S
  places : ι → Option (Method × Point)

/-- What a thread does: it calls a method, makes an operation of it, or returns
from it. -/
inductive Event (ι : Type) where
  | call (thread : ι) (method : Method)
  | advance (thread : ι) (gives : Bool)
  | finish (thread : ι) (method : Method) (result : Int)

namespace Event

variable {ι : Type}

/-- The permits a call of `signal` is going to add. -/
def signals : Event ι → Int
  | .call _ (.signal count) => count
  | _ => 0

/-- The permits returned by a call. -/
def acquires : Event ι → Int
  | .finish _ _ result => result
  | _ => 0

end Event

/-- What the events of a history amount to together. -/
def amount {ι : Type} (measure : Event ι → Int) : List (Event ι) → Int
  | [] => 0
  | event :: events => measure event + amount measure events

/-- One more event adds its own amount. -/
@[simp] theorem amount_append {ι : Type} (measure : Event ι → Int) (events : List (Event ι))
    (event : Event ι) : amount measure (events ++ [event]) = amount measure events + measure event := by
  induction events with
  | nil => exact Int.add_comm _ _
  | cons first events inductionHypothesis =>
      change measure first + amount measure (events ++ [event]) = _
      rw [inductionHypothesis, ← Int.add_assoc]
      rfl

/-- The permits signalled in a history. -/
def signalled {ι : Type} (events : List (Event ι)) : Int := amount Event.signals events

/-- The permits that were returned in a history. -/
def acquired {ι : Type} (events : List (Event ι)) : Int := amount Event.acquires events

/-- The results returned in a history are within what their methods ask for. -/
def ResultsFit {ι : Type} (events : List (Event ι)) : Prop :=
  ∀ thread method result, Event.finish thread method result ∈ events → method.Returns result

/-- Only a return adds to the results. -/
theorem ResultsFit.append {ι : Type} {events : List (Event ι)} {event : Event ι}
    (returned : ResultsFit events)
    (fits : ∀ thread method result, event = .finish thread method result →
      method.Returns result) : ResultsFit (events ++ [event]) := by
  intro thread method result present
  rcases List.mem_append.mp present with before | last
  · exact returned thread method result before
  · exact fits thread method result (List.mem_singleton.mp last).symm

namespace Contention

section Places

variable {S ι : Type} [Fintype ι] [DecidableEq ι]

/-- The places with one thread elsewhere. -/
def move (state : Contention S ι) (thread : ι) (place : Option (Method × Point)) :
    ι → Option (Method × Point) :=
  Function.update state.places thread place

/-- A thread that moves exchanges what it weighs. -/
theorem total_move (state : Contention S ι) {thread : ι} {before : Option (Method × Point)}
    (here : state.places thread = before) (weight : Point → Int)
    (place : Option (Method × Point)) :
    total (weigh weight) (state.move thread place) =
      total (weigh weight) state.places - weigh weight before + weigh weight place :=
  total_moved here (weigh weight) place

/-- The permits threads have taken and not returned. -/
def held (state : Contention S ι) : Int := total (weigh Point.held) state.places

/-- The threads that wait for a post. -/
def waiting (state : Contention S ι) : Int := total (weigh Point.waiting) state.places

/-- The posts threads still have to make. -/
def posting (state : Contention S ι) : Int := total (weigh Point.posting) state.places

/-- The permits threads still have to add. -/
def adding (state : Contention S ι) : Int := total (weigh Point.adding) state.places

end Places

variable {S ι : Type} [FiberSemaphore S] [Fintype ι]

section Steps

variable [DecidableEq ι]

/-- One thread calls, goes on or returns. -/
inductive Step : Contention S ι → Event ι → Contention S ι → Prop where
  | call {state thread} (method : Method) (idle : state.places thread = none) :
      Step state (.call thread method)
        { state with places := state.move thread (some (method, method.start)) }
  | advance {state thread method point semaphore after} (gives : Bool)
      (here : state.places thread = some (method, point))
      (moves : advance gives state.semaphore method point = some (semaphore, after)) :
      Step state (.advance thread gives)
        { semaphore, places := state.move thread (some (method, after)) }
  | finish {state thread method result}
      (here : state.places thread = some (method, .done result)) :
      Step state (.finish thread method result)
        { state with places := state.move thread none }

/-- The runs of a semaphore built with `initialCount` and `maxSpins`. -/
def system (S ι : Type) [FiberSemaphore S] [DecidableEq ι] (initialCount maxSpins : Nat) :
    StepSystem (Event ι) where
  State := Contention S ι
  Initial state := state.semaphore.count = initialCount ∧
    FiberSemaphore.value state.semaphore.sema = 0 ∧ state.semaphore.maxSpins = maxSpins ∧
    state.places = fun _ => none
  Step := Step

end Steps

/-- The permits anybody may take, or has a post made for. -/
def available (state : Contention S ι) : Int :=
  Max.max state.semaphore.count 0 + FiberSemaphore.value state.semaphore.sema + state.posting

/-- The state of a semaphore agrees with its history: each permit put in or
signalled has been returned, is held, is counted or owed, or is not added yet;
each waiting thread has a post made, being made or owed; and each thread is where
its method gets to. -/
structure Accounted (initialCount maxSpins : Nat) (events : List (Event ι))
    (state : Contention S ι) : Prop where
  spins : state.semaphore.maxSpins = maxSpins
  permits : initialCount + signalled events =
    acquired events + state.semaphore.count + state.waiting + state.held + state.adding
  posts : state.waiting = debt state.semaphore.count +
    FiberSemaphore.value state.semaphore.sema + state.posting
  fits : ∀ thread method point, state.places thread = some (method, point) → point.Fits maxSpins method
  returned : ResultsFit events

section Preservation

variable [DecidableEq ι]

namespace Accounted

variable {initialCount maxSpins : Nat} {events : List (Event ι)} {state next : Contention S ι}

/-- Threads elsewhere are still where their methods get to. -/
theorem fits_move (account : state.Accounted initialCount maxSpins events) {thread : ι}
    {place : Option (Method × Point)}
    (fits : ∀ method point, place = some (method, point) → point.Fits maxSpins method) :
    ∀ other method point, state.move thread place other = some (method, point) →
      point.Fits maxSpins method := by
  intro other method point there
  by_cases same : other = thread
  · subst same
    rw [move, Function.update_self] at there
    exact fits method point there
  · rw [move, Function.update_of_ne same] at there
    exact account.fits other method point there

/-- A called `signal` has its permits to add, and any other method nothing. -/
theorem call {thread : ι} {method : Method}
    (account : state.Accounted initialCount maxSpins events)
    (step : Step state (.call thread method) next) :
    next.Accounted initialCount maxSpins (events ++ [.call thread method]) := by
  cases step with
  | call _ idle =>
      have permits := account.permits
      have posts := account.posts
      obtain ⟨waiting, held, posting⟩ := method.start_holds
      have adding : method.start.adding = Event.signals (.call thread method) := by
        cases method <;> rfl
      refine ⟨account.spins, ?_, ?_, account.fits_move ?_, account.returned.append nofun⟩
      · simp only [signalled, acquired, amount_append, Contention.waiting, Contention.held,
          Contention.adding, state.total_move idle, weigh, Event.acquires] at permits ⊢
        omega
      · simp only [Contention.waiting, Contention.posting, state.total_move idle, weigh] at posts ⊢
        omega
      · rintro _ _ ⟨⟩
        exact method.start_fits maxSpins

/-- An operation balances. -/
theorem advance {thread : ι} {gives : Bool}
    (account : state.Accounted initialCount maxSpins events)
    (step : Step state (.advance thread gives) next) :
    next.Accounted initialCount maxSpins (events ++ [.advance thread gives]) := by
  cases step with
  | advance _ here moves =>
      have permits := account.permits
      have posts := account.posts
      have balances := advance_balances moves
      have permitsBalance := balances.permits
      have postsBalance := balances.posts
      refine ⟨balances.spins.trans account.spins, ?_, ?_, account.fits_move ?_,
        account.returned.append nofun⟩
      · simp only [signalled, acquired, amount_append, Contention.waiting, Contention.held,
          Contention.adding, state.total_move here, weigh, Event.signals,
          Event.acquires] at permits ⊢
        omega
      · simp only [Contention.waiting, Contention.posting, state.total_move here, weigh] at posts ⊢
        omega
      · rintro _ _ ⟨⟩
        rw [← account.spins]
        exact advance_fits (account.spins ▸ account.fits thread _ _ here) moves

/-- A returning method returns what it holds. -/
theorem finish {thread : ι} {method : Method} {result : Int}
    (account : state.Accounted initialCount maxSpins events)
    (step : Step state (.finish thread method result) next) :
    next.Accounted initialCount maxSpins (events ++ [.finish thread method result]) := by
  cases step with
  | finish here =>
      have permits := account.permits
      have posts := account.posts
      refine ⟨account.spins, ?_, ?_, account.fits_move nofun, account.returned.append ?_⟩
      · simp only [signalled, acquired, amount_append, Contention.waiting, Contention.held,
          Contention.adding, state.total_move here, weigh, Event.signals, Event.acquires,
          Point.waiting, Point.held, Point.adding] at permits ⊢
        omega
      · simp only [Contention.waiting, Contention.posting, state.total_move here, weigh,
          Point.waiting, Point.posting] at posts ⊢
        omega
      · rintro _ _ _ ⟨⟩
        exact account.fits thread _ _ here

end Accounted

/-- Threads keep their semaphore accounted. -/
def accounts (S ι : Type) [FiberSemaphore S] [Fintype ι] [DecidableEq ι]
    (initialCount maxSpins : Nat) : (system S ι initialCount maxSpins).Invariant where
  Holds events state := state.Accounted initialCount maxSpins events
  initial := by
    rintro ⟨semaphore, places⟩ ⟨count, value, spins, idle⟩
    obtain rfl : places = fun _ => none := idle
    change semaphore.count = initialCount at count
    change FiberSemaphore.value semaphore.sema = 0 at value
    refine ⟨spins, ?_, ?_, nofun, nofun⟩
    · simp only [Contention.waiting, Contention.held, Contention.adding, total_idle]
      simp only [signalled, acquired, amount]
      omega
    · simp only [Contention.waiting, Contention.posting, total_idle, debt]
      omega
  preserved := by
    intro events state event next account step
    cases event with
    | call thread method => exact account.call step
    | advance thread gives => exact account.advance step
    | finish thread method result => exact account.finish step

end Preservation

/-- Every permit put in or signalled is accounted for once. -/
structure Conserves (initialCount : Nat) (events : List (Event ι)) (state : Contention S ι) :
    Prop where
  permits : initialCount + signalled events =
    acquired events + state.held + state.available + state.adding
  held : 0 ≤ state.held
  available : 0 ≤ state.available
  adding : 0 ≤ state.adding

/-- No thread waits for a permit that nobody has: each has a post made, being made
or owed, and where a thread blocks with no post to come, every permit is out. -/
structure Wakes (initialCount : Nat) (events : List (Event ι)) (state : Contention S ι) :
    Prop where
  posts : state.waiting = debt state.semaphore.count +
    FiberSemaphore.value state.semaphore.sema + state.posting
  blocked : ∀ thread method, state.places thread = some (method, .block) →
    FiberSemaphore.tryWait state.semaphore.sema = none → state.posting = 0 →
    state.semaphore.count < 0 ∧
      acquired events + state.held + state.adding = initialCount + signalled events

namespace Accounted

variable {initialCount maxSpins : Nat} {events : List (Event ι)} {state : Contention S ι}

/-- Nobody holds less than nothing. -/
theorem held_nonneg (account : state.Accounted initialCount maxSpins events) :
    ∀ thread, 0 ≤ weigh Point.held (state.places thread) := by
  intro thread
  cases place : state.places thread with
  | none => exact Int.le_refl 0
  | some inside =>
      obtain ⟨method, point⟩ := inside
      have fits := account.fits thread method point place
      cases point with
      | load got => exact fits.elim (fun zero => zero.ge) fun one => one.1 ▸ Int.one_nonneg
      | exchange got => exact fits.elim (fun zero => zero.ge) fun one => one.1 ▸ Int.one_nonneg
      | done result => exact fits.nonneg
      | _ => exact Int.le_refl 0

/-- The parts of the account are not negative. -/
theorem conserves (account : state.Accounted initialCount maxSpins events) :
    state.Conserves initialCount events := by
  have posting : 0 ≤ state.posting :=
    total_nonneg fun thread => weigh_nonneg Point.posting_nonneg (state.places thread)
  have permits := account.permits
  have posts := account.posts
  refine ⟨?_, total_nonneg account.held_nonneg, ?_, ?_⟩
  · simp only [Contention.available, debt] at posts ⊢
    omega
  · change 0 ≤ Max.max state.semaphore.count 0 +
      (FiberSemaphore.value state.semaphore.sema : Int) + state.posting
    omega
  · exact total_nonneg fun thread => weigh_nonneg Point.adding_nonneg (state.places thread)

/-- A thread that blocks is one of those that wait. -/
theorem wakes (account : state.Accounted initialCount maxSpins events) :
    state.Wakes initialCount events := by
  refine ⟨account.posts, ?_⟩
  intro thread method blocks nothing noPost
  have empty := FiberSemaphore.value_zero nothing
  have one : (1 : Int) ≤ state.waiting := by
    have weight : weigh Point.waiting (state.places thread) = 1 := by
      rw [blocks]
      rfl
    rw [← weight]
    exact weight_le_total (fun other => weigh_nonneg Point.waiting_nonneg (state.places other)) thread
  have permits := account.permits
  have posts := account.posts
  simp only [debt] at posts
  refine ⟨?_, ?_⟩ <;> omega

/-- While one thread makes posts, the others are the only ones to make them for. -/
theorem posts_lt_card (account : state.Accounted initialCount maxSpins events) {thread : ι}
    {method : Method} {left : Nat} (here : state.places thread = some (method, .post left)) :
    left + FiberSemaphore.value state.semaphore.sema < Fintype.card ι := by
  have fewer : state.waiting < Fintype.card ι := by
    have weightless : weigh Point.waiting (state.places thread) = 0 := by
      rw [here]
      rfl
    exact total_lt_card (fun other => weigh_le_one Point.waiting_le_one _) weightless
  have own : (left : Int) ≤ state.posting := by
    have weight : weigh Point.posting (state.places thread) = left := by
      rw [here]
      rfl
    rw [← weight]
    exact weight_le_total (fun other => weigh_nonneg Point.posting_nonneg (state.places other)) thread
  have posts := account.posts
  simp only [debt] at posts
  omega

end Accounted

variable [DecidableEq ι]

/-- However threads interleave, each call returns what its method promises: no more
than it asked for, and at least one permit if it waits for one forever. -/
theorem always_returns (S ι : Type) [FiberSemaphore S] [Fintype ι] [DecidableEq ι]
    (initialCount maxSpins : Nat) (events : List (Event ι)) :
    (system S ι initialCount maxSpins).Always (fun before _ => ResultsFit before) events :=
  fun _ run => ((accounts S ι initialCount maxSpins).of_runs run).returned

end Contention

end Traft.Moodycamel.LightweightSemaphore
