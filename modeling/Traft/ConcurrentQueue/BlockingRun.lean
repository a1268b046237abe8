import Traft.ConcurrentQueue.BlockingConcurrentQueue

/-!
# Permits and elements

Along every run of the blocking queue the permits of its semaphore agree with the
elements of the inner queue: an element is there for each permit that can be or
has been taken, which is why the loops around the inner queue end.
-/

namespace Traft.Moodycamel

open Traft.Semantics LightweightSemaphore

/-- A dequeuing method signals nothing. -/
theorem Dequeue.signals_acquire {ι : Type} (thread : ι) (method : Dequeue) :
    (LightweightSemaphore.Event.call thread method.acquire).signals = 0 := by
  cases method <;> rfl

/-- The permits a call got are those it has left. -/
theorem Task.left_granted {Producer α : Type} {method : Dequeue} {result : Int}
    (nonneg : 0 ≤ result) : (Task.granted method result : Task Producer α).left = result := by
  unfold granted
  split
  · rename_i again
    exact again.2.symm
  · exact Int.toNat_of_nonneg nonneg

/-- No thread has fewer than no permits left. -/
theorem Task.left_nonneg {Producer α : Type} (task : Task Producer α) : 0 ≤ task.left := by
  cases task with
  | draining method left removed => exact Int.natCast_nonneg left
  | _ => exact Int.le_refl 0

/-- No call has elements yet when it got its permits. -/
theorem Task.hand_granted {Producer α : Type} (method : Dequeue) (result : Int) :
    (Task.granted method result : Task Producer α).hand = [] := by
  unfold granted
  split <;> rfl

namespace BlockingConcurrentQueue

section Histories

variable {ι Producer α : Type}

/-- The elements put in so far. -/
def entered (events : List (Event ι Producer α)) : List (Producer × α) :=
  events.flatMap Event.enters

/-- The elements taken out of the inner queue so far, in that order. -/
def taken (events : List (Event ι Producer α)) : List (Producer × α) :=
  events.flatMap Event.takes

/-- The elements returned so far. -/
def returned (events : List (Event ι Producer α)) : List (Producer × α) :=
  events.flatMap Event.returns

/-- What the semaphore has seen. -/
def atSemaphore (events : List (Event ι Producer α)) : List (LightweightSemaphore.Event ι) :=
  events.filterMap Event.atSemaphore

/-- One more event amounts to what the semaphore sees of it. -/
theorem amount_atSemaphore (measure : LightweightSemaphore.Event ι → Int)
    (events : List (Event ι Producer α)) (event : Event ι Producer α) :
    amount measure (atSemaphore (events ++ [event])) =
      amount measure (atSemaphore events) + event.atSemaphore.elim 0 measure := by
  unfold atSemaphore
  rw [filterMap_concat]
  cases event.atSemaphore with
  | none => rw [Option.toList_none, List.append_nil, Option.elim_none, Int.add_zero]
  | some shown => rw [Option.toList_some, amount_append, Option.elim_some]

end Histories

section States

variable {S ι Producer α : Type} [Fintype ι]

/-- The permits of threads that take out elements. -/
def owed (state : BlockingConcurrentQueue S ι Producer α) : Int := total Task.left state.tasks

/-- The elements threads have taken out and not returned. -/
def hands (state : BlockingConcurrentQueue S ι Producer α) : Multiset (Producer × α) :=
  total (fun task => (task.hand : Multiset (Producer × α))) state.tasks

variable [DecidableEq ι]

/-- A thread with another task has other permits left. -/
theorem owed_assign (state : BlockingConcurrentQueue S ι Producer α) {thread : ι}
    {before : Task Producer α} (here : state.tasks thread = before) (task : Task Producer α) :
    total Task.left (state.assign thread task) = state.owed - before.left + task.left := by
  subst here
  exact total_update _ _ _ _

/-- A thread with another task has other elements in hand. -/
theorem hands_assign (state : BlockingConcurrentQueue S ι Producer α) {thread : ι}
    {before : Task Producer α} (here : state.tasks thread = before) (task : Task Producer α) :
    total (fun task => (task.hand : Multiset (Producer × α))) (state.assign thread task) +
      (before.hand : Multiset (Producer × α)) = state.hands + task.hand := by
  subst here
  exact total_update_add _ _ _ _

/-- A thread with more elements in hand adds them to those in other hands. -/
theorem hands_grown (state : BlockingConcurrentQueue S ι Producer α) {thread : ι}
    {before : Task Producer α} (here : state.tasks thread = before) (task : Task Producer α)
    {more : List (Producer × α)} (grown : task.hand = before.hand ++ more) :
    total (fun task => (task.hand : Multiset (Producer × α))) (state.assign thread task) =
      state.hands + more := by
  have moved := state.hands_assign here task
  rw [grown, ← Multiset.coe_add, add_comm (before.hand : Multiset (Producer × α)),
    ← add_assoc] at moved
  exact add_right_cancel moved

/-- A thread with the same elements in hand leaves them all where they are. -/
theorem hands_kept (state : BlockingConcurrentQueue S ι Producer α) {thread : ι}
    {before : Task Producer α} (here : state.tasks thread = before) (task : Task Producer α)
    (kept : task.hand = before.hand) :
    total (fun task => (task.hand : Multiset (Producer × α))) (state.assign thread task) =
      state.hands := by
  rw [state.hands_grown here task (kept.trans (List.append_nil _).symm)]
  exact add_zero _

end States

variable {S ι Producer α : Type} [FiberSemaphore S] [DecidableEq ι] [DecidableEq Producer]

/-- A step is one of the semaphore, or none. -/
theorem Step.atSemaphore {maxSpins : Nat} {state next : BlockingConcurrentQueue S ι Producer α}
    {event : Event ι Producer α} (step : Step state event next) :
    (Contention.system S ι 0 maxSpins).Answers state.sema event.atSemaphore next.sema := by
  cases step with
  | enqueue _ _ _ signals => exact signals
  | refuse => exact rfl
  | operate moves => exact moves
  | enqueued _ signalled => exact signalled
  | dequeue => exact rfl
  | acquire _ calls => exact calls
  | granted _ returned => exact returned
  | drain => exact rfl
  | leave => exact rfl

variable [Fintype ι]

/-- The queue agrees with its history and its semaphore. -/
structure Accounted (maxSpins : Nat) (events : List (Event ι Producer α))
    (state : BlockingConcurrentQueue S ι Producer α) : Prop where
  semaphore : (Contention.system S ι 0 maxSpins).Runs (atSemaphore events) state.sema
  stock : state.inner.length + acquired (atSemaphore events) =
    state.owed + signalled (atSemaphore events)
  parts : Parts (entered events) (taken events) state.inner
  hands : (taken events : Multiset (Producer × α)) = returned events + state.hands
  budgets : ∀ thread method left removed, state.tasks thread = .draining method left removed →
    method.acquire.Returns (left + removed.length)
  results : ∀ thread method removed, Event.leave thread method removed ∈ events →
    method.acquire.Returns removed.length
  outside : ∀ thread, (state.tasks thread).Outside → state.sema.places thread = none

namespace Accounted

variable {maxSpins : Nat} {events : List (Event ι Producer α)}
  {state next : BlockingConcurrentQueue S ι Producer α}

/-- The semaphore runs on. -/
theorem semaphore_step (account : state.Accounted maxSpins events) {event : Event ι Producer α}
    (step : Step state event next) : (Contention.system S ι 0 maxSpins).Runs
      (BlockingConcurrentQueue.atSemaphore (events ++ [event])) next.sema := by
  unfold BlockingConcurrentQueue.atSemaphore
  rw [filterMap_concat]
  exact account.semaphore.answers step.atSemaphore

/-- A result the semaphore returned is one its method promises. -/
theorem semaphore_result (account : state.Accounted maxSpins events) {thread : ι}
    {method : Method} {result : Int} {sema : Contention S ι}
    (finishes : Contention.Step state.sema (.finish thread method result) sema) :
    method.Returns result := by
  have run := StepSystem.Runs.step account.semaphore finishes
  apply ((Contention.accounts S ι 0 maxSpins).of_runs run).returned thread method result
  exact List.mem_append_right _ List.mem_cons_self

/-- Other threads keep to their budgets. -/
theorem budgets_assign (account : state.Accounted maxSpins events) {thread : ι}
    {task : Task Producer α} (fits : ∀ method left removed, task = .draining method left removed →
      method.acquire.Returns (left + removed.length)) :
    ∀ other method left removed, state.assign thread task other = .draining method left removed →
      method.acquire.Returns (left + removed.length) := by
  intro other method left removed there
  by_cases same : other = thread
  · subst same
    rw [assign, Function.update_self] at there
    exact fits method left removed there
  · rw [assign, Function.update_of_ne same] at there
    exact account.budgets other method left removed there

/-- Only a method that returns adds a result. -/
theorem results_append (account : state.Accounted maxSpins events) {event : Event ι Producer α}
    (fits : ∀ thread method removed, event = .leave thread method removed →
      method.acquire.Returns removed.length) :
    ∀ thread method removed, Event.leave thread method removed ∈ events ++ [event] →
      method.acquire.Returns removed.length := by
  intro thread method removed present
  rcases List.mem_append.mp present with before | last
  · exact account.results thread method removed before
  · exact fits thread method removed (List.mem_singleton.mp last).symm

/-- Elements are put in with permits to come, and taken out against permits. -/
theorem stock_step (account : state.Accounted maxSpins events) {event : Event ι Producer α}
    (step : Step state event next) :
    next.inner.length + acquired (BlockingConcurrentQueue.atSemaphore (events ++ [event])) =
      next.owed + signalled (BlockingConcurrentQueue.atSemaphore (events ++ [event])) := by
  have stock := account.stock
  simp only [acquired, signalled, amount_atSemaphore] at stock ⊢
  cases step with
  | enqueue producer elements idle =>
      simp only [owed, state.owed_assign idle, Task.left, List.length_append, List.length_map,
        Event.atSemaphore, Option.elim_some, LightweightSemaphore.Event.signals,
        LightweightSemaphore.Event.acquires] at stock ⊢
      omega
  | refuse =>
      simp only [Event.atSemaphore, Option.elim_none]
      omega
  | operate =>
      simp only [owed, Event.atSemaphore, Option.elim_some, LightweightSemaphore.Event.signals,
        LightweightSemaphore.Event.acquires] at stock ⊢
      omega
  | enqueued here finishes =>
      have result := account.semaphore_result finishes
      have nonneg := result.nonneg
      have most : _ ≤ (0 : Int) := result.most
      simp only [owed, state.owed_assign here, Task.left, Event.atSemaphore, Option.elim_some,
        LightweightSemaphore.Event.signals, LightweightSemaphore.Event.acquires] at stock ⊢
      omega
  | dequeue method idle =>
      simp only [owed, state.owed_assign idle, Task.left, Event.atSemaphore,
        Option.elim_none] at stock ⊢
      omega
  | acquire here =>
      simp only [owed, state.owed_assign here, Task.left, Event.atSemaphore, Option.elim_some,
        Dequeue.signals_acquire, LightweightSemaphore.Event.acquires] at stock ⊢
      omega
  | granted here finishes =>
      have nonneg := (account.semaphore_result finishes).nonneg
      simp only [owed, state.owed_assign here, Event.atSemaphore, Option.elim_some,
        LightweightSemaphore.Event.signals, LightweightSemaphore.Event.acquires] at stock ⊢
      rw [Task.left_granted nonneg]
      simp only [Task.left]
      omega
  | drain here wanted bound removes =>
      have length := removes.perm.length_eq
      rw [List.length_append] at length
      simp only [owed, state.owed_assign here, Task.left, Event.atSemaphore,
        Option.elim_none] at stock ⊢
      omega
  | leave here =>
      simp only [owed, state.owed_assign here, Task.left, Event.atSemaphore,
        Option.elim_none] at stock ⊢
      omega

/-- The inner queue keeps the order of each producer. -/
theorem parts_step (account : state.Accounted maxSpins events) {event : Event ι Producer α}
    (step : Step state event next) :
    Parts (entered (events ++ [event])) (taken (events ++ [event])) next.inner := by
  have parts := account.parts
  simp only [entered, taken, List.flatMap_append, List.flatMap_singleton] at parts ⊢
  cases step with
  | enqueue producer elements =>
      simp only [Event.enters, Event.takes, List.append_nil]
      exact parts.append_right _
  | drain _ _ _ removes =>
      simp only [Event.enters, Event.takes, List.append_nil]
      exact parts.trans removes
  | _ =>
      simp only [Event.enters, Event.takes, List.append_nil]
      exact parts

/-- What is taken out is in hand until it is returned. -/
theorem hands_step (account : state.Accounted maxSpins events) {event : Event ι Producer α}
    (step : Step state event next) :
    (taken (events ++ [event]) : Multiset (Producer × α)) =
      returned (events ++ [event]) + next.hands := by
  have hands := account.hands
  simp only [taken, returned, List.flatMap_append, List.flatMap_singleton] at hands ⊢
  cases step with
  | enqueue producer elements idle =>
      simp only [Event.takes, Event.returns, List.append_nil, BlockingConcurrentQueue.hands]
      rw [state.hands_kept idle (.enqueueing _) rfl]
      exact hands
  | refuse =>
      simp only [Event.takes, Event.returns, List.append_nil]
      exact hands
  | operate =>
      simp only [Event.takes, Event.returns, List.append_nil]
      exact hands
  | enqueued here finishes =>
      simp only [Event.takes, Event.returns, List.append_nil, BlockingConcurrentQueue.hands]
      rw [state.hands_kept here .idle rfl]
      exact hands
  | dequeue method idle =>
      simp only [Event.takes, Event.returns, List.append_nil, BlockingConcurrentQueue.hands]
      rw [state.hands_kept idle (.calling _) rfl]
      exact hands
  | acquire here =>
      simp only [Event.takes, Event.returns, List.append_nil, BlockingConcurrentQueue.hands]
      rw [state.hands_kept here (.acquiring _) rfl]
      exact hands
  | granted here finishes =>
      simp only [Event.takes, Event.returns, List.append_nil, BlockingConcurrentQueue.hands]
      rw [state.hands_kept here _ (Task.hand_granted _ _)]
      exact hands
  | @drain thread method left removed out _ here =>
      have grown := state.hands_grown here (.draining method (left - out.length) (removed ++ out)) rfl
      simp only [Event.takes, Event.returns, List.append_nil, BlockingConcurrentQueue.hands]
      rw [grown, ← Multiset.coe_add, hands, add_assoc]
  | leave here =>
      have moved := (state.hands_assign here .idle).trans (add_zero _)
      simp only [Event.takes, Event.returns, List.append_nil, BlockingConcurrentQueue.hands]
      rw [hands, ← moved, ← Multiset.coe_add, add_assoc]
      exact congrArg _ (add_comm _ _)

/-- A thread takes out no more than it has permits for. -/
theorem budgets_step (account : state.Accounted maxSpins events) {event : Event ι Producer α}
    (step : Step state event next) :
    ∀ thread method left removed, next.tasks thread = .draining method left removed →
      method.acquire.Returns (left + removed.length) := by
  cases step with
  | enqueue => exact account.budgets_assign nofun
  | refuse => exact account.budgets
  | operate => exact account.budgets
  | enqueued => exact account.budgets_assign nofun
  | dequeue => exact account.budgets_assign nofun
  | acquire => exact account.budgets_assign nofun
  | @granted thread method result _ here finishes =>
      have returns := account.semaphore_result finishes
      apply account.budgets_assign
      intro other left removed drains
      unfold Task.granted at drains
      split at drains
      · cases drains
      · cases drains
        rwa [List.length_nil, Int.toNat_of_nonneg returns.nonneg, Int.ofNat_zero, Int.add_zero]
  | drain here wanted bound removes =>
      apply account.budgets_assign
      rintro _ _ _ ⟨⟩
      have returns := account.budgets _ _ _ _ here
      rw [List.length_append]
      refine cast (congrArg _ ?_) returns
      omega
  | leave => exact account.budgets_assign nofun

/-- A method returns what it had permits for. -/
theorem results_step (account : state.Accounted maxSpins events) {event : Event ι Producer α}
    (step : Step state event next) :
    ∀ thread method removed, Event.leave thread method removed ∈ events ++ [event] →
      method.acquire.Returns removed.length := by
  cases step with
  | leave here =>
      apply account.results_append
      rintro _ _ _ ⟨⟩
      have returns := account.budgets _ _ _ _ here
      rwa [Int.ofNat_zero, Int.zero_add] at returns
  | _ => exact account.results_append nofun

/-- A thread that goes on leaves the other threads where they are. -/
theorem outside_assign (account : state.Accounted maxSpins events) {thread : ι}
    {task : Task Producer α} {place : Option (Method × Point)} (fits : task.Outside → place = none) :
    ∀ other, (state.assign thread task other).Outside → state.sema.move thread place other = none := by
  intro other is_outside
  by_cases same : other = thread
  · subst same
    rw [assign, Function.update_self] at is_outside
    rw [Contention.move, Function.update_self]
    exact fits is_outside
  · rw [assign, Function.update_of_ne same] at is_outside
    rw [Contention.move, Function.update_of_ne same]
    exact account.outside other is_outside

/-- A thread that only changes its task stays outside the semaphore. -/
theorem outside_kept (account : state.Accounted maxSpins events) {thread : ι}
    (before : (state.tasks thread).Outside) (task : Task Producer α) :
    ∀ other, (state.assign thread task other).Outside → state.sema.places other = none := by
  intro other is_outside
  by_cases same : other = thread
  · subst same
    exact account.outside other before
  · rw [assign, Function.update_of_ne same] at is_outside
    exact account.outside other is_outside

/-- Only threads that enqueue or acquire are inside the semaphore. -/
theorem outside_step (account : state.Accounted maxSpins events) {event : Event ι Producer α}
    (step : Step state event next) :
    ∀ thread, (next.tasks thread).Outside → next.sema.places thread = none := by
  cases step with
  | enqueue _ _ _ signals =>
      cases signals with
      | call => exact account.outside_assign False.elim
  | refuse => exact account.outside
  | @operate thread _ _ moves =>
      cases moves with
      | advance _ here =>
          intro other is_outside
          have nowhere := account.outside other is_outside
          have distinct : other ≠ thread := by
            rintro rfl
            rw [here] at nowhere
            cases nowhere
          exact (Function.update_of_ne distinct ..).trans nowhere
  | enqueued _ finishes =>
      cases finishes with
      | finish => exact account.outside_assign fun _ => rfl
  | dequeue _ idle => exact account.outside_kept (idle ▸ trivial) _
  | acquire _ calls =>
      cases calls with
      | call => exact account.outside_assign False.elim
  | granted _ finishes =>
      cases finishes with
      | finish => exact account.outside_assign fun _ => rfl
  | drain here => exact account.outside_kept (here ▸ trivial) _
  | leave here => exact account.outside_kept (here ▸ trivial) _

/-- Every step keeps the queue accounted. -/
theorem step (account : state.Accounted maxSpins events) {event : Event ι Producer α}
    (step : Step state event next) : next.Accounted maxSpins (events ++ [event]) :=
  ⟨account.semaphore_step step, account.stock_step step, account.parts_step step,
    account.hands_step step, account.budgets_step step, account.results_step step,
    account.outside_step step⟩

end Accounted

/-- Threads keep their queue accounted. -/
def accounts (S ι Producer α : Type) [FiberSemaphore S] [Fintype ι] [DecidableEq ι]
    [DecidableEq Producer] (maxSpins : Nat) : (system S ι Producer α maxSpins).Invariant where
  Holds events state := state.Accounted maxSpins events
  initial := by
    rintro ⟨inner, sema, tasks⟩ ⟨empty, fresh, idle⟩
    obtain rfl : inner = [] := empty
    obtain rfl : tasks = fun _ => .idle := idle
    refine ⟨.initial fresh, ?_, fun _ => rfl, ?_, nofun, nofun, ?_⟩
    · have owed : total Task.left (fun _ : ι => (.idle : Task Producer α)) = 0 := total_start rfl
      simp only [BlockingConcurrentQueue.owed]
      rw [owed]
      rfl
    · have hands : total (fun task => (task.hand : Multiset (Producer × α)))
          (fun _ : ι => (.idle : Task Producer α)) = 0 := total_start rfl
      simp only [BlockingConcurrentQueue.hands]
      rw [hands]
      rfl
    · intro thread _
      exact congrFun fresh.2.2.2 thread
  preserved := fun account step => account.step step

/-- There is an element in the inner queue for each permit that was given and not
used, can be taken, or is still to be added; so a thread that has permits left
finds the inner queue with as many elements at least. -/
structure Stocked (state : BlockingConcurrentQueue S ι Producer α) : Prop where
  stock : state.inner.length =
    state.owed + state.sema.held + state.sema.available + state.sema.adding
  served : ∀ thread method left removed, state.tasks thread = .draining method left removed →
    left ≤ state.inner.length
  size : state.sizeApprox ≤ state.inner.length
  settled : (∀ thread, state.tasks thread = .idle) → state.sizeApprox = state.inner.length

/-- Elements are taken out in the order of their producers, and each that was put
in is returned once, in one hand, or in the inner queue; a method returns no more
elements than it was asked for, and one at least if it waits forever. -/
structure Delivers (events : List (Event ι Producer α))
    (state : BlockingConcurrentQueue S ι Producer α) : Prop where
  ordered : Parts (entered events) (taken events) state.inner
  once : (entered events : Multiset (Producer × α)) =
    returned events + state.hands + state.inner
  results : ∀ thread method removed, Event.leave thread method removed ∈ events →
    method.acquire.Returns removed.length

namespace Accounted

variable {maxSpins : Nat} {events : List (Event ι Producer α)}
  {state : BlockingConcurrentQueue S ι Producer α}

/-- An idle queue has no thread inside its semaphore. -/
theorem idle_sema (account : state.Accounted maxSpins events)
    (idle : ∀ thread, state.tasks thread = .idle) : state.sema.places = fun _ => none := by
  ext1 thread
  apply account.outside
  rw [idle]
  trivial

/-- An idle queue has its permits counted. -/
theorem idle_count (account : state.Accounted maxSpins events)
    (idle : ∀ thread, state.tasks thread = .idle) :
    state.sema.semaphore.count = state.inner.length := by
  have semaphore := (Contention.accounts S ι 0 maxSpins).of_runs account.semaphore
  have nowhere := account.idle_sema idle
  have owed : state.owed = 0 := by
    rw [owed, funext idle]
    exact total_start rfl
  have permits := semaphore.permits
  have posts := semaphore.posts
  have stock := account.stock
  simp only [Contention.held, Contention.adding, Contention.waiting, Contention.posting, nowhere,
    total_idle, debt] at permits posts
  omega

/-- Permits that are accounted for have their elements. -/
theorem stocked (account : state.Accounted maxSpins events) : state.Stocked := by
  have semaphore := (Contention.accounts S ι 0 maxSpins).of_runs account.semaphore
  have conserves := semaphore.conserves
  have permits := conserves.permits
  have stock := account.stock
  have stock' : state.inner.length =
      state.owed + state.sema.held + state.sema.available + state.sema.adding := by
    omega
  have owed : 0 ≤ state.owed := total_nonneg fun thread => (state.tasks thread).left_nonneg
  have size : (state.sizeApprox : Int) = Max.max state.sema.semaphore.count 0 := by
    unfold sizeApprox availableApprox
    split <;> omega
  have posting : 0 ≤ state.sema.posting :=
    total_nonneg fun thread => weigh_nonneg Point.posting_nonneg (state.sema.places thread)
  have held := conserves.held
  have adding := conserves.adding
  have available : state.sema.available = Max.max state.sema.semaphore.count 0 +
      FiberSemaphore.value state.sema.semaphore.sema + state.sema.posting := rfl
  refine ⟨stock', ?_, by omega, ?_⟩
  · intro thread method left removed drains
    have own : (left : Int) ≤ state.owed := by
      have weight := weight_le_total (fun other => (state.tasks other).left_nonneg) thread
      rwa [drains] at weight
    omega
  · intro idle
    have count := account.idle_count idle
    omega

/-- Elements that are accounted for are delivered. -/
theorem delivers (account : state.Accounted maxSpins events) : state.Delivers events := by
  refine ⟨account.parts, ?_, account.results⟩
  rw [← account.hands, Multiset.coe_add]
  exact Multiset.coe_eq_coe.mpr account.parts.perm

end Accounted

end BlockingConcurrentQueue

end Traft.Moodycamel
