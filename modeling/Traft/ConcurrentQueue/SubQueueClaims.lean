import Traft.ConcurrentQueue.SubQueue
import Traft.Semantics.Reservations
import Traft.Semantics.Run
import Traft.Semantics.Threads

/-!
# Who may dequeue which element

Threads dequeue from one sub-queue, in any order, while its producer goes on. The
reservations they make are those of `Semantics.Reservations`, credited with what
was given back when a method loaded `dequeueOvercommit`. Hence no thread claims an
element that is not there yet.
-/

namespace Traft.Moodycamel.SubQueue

open Traft.Semantics

namespace Method

/-- A method reserves something, or returns at once. -/
theorem desiredCount_pos {method : Method} {tail overcommit optimisticCount desiredCount : Nat}
    (wanted : method.desiredCount tail overcommit optimisticCount = some desiredCount) :
    0 < desiredCount := by
  cases method with
  | dequeue =>
      rw [Method.desiredCount] at wanted
      split at wanted
      · obtain rfl := Option.some.inj wanted
        exact Nat.one_pos
      · cases wanted
  | dequeueBulk max positive =>
      simp only [Method.desiredCount] at wanted
      split at wanted
      · rename_i some
        obtain rfl := Option.some.inj wanted
        refine Nat.lt_min.mpr ⟨?_, positive⟩
        simp only [circularLessThan, decide_eq_true_eq] at some
        omega
      · cases wanted

/-- A method goes on with no more than it reserved. -/
theorem actualCount_le (method : Method) (tail overcommit myDequeueCount : Nat)
    {desiredCount : Nat} (positive : 0 < desiredCount) :
    method.actualCount tail overcommit myDequeueCount desiredCount ≤ desiredCount := by
  cases method with
  | dequeue =>
      rw [Method.actualCount]
      split
      · exact positive
      · exact Nat.zero_le desiredCount
  | dequeueBulk =>
      simp only [Method.actualCount]
      split
      · exact Nat.min_le_left ..
      · exact Nat.zero_le desiredCount

/-- What a method goes on with is before the tail, as far as it may know. The words
it compares do not deceive it while less than half their range was reserved. -/
theorem actualCount_within (method : Method) {tail overcommit myDequeueCount desiredCount : Nat}
    (small : myDequeueCount ≤ 2 ^ 63)
    (some : 0 < method.actualCount tail overcommit myDequeueCount desiredCount) :
    myDequeueCount + method.actualCount tail overcommit myDequeueCount desiredCount ≤
      tail + overcommit := by
  cases method with
  | dequeue =>
      simp only [Method.actualCount, circularLessThan, decide_eq_true_eq] at some ⊢
      split at some
      · rename_i before
        rw [if_pos before]
        omega
      · cases some
  | dequeueBulk =>
      simp only [Method.actualCount] at some ⊢
      split at some
      · rename_i there
        rw [if_pos there]
        obtain ⟨_, word⟩ := word_le_of_circularLessThan (by omega) there
        omega
      · cases some

end Method

/-- Dequeuing reserves more and more, and changes nothing of what was enqueued. -/
theorem advance_grows {α : Type} {traits : Traits} {queue later : SubQueue α} {method : Method}
    {point after : Point α} (moves : queue.advance traits method point = some (later, after)) :
    queue.dequeueOptimisticCount ≤ later.dequeueOptimisticCount ∧
      later.tailIndex = queue.tailIndex ∧ later.elements = queue.elements ∧
      later.constructed = queue.constructed := by
  cases point with
  | reserve => obtain ⟨⟩ := moves; exact ⟨Nat.le_add_right .., rfl, rfl, rfl⟩
  | loadOptimisticCount =>
      simp only [advance] at moves
      split at moves <;> (obtain ⟨⟩ := moves; exact ⟨Nat.le_refl _, rfl, rfl, rfl⟩)
  | reloadTail =>
      simp only [advance] at moves
      split at moves <;> (obtain ⟨⟩ := moves; exact ⟨Nat.le_refl _, rfl, rfl, rfl⟩)
  | move =>
      simp only [advance] at moves
      split at moves
      · obtain ⟨⟩ := moves; exact ⟨Nat.le_refl _, rfl, rfl, rfl⟩
      · split at moves
        · obtain ⟨⟩ := moves; exact ⟨Nat.le_refl _, rfl, rfl, rfl⟩
        · cases moves
  | setEmpty =>
      simp only [advance] at moves
      split at moves <;> (obtain ⟨⟩ := moves; exact ⟨Nat.le_refl _, rfl, rfl, rfl⟩)
  | done => cases moves
  | _ => obtain ⟨⟩ := moves; exact ⟨Nat.le_refl _, rfl, rfl, rfl⟩

/-- A sub-queue and where each thread is inside its dequeuing methods. -/
structure Sharing (ι α : Type) where
  queue : SubQueue α
  places : ι → Option (Method × Point α)

namespace Point

variable {α : Type}

/-- What a thread is going to give back. -/
def giving : Point α → Int
  | .giveBack amount _ => amount
  | _ => 0

/-- What a thread is going to claim. -/
def claiming : Point α → Int
  | .giveBack _ actualCount | .claim actualCount => actualCount
  | _ => 0

/-- The elements a thread claims with its next operation. -/
def takes (queue : SubQueue α) : Point α → List α
  | .claim actualCount => (queue.elements.drop queue.headIndex).take actualCount
  | _ => []

/-- Nobody gives back less than nothing. -/
theorem giving_nonneg (point : Point α) : 0 ≤ point.giving := by
  cases point with
  | giveBack amount => exact Int.natCast_nonneg amount
  | _ => exact Int.le_refl 0

/-- Nobody claims less than nothing. -/
theorem claiming_nonneg (point : Point α) : 0 ≤ point.claiming := by
  cases point with
  | giveBack _ actualCount => exact Int.natCast_nonneg actualCount
  | claim actualCount => exact Int.natCast_nonneg actualCount
  | _ => exact Int.le_refl 0

/-- What a thread knows of the reservations: what it is credited with was refused
to somebody, and while it waits for an answer its own reservation is pending. -/
def Knows {ι : Type} (queue : SubQueue α) (log : List (Reservation ι)) (thread : ι) :
    Point α → Prop
  | .loadOptimisticCount _ overcommit => overcommit ≤ queue.dequeueOvercommit
  | .reserve overcommit desiredCount =>
      overcommit ≤ queue.dequeueOvercommit ∧ 0 < desiredCount
  | .reloadTail overcommit desiredCount myDequeueCount =>
      0 < desiredCount ∧ Pending log thread desiredCount overcommit myDequeueCount
  | .claim actualCount => 0 < actualCount
  | _ => True

/-- It still knows that when more was given back, as long as its reservation is
pending. -/
theorem Knows.mono {ι : Type} {queue later : SubQueue α} {log others : List (Reservation ι)}
    {thread : ι} {point : Point α} (knows : point.Knows queue log thread)
    (more : queue.dequeueOvercommit ≤ later.dequeueOvercommit)
    (pending : ∀ {count credit made}, Pending log thread count credit made →
      Pending others thread count credit made) : point.Knows later others thread := by
  cases point with
  | loadOptimisticCount tail overcommit => exact Nat.le_trans knows more
  | reserve overcommit desiredCount => exact ⟨Nat.le_trans knows.1 more, knows.2⟩
  | reloadTail overcommit desiredCount mine => exact ⟨knows.1, pending knows.2⟩
  | claim actualCount => exact knows
  | _ => trivial

/-- Behind a block a thread gives back and claims nothing more. -/
theorem next_quiet {ι : Type} (run : Run) (traits : Traits) (removed : List α)
    (queue : SubQueue α) (log : List (Reservation ι)) (thread : ι) :
    (run.next traits removed).giving = 0 ∧ (run.next traits removed).claiming = 0 ∧
      (run.next traits removed).Knows queue log thread := by
  unfold Run.next
  split <;> exact ⟨rfl, rfl, trivial⟩

end Point

namespace Sharing

/-- No more was ever reserved than half the range of a word, so that the words the
source compares tell which count is less. -/
def InRange {ι α : Type} (state : Sharing ι α) : Prop :=
  state.queue.dequeueOptimisticCount ≤ 2 ^ 63

/-- What happens: the producer constructs elements and publishes them, or destroys
them again; a thread calls a method, makes an operation of it, or returns. -/
inductive Event (ι α : Type) where
  | construct (element : α)
  | publish (elements : List α)
  | discard
  | call (thread : ι) (method : Method)
  | advance (thread : ι) (taken : List α)
  | finish (thread : ι) (removed : List α)

section Accounts

variable {ι α : Type} [Fintype ι]

/-- The counters agree with a list of reservations: those made, those refused,
which have been or are going to be given back, and those granted, which have been
or are going to be claimed. -/
structure Reserved (log : List (Reservation ι)) (state : Sharing ι α) : Prop where
  made : state.queue.dequeueOptimisticCount = sumOf Reservation.count log
  sound : Sound state.queue.tailIndex 0 0 log
  refused : (sumOf Reservation.refused log : Int) =
    state.queue.dequeueOvercommit + total (weigh Point.giving) state.places
  passed : (sumOf Reservation.passed log : Int) =
    state.queue.headIndex + total (weigh Point.claiming) state.places
  stored : state.queue.elements.length = state.queue.tailIndex
  knows : ∀ thread method point, state.places thread = some (method, point) →
    point.Knows state.queue log thread

/-- Nothing is claimed that is not there. -/
theorem Reserved.head_le_tail {log : List (Reservation ι)} {state : Sharing ι α}
    (reserved : state.Reserved log) :
    state.queue.headIndex + total (weigh Point.claiming) state.places ≤ state.queue.tailIndex := by
  have passed := reserved.passed
  have within := reserved.sound.passed_le (Nat.le_refl 0) (Nat.zero_le _)
  omega

/-- What the source asserts of the head, and what it relies on where it claims
elements: all those that threads are about to claim are there. -/
structure InBounds (state : Sharing ι α) : Prop where
  head : state.queue.headIndex ≤ state.queue.tailIndex
  together : state.queue.headIndex + total (weigh Point.claiming) state.places ≤
    state.queue.tailIndex
  each : ∀ thread method actualCount, state.places thread = some (method, .claim actualCount) →
    0 < actualCount ∧ state.queue.headIndex + actualCount ≤ state.queue.tailIndex

/-- Granted reservations are within bounds. -/
theorem Reserved.inBounds {log : List (Reservation ι)} {state : Sharing ι α}
    (reserved : state.Reserved log) : state.InBounds := by
  have together := reserved.head_le_tail
  have nonneg := fun other => weigh_nonneg Point.claiming_nonneg (state.places other)
  refine ⟨?_, together, ?_⟩
  · have claiming := total_nonneg nonneg
    omega
  · intro thread method actualCount here
    have own := weight_le_total nonneg thread
    rw [here] at own
    change (actualCount : Int) ≤ _ at own
    exact ⟨reserved.knows thread _ _ here, by omega⟩

/-- A claim is no larger than what was reserved. -/
theorem Reserved.claim_le {log : List (Reservation ι)} {state : Sharing ι α}
    (reserved : state.Reserved log) {thread : ι} {method : Method} {actualCount : Nat}
    (here : state.places thread = some (method, .claim actualCount)) :
    actualCount ≤ state.queue.dequeueOptimisticCount := by
  have own := weight_le_total
    (fun other => weigh_nonneg Point.claiming_nonneg (state.places other)) thread
  rw [here] at own
  change (actualCount : Int) ≤ _ at own
  have made := reserved.made
  have passed := reserved.passed
  have granted := reserved.sound.passed_le_count
  omega

end Accounts

variable {ι α : Type} [DecidableEq ι]

/-- The places with one thread elsewhere. -/
def move (state : Sharing ι α) (thread : ι) (place : Option (Method × Point α)) :
    ι → Option (Method × Point α) :=
  Function.update state.places thread place

/-- A thread somewhere is the one that moved there, or was there before. -/
theorem move_cases (state : Sharing ι α) {thread other : ι}
    {place inside : Option (Method × Point α)} (there : state.move thread place other = inside) :
    (other = thread ∧ place = inside) ∨ (other ≠ thread ∧ state.places other = inside) := by
  by_cases same : other = thread
  · subst same
    rw [move, Function.update_self] at there
    exact .inl ⟨rfl, there⟩
  · rw [move, Function.update_of_ne same] at there
    exact .inr ⟨same, there⟩

/-- The producer or one thread goes on. -/
inductive Step (traits : Traits) : Sharing ι α → Event ι α → Sharing ι α → Prop where
  | construct {state} (element : α) :
      Step traits state (.construct element) { state with queue := state.queue.construct element }
  | publish {state} :
      Step traits state (.publish state.queue.constructed) { state with queue := state.queue.publish }
  | discard {state} : Step traits state .discard { state with queue := state.queue.discard }
  | call {state thread} (method : Method) (idle : state.places thread = none) :
      Step traits state (.call thread method)
        { state with places := state.move thread (some (method, .loadTail)) }
  | advance {state thread method point queue after}
      (here : state.places thread = some (method, point))
      (moves : state.queue.advance traits method point = some (queue, after)) :
      Step traits state (.advance thread (point.takes state.queue))
        { queue, places := state.move thread (some (method, after)) }
  | finish {state thread method removed}
      (here : state.places thread = some (method, .done removed)) :
      Step traits state (.finish thread removed) { state with places := state.move thread none }

/-- The runs of a sub-queue that starts empty. -/
def system (traits : Traits) (ι α : Type) [DecidableEq ι] : StepSystem (Event ι α) where
  State := Sharing ι α
  Initial state := state = { queue := {}, places := fun _ => none }
  Step := Step traits

/-- No step takes a reservation back. -/
theorem Step.inRange {traits : Traits} {state next : Sharing ι α} {event : Event ι α}
    (step : Step traits state event next) (later : next.InRange) : state.InRange := by
  cases step with
  | advance here moves => exact (advance_grows moves).1.trans later
  | _ => exact later

variable [Fintype ι]

namespace Reserved

variable {log : List (Reservation ι)} {state : Sharing ι α} {traits : Traits}

/-- What the other threads know stays known. -/
theorem knows_move (reserved : state.Reserved log) {thread : ι} {queue : SubQueue α}
    {others : List (Reservation ι)} {place : Option (Method × Point α)}
    (more : state.queue.dequeueOvercommit ≤ queue.dequeueOvercommit)
    (pending : ∀ {other count credit made}, other ≠ thread →
      Pending log other count credit made → Pending others other count credit made)
    (knows : ∀ method point, place = some (method, point) → point.Knows queue others thread) :
    ∀ other method point, state.move thread place other = some (method, point) →
      point.Knows queue others other := by
  intro other method point there
  rcases state.move_cases there with ⟨rfl, moved⟩ | ⟨same, before⟩
  · exact knows method point moved
  · exact (reserved.knows other method point before).mono more (pending same)

/-- A thread that neither reserves nor claims moves on. -/
theorem pass (reserved : state.Reserved log) {thread : ι} {place after : Option (Method × Point α)}
    {queue : SubQueue α} (here : state.places thread = place)
    (optimistic : queue.dequeueOptimisticCount = state.queue.dequeueOptimisticCount)
    (overcommit : queue.dequeueOvercommit = state.queue.dequeueOvercommit)
    (head : queue.headIndex = state.queue.headIndex)
    (tail : queue.tailIndex = state.queue.tailIndex)
    (elements : queue.elements = state.queue.elements)
    (giving : weigh Point.giving after = weigh Point.giving place)
    (claiming : weigh Point.claiming after = weigh Point.claiming place)
    (knows : ∀ method point, after = some (method, point) → point.Knows queue log thread) :
    Reserved log { queue, places := state.move thread after } where
  made := optimistic.trans reserved.made
  sound := tail ▸ reserved.sound
  refused := by
    have refused := reserved.refused
    simp only [move, total_moved here, giving, overcommit]
    omega
  passed := by
    have passed := reserved.passed
    simp only [move, total_moved here, claiming, head]
    omega
  stored := (congrArg List.length elements).trans (reserved.stored.trans tail.symm)
  knows := reserved.knows_move overcommit.ge (fun _ pending => pending) knows

/-- A new reservation joins the others. -/
theorem reserve (reserved : state.Reserved log) {thread : ι} {method : Method}
    {overcommit desiredCount : Nat}
    (here : state.places thread = some (method, .reserve overcommit desiredCount)) :
    Reserved (log ++ [⟨thread, desiredCount, overcommit, none⟩])
      { queue := { state.queue with
          dequeueOptimisticCount := state.queue.dequeueOptimisticCount + desiredCount }
        places := state.move thread (some (method,
          .reloadTail overcommit desiredCount state.queue.dequeueOptimisticCount)) } := by
  obtain ⟨credited, positive⟩ := reserved.knows thread _ _ here
  have refused := reserved.refused
  have giving : 0 ≤ total (weigh Point.giving) state.places :=
    total_nonneg fun other => weigh_nonneg Point.giving_nonneg (state.places other)
  constructor
  · rw [sumOf_append, ← reserved.made]
    rfl
  · apply reserved.sound.reserve
    · change overcommit ≤ 0 + sumOf Reservation.refused log
      omega
    · rfl
  · simp only [move, total_moved here, weigh, Point.giving, sumOf_append, sumOf,
      Reservation.refused, Option.map_none, Option.getD_none]
    omega
  · have passed := reserved.passed
    simp only [move, total_moved here, weigh, Point.claiming, sumOf_append, sumOf,
      Reservation.passed, Option.getD_none]
    omega
  · exact reserved.stored
  · apply reserved.knows_move (Nat.le_refl _) (fun _ pending => pending.append _)
    rintro _ _ ⟨⟩
    exact ⟨positive, reserved.made ▸ Pending.new log thread desiredCount overcommit⟩

/-- The second load of the tail answers the reservation. -/
theorem answer (reserved : state.Reserved log) {thread : ι} {method : Method}
    {overcommit desiredCount mine : Nat}
    (here : state.places thread = some (method, .reloadTail overcommit desiredCount mine))
    (small : state.InRange) {after : Point α}
    (moves : state.queue.advance traits method (.reloadTail overcommit desiredCount mine) =
      some (state.queue, after)) :
    ∃ answered, Reserved answered
      { state with places := state.move thread (some (method, after)) } := by
  obtain ⟨positive, pending⟩ := reserved.knows thread _ _ here
  have made := reserved.made
  have reserved_before := pending.made_le
  have inRange : state.queue.dequeueOptimisticCount ≤ 2 ^ 63 := small
  have part := method.actualCount_le state.queue.tailIndex overcommit mine positive
  obtain ⟨answered, sound, counts, passes, refuses, kept⟩ := pending.grant reserved.sound part
    (method.actualCount_within (by omega))
  -- what is granted is claimed and the rest is given back
  obtain ⟨giving, claiming, knows⟩ : after.giving =
      (desiredCount - method.actualCount state.queue.tailIndex overcommit mine desiredCount : Nat) ∧
      after.claiming = method.actualCount state.queue.tailIndex overcommit mine desiredCount ∧
      after.Knows state.queue answered thread := by
    simp only [advance] at moves
    split at moves
    · obtain ⟨⟩ := moves
      exact ⟨rfl, rfl, trivial⟩
    · obtain ⟨⟩ := moves
      refine ⟨?_, rfl, ?_⟩
      · change (0 : Int) = _
        omega
      · change 0 < method.actualCount state.queue.tailIndex overcommit mine desiredCount
        omega
  have refused := reserved.refused
  have passed := reserved.passed
  refine ⟨answered, made.trans counts.symm, sound, ?_, ?_, reserved.stored, ?_⟩
  · rw [move, total_moved here]
    change _ = (state.queue.dequeueOvercommit : Int) +
      (total (weigh Point.giving) state.places - 0 + after.giving)
    omega
  · rw [move, total_moved here]
    change _ = (state.queue.headIndex : Int) +
      (total (weigh Point.claiming) state.places - 0 + after.claiming)
    omega
  · apply reserved.knows_move (Nat.le_refl _) kept
    rintro _ _ ⟨⟩
    exact knows

/-- What is given back had been refused. -/
theorem giveBack (reserved : state.Reserved log) {thread : ι} {method : Method}
    {amount actualCount : Nat}
    (here : state.places thread = some (method, .giveBack amount actualCount)) :
    Reserved log
      { queue := { state.queue with
          dequeueOvercommit := state.queue.dequeueOvercommit + amount }
        places := state.move thread (some (method,
          if actualCount = 0 then .done [] else .claim actualCount)) } := by
  have refused := reserved.refused
  have passed := reserved.passed
  constructor
  · exact reserved.made
  · exact reserved.sound
  · have giving : (if actualCount = 0 then .done [] else .claim actualCount : Point α).giving =
        0 := by
      split <;> rfl
    simp only [move, total_moved here, weigh]
    rw [giving, Point.giving]
    omega
  · have claiming : (if actualCount = 0 then .done [] else .claim actualCount : Point α).claiming =
        actualCount := by
      split
      · rename_i zero
        exact congrArg Nat.cast zero.symm
      · rfl
    simp only [move, total_moved here, weigh]
    rw [claiming, Point.claiming]
    omega
  · exact reserved.stored
  · apply reserved.knows_move (Nat.le_add_right ..) (fun _ pending => pending)
    rintro _ _ ⟨⟩
    split
    · trivial
    · rename_i some
      exact Nat.pos_of_ne_zero some

/-- What is claimed had been granted. -/
theorem claim (reserved : state.Reserved log) {thread : ι} {method : Method} {actualCount : Nat}
    (here : state.places thread = some (method, .claim actualCount)) (run : Run) :
    Reserved log
      { queue := { state.queue with headIndex := state.queue.headIndex + actualCount }
        places := state.move thread (some (method, .move run [])) } := by
  have refused := reserved.refused
  have passed := reserved.passed
  constructor
  · exact reserved.made
  · exact reserved.sound
  · simp only [move, total_moved here, weigh, Point.giving]
    omega
  · simp only [move, total_moved here, weigh, Point.claiming]
    omega
  · exact reserved.stored
  · apply reserved.knows_move (Nat.le_refl _) (fun _ pending => pending)
    rintro _ _ ⟨⟩
    trivial

/-- An operation of a thread. -/
theorem advance (reserved : state.Reserved log) {thread : ι} {method : Method} {point after : Point α}
    {queue : SubQueue α} (here : state.places thread = some (method, point))
    (small : state.InRange)
    (moves : state.queue.advance traits method point = some (queue, after)) :
    ∃ others, Reserved others { queue, places := state.move thread (some (method, after)) } := by
  cases point with
  | loadTail =>
      obtain ⟨⟩ := moves
      refine ⟨log, reserved.pass here rfl rfl rfl rfl rfl rfl rfl ?_⟩
      rintro _ _ ⟨⟩
      trivial
  | loadOvercommit tail =>
      obtain ⟨⟩ := moves
      refine ⟨log, reserved.pass here rfl rfl rfl rfl rfl rfl rfl ?_⟩
      rintro _ _ ⟨⟩
      exact Nat.le_refl _
  | loadOptimisticCount tail overcommit =>
      have credited := reserved.knows thread _ _ here
      simp only [SubQueue.advance] at moves
      split at moves
      · rename_i desiredCount wanted
        obtain ⟨⟩ := moves
        refine ⟨log, reserved.pass here rfl rfl rfl rfl rfl rfl rfl ?_⟩
        rintro _ _ ⟨⟩
        exact ⟨credited, Method.desiredCount_pos wanted⟩
      · obtain ⟨⟩ := moves
        refine ⟨log, reserved.pass here rfl rfl rfl rfl rfl rfl rfl ?_⟩
        rintro _ _ ⟨⟩
        trivial
  | reserve overcommit desiredCount =>
      obtain ⟨⟩ := moves
      exact ⟨_, reserved.reserve here⟩
  | reloadTail overcommit desiredCount myDequeueCount =>
      obtain rfl : queue = state.queue := by
        simp only [SubQueue.advance] at moves
        split at moves <;> exact (Prod.mk.inj (Option.some.inj moves)).1.symm
      exact reserved.answer here small moves
  | giveBack amount actualCount =>
      obtain ⟨⟩ := moves
      exact ⟨log, reserved.giveBack here⟩
  | claim actualCount =>
      obtain ⟨⟩ := moves
      exact ⟨log, reserved.claim here _⟩
  | move run removed =>
      simp only [SubQueue.advance] at moves
      split at moves
      · obtain ⟨⟩ := moves
        refine ⟨log, reserved.pass here rfl rfl rfl rfl rfl rfl rfl ?_⟩
        rintro _ _ ⟨⟩
        trivial
      · split at moves
        · obtain ⟨⟩ := moves
          refine ⟨log, reserved.pass here rfl rfl rfl rfl rfl rfl rfl ?_⟩
          rintro _ _ ⟨⟩
          trivial
        · cases moves
  | setEmpty run removed =>
      simp only [SubQueue.advance] at moves
      split at moves
      · obtain ⟨⟩ := moves
        refine ⟨log, reserved.pass here rfl rfl rfl rfl rfl rfl rfl ?_⟩
        rintro _ _ ⟨⟩
        trivial
      · obtain ⟨⟩ := moves
        obtain ⟨giving, claiming, knows⟩ :=
          Point.next_quiet run traits removed state.queue log thread
        refine ⟨log, reserved.pass here rfl rfl rfl rfl rfl giving claiming ?_⟩
        rintro _ _ ⟨⟩
        exact knows.mono (Nat.le_refl _) fun pending => pending
  | free run removed =>
      obtain ⟨⟩ := moves
      obtain ⟨giving, claiming, knows⟩ :=
        Point.next_quiet run traits removed state.queue log thread
      refine ⟨log, reserved.pass here rfl rfl rfl rfl rfl giving claiming ?_⟩
      rintro _ _ ⟨⟩
      exact knows.mono (Nat.le_refl _) fun pending => pending
  | done removed => cases moves

/-- A step of the producer or of a thread, as long as half the range of a word is
not used up. -/
theorem step (reserved : state.Reserved log) {event : Event ι α} {next : Sharing ι α}
    (step : Step traits state event next)
    (small : state.InRange) : ∃ others, next.Reserved others := by
  cases step with
  | construct =>
      exact ⟨log, reserved.made, reserved.sound, reserved.refused, reserved.passed,
        reserved.stored, reserved.knows⟩
  | publish =>
      refine ⟨log, reserved.made, ?_, reserved.refused, reserved.passed, ?_, reserved.knows⟩
      · exact reserved.sound.mono (Nat.le_add_right ..) (Nat.le_refl 0)
      · have stored := reserved.stored
        simp only [publish, List.length_append]
        omega
  | discard =>
      exact ⟨log, reserved.made, reserved.sound, reserved.refused, reserved.passed,
        reserved.stored, reserved.knows⟩
  | call method idle =>
      refine ⟨log, reserved.pass idle rfl rfl rfl rfl rfl rfl rfl ?_⟩
      rintro _ _ ⟨⟩
      trivial
  | advance here moves => exact reserved.advance here small moves
  | finish here => exact ⟨log, reserved.pass here rfl rfl rfl rfl rfl rfl rfl nofun⟩

end Reserved

/-- The counters keep agreeing with some reservations. -/
def reservations (traits : Traits) (ι α : Type) [Fintype ι] [DecidableEq ι] :
    (system traits ι α).Invariant where
  Holds _ state := state.InRange → ∃ log, state.Reserved log
  initial := by
    rintro _ rfl _
    refine ⟨[], rfl, trivial, ?_, ?_, rfl, nofun⟩
    · rw [total_idle]
      rfl
    · rw [total_idle]
      rfl
  preserved := by
    intro events state event next held step small
    have before : state.InRange := Step.inRange step small
    obtain ⟨log, reserved⟩ := held before
    exact reserved.step step before

/-- However threads interleave, no element is claimed before it is enqueued, as
long as no more than half the range of a word was ever reserved. -/
theorem always_in_bounds (traits : Traits) (ι α : Type) [Fintype ι] [DecidableEq ι]
    (events : List (Event ι α)) :
    (system traits ι α).Always (fun _ state =>
      state.InRange → state.InBounds) events := by
  intro before state _ run small
  obtain ⟨log, reserved⟩ := (reservations traits ι α).of_runs run small
  exact reserved.inBounds

end Sharing

end Traft.Moodycamel.SubQueue
