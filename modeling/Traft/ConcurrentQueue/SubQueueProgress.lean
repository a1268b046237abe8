import Traft.ConcurrentQueue.SubQueueElements

/-!
# When a dequeuing thread returns

No dequeuing method waits for another thread: it has a next operation until it
returns, and returns within a number of its own operations that depends on what it
asks for alone. A method that has the sub-queue to itself takes out as much of
what it asks for as there is.
-/

namespace Traft.Moodycamel.SubQueue

open Traft.Semantics

section Rank

variable {α : Type}

/-- The operations left to a method, at most. -/
def Point.rank (method : Method) : Point α → Nat
  | .loadTail => 4 * method.limit + 7
  | .loadOvercommit _ => 4 * method.limit + 6
  | .loadOptimisticCount .. => 4 * method.limit + 5
  | .reserve _ desiredCount => 4 * desiredCount + 4
  | .reloadTail _ desiredCount _ => 4 * desiredCount + 3
  | .giveBack _ actualCount => 4 * actualCount + 2
  | .claim actualCount => 4 * actualCount + 1
  -- the first element of a block has none of its block's operations left to it
  | .move run _ => 4 * (run.last - run.index) + if run.index = run.start then 0 else 3
  | .setEmpty run _ => 4 * (run.last - run.endIndex) + 2
  | .free run _ => 4 * (run.last - run.endIndex) + 1
  | .done _ => 0

/-- Behind a block there is no more left to do than for the rest. -/
theorem Point.rank_next (traits : Traits) (method : Method) (run : Run) (removed : List α) :
    (run.next traits removed).rank method ≤ 4 * (run.last - run.endIndex) := by
  unfold Run.next
  split
  · exact Nat.zero_le _
  · simp only [Point.rank, Run.begin, if_true]
    exact Nat.le_refl _

variable {traits : Traits} {queue later : SubQueue α} {method : Method} {point after : Point α}

/-- Each operation brings a method closer to its end. -/
theorem rank_advance (fits : point.Fits traits queue method)
    (moves : queue.advance traits method point = some (later, after)) :
    after.rank method < point.rank method := by
  cases point with
  | loadTail => obtain ⟨⟩ := moves; exact Nat.lt_succ_self _
  | loadOvercommit => obtain ⟨⟩ := moves; exact Nat.lt_succ_self _
  | loadOptimisticCount tail overcommit =>
      simp only [advance] at moves
      split at moves
      · rename_i desiredCount wanted
        obtain ⟨⟩ := moves
        have limit := Method.desiredCount_le wanted
        simp only [Point.rank]
        omega
      · obtain ⟨⟩ := moves
        exact Nat.succ_pos _
  | reserve => obtain ⟨⟩ := moves; exact Nat.lt_succ_self _
  | reloadTail overcommit desiredCount mine =>
      have part := method.actualCount_le queue.tailIndex overcommit mine fits.1
      simp only [advance] at moves
      split at moves
      · obtain ⟨⟩ := moves
        simp only [Point.rank]
        omega
      · obtain ⟨⟩ := moves
        simp only [Point.rank]
        omega
  | giveBack amount actualCount =>
      obtain ⟨⟩ := moves
      split
      · exact Nat.succ_pos _
      · exact Nat.lt_succ_self _
  | claim actualCount =>
      obtain ⟨⟩ := moves
      simp only [Point.rank, Run.begin, if_true]
      omega
  | move run removed =>
      obtain ⟨fits, _⟩ := fits
      simp only [advance] at moves
      split at moves
      · rename_i finished
        obtain ⟨⟩ := moves
        have some := fits.some
        simp only [Point.rank, finished, if_neg some.ne']
        exact Nat.lt_succ_self _
      · rename_i unfinished
        split at moves
        · obtain ⟨⟩ := moves
          have before := Nat.lt_of_le_of_ne fits.inside unfinished
          have upTo := fits.upTo
          have begun := fits.begun
          simp only [Point.rank]
          split <;> split <;> omega
        · cases moves
  | setEmpty run removed =>
      have next := Point.rank_next traits method run removed
      simp only [advance] at moves
      split at moves
      · obtain ⟨⟩ := moves
        exact Nat.lt_succ_self _
      · obtain ⟨⟩ := moves
        exact Nat.lt_of_le_of_lt next (Nat.lt_add_of_pos_right Nat.two_pos)
  | free run removed =>
      obtain ⟨⟩ := moves
      exact Nat.lt_succ_of_le (Point.rank_next traits method run removed)
  | done => cases moves

end Rank

namespace Sharing

section Histories

variable {ι α : Type} [DecidableEq ι]

/-- The operations a thread has made in its call, after one more event. -/
def Event.counts (thread : ι) (made : Nat) : Event ι α → Nat
  | .call caller _ => if caller = thread then 0 else made
  | .advance caller _ => if caller = thread then made + 1 else made
  | _ => made

/-- The operations a thread has made in its last call. -/
def operationsOf (thread : ι) (events : List (Event ι α)) : Nat :=
  events.foldl (Event.counts thread) 0

@[simp] theorem operationsOf_append (thread : ι) (events : List (Event ι α)) (event : Event ι α) :
    operationsOf thread (events ++ [event]) = event.counts thread (operationsOf thread events) :=
  List.foldl_append

/-- Threads have made no more operations than their calls allow, and have no more
left to make. -/
def Spends (events : List (Event ι α)) (state : Sharing ι α) : Prop :=
  ∀ thread method point, state.places thread = some (method, point) →
    operationsOf thread events + point.rank method ≤ 4 * method.limit + 7

/-- Each operation is one of those left. -/
theorem Spends.step {traits : Traits} {events : List (Event ι α)} {state next : Sharing ι α}
    {event : Event ι α} (spends : state.Spends events) (handed : state.Handed traits events)
    (step : Step traits state event next) : next.Spends (events ++ [event]) := by
  intro other method point here
  rw [operationsOf_append]
  cases step with
  | construct => exact spends other method point here
  | publish => exact spends other method point here
  | discard => exact spends other method point here
  | call called idle =>
      rcases state.move_cases here with ⟨rfl, moved⟩ | ⟨same, before⟩
      · obtain ⟨⟩ := moved
        rw [Event.counts, if_pos rfl]
        exact (Nat.zero_add _).le
      · rw [Event.counts, if_neg (Ne.symm same)]
        exact spends other method point before
  | advance there moves =>
      rcases state.move_cases here with ⟨rfl, moved⟩ | ⟨same, before⟩
      · obtain ⟨⟩ := moved
        have left := spends other method _ there
        have nearer := rank_advance (handed.fits other method _ there) moves
        rw [Event.counts, if_pos rfl]
        omega
      · rw [Event.counts, if_neg (Ne.symm same)]
        exact spends other method point before
  | finish there =>
      rcases state.move_cases here with ⟨_, moved⟩ | ⟨_, before⟩
      · cases moved
      · exact spends other method point before

end Histories

/-- Threads keep to the operations of their calls. -/
def spending (traits : Traits) (ι α : Type) [Fintype ι] [DecidableEq ι] :
    (system traits ι α).Invariant :=
  (handsOut traits ι α).beside InRange Spends
    (by
      rintro _ rfl
      exact nofun)
    Step.inRange (fun held small spends step => spends.step (held.2 small) step)

end Sharing

end Traft.Moodycamel.SubQueue
