import Traft.ConcurrentQueue.SemaphoreRun

/-!
# A thread alone at the semaphore

The methods of the semaphore loop until an exchange of theirs succeeds. `rank`
bounds the operations a method still makes while nobody interferes: it counts
the rounds of the spinning loop and knows that an exchange fails once at most.
-/

namespace Traft.Moodycamel.LightweightSemaphore

open Traft.Semantics

section Rank

variable {S : Type}

/-- The operations a thread at `point` makes at most when it goes on alone. -/
def rank (semaphore : LightweightSemaphore S) : Point → Nat
  | .load got => if got = 0 then semaphore.maxSpins + 10 else 2
  | .exchange got oldCount _ =>
      if semaphore.count = oldCount then 1
      else if got = 0 then semaphore.maxSpins + 10 else 2
  | .spin left => left + 9
  | .spinExchange left oldCount _ => if semaphore.count = oldCount then 1 else left + 10
  | .subtract => 8
  | .block => 6
  | .recheck => if semaphore.count < 0 then 2 else 4
  | .tryPosted => 3
  | .giveUp oldCount _ => if semaphore.count = oldCount then 1 else 5
  | .add _ => (debt semaphore.count).toNat + 2
  | .post left => left + 1
  | .done _ => 0

/-- With the permit it was given, a wait is nearly done. -/
theorem rank_gained (semaphore : LightweightSemaphore S) (method : Method) :
    rank semaphore method.gained ≤ 2 := by
  unfold Method.gained
  split
  · exact Nat.le_refl 2
  · exact Nat.zero_le 2

/-- Another round is the last one, or the spinning loop begins. -/
theorem rank_tried (semaphore : LightweightSemaphore S) (method : Method) (got : Int) :
    rank semaphore (method.tried semaphore.maxSpins got semaphore.count) <
      if got = 0 then semaphore.maxSpins + 10 else 2 := by
  unfold Method.tried
  split
  · simp only [rank, if_true]
    split <;> omega
  · split
    · rename_i first
      rw [if_pos first.1]
      exact Nat.lt_succ_self _
    · simp only [rank]
      split <;> omega

section Operations

variable [FiberSemaphore S]

/-- A thread that waits has a post made or owed, if no other thread has one to
make. -/
def Covered (semaphore : LightweightSemaphore S) (point : Point) : Prop :=
  0 ≤ debt semaphore.count + FiberSemaphore.value semaphore.sema + point.posting - point.waiting

/-- Every operation of a thread alone brings it nearer to its end. -/
theorem rank_advance {semaphore next : LightweightSemaphore S} {method : Method}
    {point after : Point} (covered : Covered semaphore point)
    (moves : advance true semaphore method point = some (next, after)) :
    rank next after < rank semaphore point := by
  cases point with
  | load got =>
      obtain ⟨rfl, rfl⟩ := Prod.mk.inj (Option.some.inj moves)
      exact rank_tried semaphore method got
  | exchange got oldCount positive =>
      simp only [advance, and_true] at moves
      split at moves
      · rename_i found
        obtain ⟨rfl, rfl⟩ := Prod.mk.inj (Option.some.inj moves)
        simp only [rank, if_pos found]
        exact Nat.one_pos
      · rename_i stale
        obtain ⟨rfl, rfl⟩ := Prod.mk.inj (Option.some.inj moves)
        simp only [rank, if_neg stale]
        exact rank_tried semaphore method got
  | spin left =>
      cases left with
      | zero =>
          obtain ⟨rfl, rfl⟩ := Prod.mk.inj (Option.some.inj moves)
          exact Nat.lt_succ_self 8
      | succ left =>
          simp only [advance] at moves
          split at moves
          · obtain ⟨rfl, rfl⟩ := Prod.mk.inj (Option.some.inj moves)
            simp only [rank, if_pos]
            omega
          · obtain ⟨rfl, rfl⟩ := Prod.mk.inj (Option.some.inj moves)
            exact Nat.lt_succ_self _
  | spinExchange left oldCount positive =>
      simp only [advance] at moves
      split at moves
      · rename_i found
        obtain ⟨rfl, rfl⟩ := Prod.mk.inj (Option.some.inj moves)
        simp only [rank, if_pos found]
        exact Nat.one_pos
      · rename_i stale
        obtain ⟨rfl, rfl⟩ := Prod.mk.inj (Option.some.inj moves)
        simp only [rank, if_neg stale]
        exact Nat.lt_succ_self _
  | subtract =>
      obtain ⟨rfl, rfl⟩ := Prod.mk.inj (Option.some.inj moves)
      split
      · exact (rank_gained _ method).trans_lt (show 2 < 8 by omega)
      · split
        · simp only [rank]
          split <;> omega
        · exact show 6 < 8 by omega
  | block =>
      simp only [advance, or_true, if_true] at moves
      split at moves
      · obtain ⟨rfl, rfl⟩ := Prod.mk.inj (Option.some.inj moves)
        exact (rank_gained _ method).trans_lt (show 2 < 6 by omega)
      · split at moves
        · cases moves
        · obtain ⟨rfl, rfl⟩ := Prod.mk.inj (Option.some.inj moves)
          simp only [rank]
          split <;> omega
  | recheck =>
      simp only [advance] at moves
      split at moves
      · rename_i negative
        obtain ⟨rfl, rfl⟩ := Prod.mk.inj (Option.some.inj moves)
        simp only [rank, if_pos, if_pos negative]
        exact Nat.one_lt_two
      · rename_i nonneg
        obtain ⟨rfl, rfl⟩ := Prod.mk.inj (Option.some.inj moves)
        simp only [rank, if_neg nonneg]
        exact Nat.lt_succ_self 3
  | tryPosted =>
      simp only [advance] at moves
      split at moves
      · obtain ⟨rfl, rfl⟩ := Prod.mk.inj (Option.some.inj moves)
        exact (rank_gained _ method).trans_lt (show 2 < 3 by omega)
      · rename_i nothing
        obtain ⟨rfl, rfl⟩ := Prod.mk.inj (Option.some.inj moves)
        -- nothing was posted, so the post is owed
        have empty := FiberSemaphore.value_zero nothing
        have negative : semaphore.count < 0 := by
          simp only [Covered, debt, Point.posting, Point.waiting] at covered
          omega
        simp only [rank, if_pos negative]
        exact Nat.lt_succ_self 2
  | giveUp oldCount negative =>
      simp only [advance] at moves
      split at moves
      · rename_i found
        obtain ⟨rfl, rfl⟩ := Prod.mk.inj (Option.some.inj moves)
        simp only [rank, if_pos found]
        exact Nat.one_pos
      · rename_i stale
        obtain ⟨rfl, rfl⟩ := Prod.mk.inj (Option.some.inj moves)
        simp only [rank, if_neg stale]
        split <;> omega
  | add count =>
      obtain ⟨rfl, rfl⟩ := Prod.mk.inj (Option.some.inj moves)
      split
      · simp only [rank, toRelease, debt]
        omega
      · exact Nat.succ_pos _
  | post left =>
      cases left with
      | zero =>
          obtain ⟨rfl, rfl⟩ := Prod.mk.inj (Option.some.inj moves)
          exact Nat.one_pos
      | succ left =>
          obtain ⟨rfl, rfl⟩ := Prod.mk.inj (Option.some.inj moves)
          exact Nat.lt_succ_self _
  | done result => cases moves

end Operations

end Rank

namespace Contention

section Threads

variable {S ι : Type}

/-- The rank of a thread. -/
def rankOf (thread : ι) (state : Contention S ι) : Nat :=
  (state.places thread).elim 0 fun place => rank state.semaphore place.2

/-- That of a thread at a point. -/
theorem rankOf_eq {thread : ι} {state : Contention S ι} {method : Method} {point : Point}
    (here : state.places thread = some (method, point)) :
    state.rankOf thread = rank state.semaphore point := by
  rw [rankOf, here, Option.elim_some]

end Threads

variable {S ι : Type} [FiberSemaphore S]

/-- A thread has returned to the end of its method, or blocks until somebody makes
a post. -/
def Rests (state : Contention S ι) (thread : ι) : Prop :=
  ∃ method point, state.places thread = some (method, point) ∧
    ((∃ result, point = .done result) ∨
      point = .block ∧ method.timeout < 0 ∧
        FiberSemaphore.tryWait state.semaphore.sema = none)

variable [Fintype ι]

/-- A thread is inside a method, and no other one has a post to make. -/
def Alone (thread : ι) (state : Contention S ι) : Prop :=
  ∃ method point, state.places thread = some (method, point) ∧ state.posting = point.posting

/-- Where nobody else has a post to make, a thread that waits is covered. -/
theorem Accounted.covered {initialCount maxSpins : Nat} {events : List (Event ι)}
    {state : Contention S ι} {thread : ι} {method : Method} {point : Point}
    (account : state.Accounted initialCount maxSpins events)
    (here : state.places thread = some (method, point)) (alone : state.posting = point.posting) :
    Covered state.semaphore point := by
  have own : weigh Point.waiting (state.places thread) ≤ state.waiting :=
    weight_le_total (fun other => weigh_nonneg Point.waiting_nonneg (state.places other)) thread
  rw [here] at own
  change point.waiting ≤ state.waiting at own
  have posts := account.posts
  unfold Covered
  omega

/-- No rank is above the rounds of the spinning loop, the posts of a `signal`, and
a few operations more. -/
theorem Accounted.rank_le {initialCount maxSpins : Nat} {events : List (Event ι)}
    {state : Contention S ι} {thread : ι} {method : Method} {point : Point}
    (account : state.Accounted initialCount maxSpins events)
    (here : state.places thread = some (method, point)) :
    rank state.semaphore point ≤ maxSpins + Fintype.card ι + 10 := by
  have fits := account.fits thread method point here
  have spins := account.spins
  cases point with
  | load got =>
      simp only [rank]
      split <;> omega
  | exchange got oldCount positive =>
      simp only [rank]
      split
      · omega
      · split <;> omega
  | spin left =>
      have left_le := fits.2
      simp only [rank]
      omega
  | spinExchange left oldCount positive =>
      have left_le := fits.2
      simp only [rank]
      split <;> omega
  | recheck =>
      simp only [rank]
      split <;> omega
  | giveUp oldCount negative =>
      simp only [rank]
      split <;> omega
  | add count =>
      have weightless : weigh Point.waiting (state.places thread) = 0 := by
        rw [here]
        rfl
      have fewer : state.waiting < Fintype.card ι :=
        total_lt_card (fun other => weigh_le_one Point.waiting_le_one _) weightless
      have posting : 0 ≤ state.posting :=
        total_nonneg fun other => weigh_nonneg Point.posting_nonneg (state.places other)
      have posts := account.posts
      simp only [rank]
      omega
  | post left =>
      have fewer := account.posts_lt_card here
      simp only [rank]
      omega
  | subtract =>
      simp only [rank]
      omega
  | block =>
      simp only [rank]
      omega
  | tryPosted =>
      simp only [rank]
      omega
  | done result => exact Nat.zero_le _

variable [DecidableEq ι]

end Contention

end Traft.Moodycamel.LightweightSemaphore
