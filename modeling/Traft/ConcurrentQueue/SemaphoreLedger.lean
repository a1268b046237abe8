import Traft.ConcurrentQueue.LightweightSemaphore

/-!
# What one operation of the semaphore changes

`Balances` are the two equations an operation keeps: permits are counted, held,
owed or not added yet, and a thread that waits has a post made, being made or
owed. `Point.Fits` is where a method gets to and what it may return.
-/

namespace Traft.Moodycamel.LightweightSemaphore

variable {S : Type} [FiberSemaphore S]

/-- The threads which block without a post on the way to them. -/
def debt (count : Int) : Int := Max.max (-count) 0

namespace Point

/-- A thread that has lowered the count for a permit it was not given yet. -/
def waiting : Point → Int
  | .block | .recheck | .tryPosted | .giveUp .. => 1
  | _ => 0

/-- The permits a thread has taken and will return. -/
def held : Point → Int
  | .load got => got
  | .exchange got .. => got
  | .done result => result
  | _ => 0

/-- The posts a thread still has to make. -/
def posting : Point → Int
  | .post left => left
  | _ => 0

/-- The permits a thread still has to add. -/
def adding : Point → Int
  | .add count => count
  | _ => 0

/-- A thread waits for one post. -/
theorem waiting_nonneg (point : Point) : 0 ≤ point.waiting := by
  cases point <;> simp [waiting]

theorem waiting_le_one (point : Point) : point.waiting ≤ 1 := by
  cases point <;> simp [waiting]

/-- Nobody has fewer than no posts to make. -/
theorem posting_nonneg (point : Point) : 0 ≤ point.posting := by
  cases point <;> simp [posting]

/-- Nor fewer than no permits to add. -/
theorem adding_nonneg (point : Point) : 0 ≤ point.adding := by
  cases point <;> simp [adding]

end Point

/-- An exchange never takes more than there is. -/
theorem Method.newCount_nonneg (method : Method) (got : Int) {oldCount : Int} (positive : 0 < oldCount) :
    0 ≤ method.newCount got oldCount := by
  cases method <;> simp only [newCount] <;> omega

/-- A point at which a thread has no business with the others beside what it
holds. -/
structure Point.Holds (point : Point) (permits : Int) : Prop where
  waiting : point.waiting = 0
  held : point.held = permits
  posting : point.posting = 0
  adding : point.adding = 0

/-- A method that begins holds nothing and owes nobody a post. -/
theorem Method.start_holds (method : Method) :
    method.start.waiting = 0 ∧ method.start.held = 0 ∧ method.start.posting = 0 := by
  cases method <;> exact ⟨rfl, rfl, rfl⟩

/-- The one permit that was given is held. -/
theorem Method.gained_holds (method : Method) : method.gained.Holds 1 := by
  unfold gained
  split
  · exact ⟨rfl, rfl, rfl, rfl⟩
  · exact ⟨rfl, rfl, rfl, rfl⟩

/-- What was taken before another round is still held behind it. -/
theorem Method.tried_holds (method : Method) (maxSpins : Nat) (got oldCount : Int) :
    (method.tried maxSpins got oldCount).Holds got := by
  unfold tried
  split
  · exact ⟨rfl, rfl, rfl, rfl⟩
  · split
    · rename_i first
      exact ⟨rfl, first.1.symm, rfl, rfl⟩
    · exact ⟨rfl, rfl, rfl, rfl⟩

/-- What an operation leaves as it was: the permits, which are counted, held by a
thread, owed to one that waits or not added yet; and the threads that wait, for
each of which a post has been made, is being made, or is owed. -/
structure Balances (semaphore : LightweightSemaphore S) (point : Point)
    (next : LightweightSemaphore S) (after : Point) : Prop where
  spins : next.maxSpins = semaphore.maxSpins
  permits : next.count + after.waiting + after.held + after.adding =
    semaphore.count + point.waiting + point.held + point.adding
  posts : debt next.count + FiberSemaphore.value next.sema + after.posting - after.waiting =
    debt semaphore.count + FiberSemaphore.value semaphore.sema + point.posting - point.waiting

/-- A thread that only looks on hands nothing over. -/
theorem Balances.looks {semaphore : LightweightSemaphore S} {point after : Point}
    {permits : Int} (before : point.Holds permits) (behind : after.Holds permits) :
    Balances semaphore point semaphore after := by
  refine ⟨rfl, ?_, ?_⟩
  · rw [before.waiting, before.held, before.adding, behind.waiting, behind.held, behind.adding]
  · rw [before.waiting, before.posting, behind.waiting, behind.posting]

/-- A successful exchange takes what it lowers the count by. -/
theorem Balances.takes {semaphore : LightweightSemaphore S} {point : Point} (got : Int)
    (method : Method) (before : point.Holds got) (positive : 0 < semaphore.count) :
    Balances semaphore point
      { semaphore with count := method.newCount got semaphore.count }
      (.done (got + (semaphore.count - method.newCount got semaphore.count))) := by
  have nonneg := method.newCount_nonneg got positive
  refine ⟨rfl, ?_, ?_⟩
  · rw [before.waiting, before.held, before.adding]
    simp only [Point.waiting, Point.held, Point.adding]
    omega
  · rw [before.waiting, before.posting]
    simp only [Point.waiting, Point.posting, debt]
    omega

/-- A waiting thread that gets a post has its permit. -/
theorem Balances.wakes {semaphore : LightweightSemaphore S} {point : Point} {sema : S}
    (method : Method) (waits : point.waiting = 1) (held : point.held = 0)
    (posting : point.posting = 0) (adding : point.adding = 0)
    (taken : FiberSemaphore.tryWait semaphore.sema = some sema) :
    Balances semaphore point { semaphore with sema } method.gained := by
  have gained := method.gained_holds
  have value := FiberSemaphore.value_tryWait taken
  refine ⟨rfl, ?_, ?_⟩
  · rw [waits, held, adding, gained.waiting, gained.held, gained.adding]
    change semaphore.count + 0 + 1 + 0 = _
    omega
  · rw [waits, posting, gained.waiting, gained.posting]
    change debt semaphore.count + FiberSemaphore.value sema + 0 - 0 = _
    omega

/-- A thread that lowers the count has a permit or waits for one. -/
theorem Balances.subtracts {semaphore : LightweightSemaphore S} (method : Method) :
    Balances semaphore .subtract { semaphore with count := semaphore.count - 1 }
      (if 0 < semaphore.count then method.gained
        else if method.timeout = 0 then .recheck
        else .block) := by
  have gained := method.gained_holds
  by_cases there : 0 < semaphore.count
  · rw [if_pos there]
    refine ⟨rfl, ?_, ?_⟩
    · rw [gained.waiting, gained.held, gained.adding]
      simp only [Point.waiting, Point.held, Point.adding]
      omega
    · rw [gained.waiting, gained.posting]
      simp only [Point.waiting, Point.posting, debt]
      omega
  · rw [if_neg there]
    by_cases zero : method.timeout = 0
    · rw [if_pos zero]
      refine ⟨rfl, ?_, ?_⟩
      · simp only [Point.waiting, Point.held, Point.adding]
        omega
      · simp only [Point.waiting, Point.posting, debt]
        omega
    · rw [if_neg zero]
      refine ⟨rfl, ?_, ?_⟩
      · simp only [Point.waiting, Point.held, Point.adding]
        omega
      · simp only [Point.waiting, Point.posting, debt]
        omega

/-- A thread that gives up takes back what it lowered the count by. -/
theorem Balances.givesUp {semaphore : LightweightSemaphore S} (negative : semaphore.count < 0) :
    Balances semaphore (.giveUp semaphore.count negative)
      { semaphore with count := semaphore.count + 1 } (.done 0) := by
  refine ⟨rfl, ?_, ?_⟩
  · simp only [Point.waiting, Point.held, Point.adding]
    omega
  · simp only [Point.waiting, Point.posting, debt]
    omega

/-- `signal` makes a post for each waiting thread it adds a permit for. -/
theorem Balances.adds {semaphore : LightweightSemaphore S} {count : Nat} :
    Balances semaphore (.add count) { semaphore with count := semaphore.count + count }
      (if toRelease semaphore.count count > 0 then .post (toRelease semaphore.count count).toNat
        else .done 0) := by
  by_cases releases : toRelease semaphore.count count > 0
  · rw [if_pos releases]
    refine ⟨rfl, ?_, ?_⟩
    · simp only [Point.waiting, Point.held, Point.adding]
      omega
    · simp only [Point.waiting, Point.posting, debt]
      unfold toRelease at *
      omega
  · rw [if_neg releases]
    refine ⟨rfl, ?_, ?_⟩
    · simp only [Point.waiting, Point.held, Point.adding]
      omega
    · simp only [Point.waiting, Point.posting, debt]
      unfold toRelease at *
      omega

/-- A post is made once. -/
theorem Balances.makesPost {semaphore : LightweightSemaphore S} (left : Nat) :
    Balances semaphore (.post (left + 1))
      { semaphore with sema := FiberSemaphore.post semaphore.sema } (.post left) := by
  have value := FiberSemaphore.value_post semaphore.sema
  refine ⟨rfl, rfl, ?_⟩
  simp only [Point.waiting, Point.posting]
  omega

/-- Every operation balances. -/
theorem advance_balances {gives : Bool} {semaphore next : LightweightSemaphore S}
    {method : Method} {point after : Point}
    (moves : advance gives semaphore method point = some (next, after)) :
    Balances semaphore point next after := by
  cases point with
  | load got =>
      obtain ⟨rfl, rfl⟩ := Prod.mk.inj (Option.some.inj moves)
      exact .looks ⟨rfl, rfl, rfl, rfl⟩ (method.tried_holds ..)
  | exchange got oldCount positive =>
      simp only [advance] at moves
      split at moves
      · rename_i found
        obtain ⟨rfl, rfl⟩ := Prod.mk.inj (Option.some.inj moves)
        obtain ⟨rfl, _⟩ := found
        exact .takes got method ⟨rfl, rfl, rfl, rfl⟩ positive
      · obtain ⟨rfl, rfl⟩ := Prod.mk.inj (Option.some.inj moves)
        exact .looks ⟨rfl, rfl, rfl, rfl⟩ (method.tried_holds ..)
  | spin left =>
      cases left with
      | zero =>
          obtain ⟨rfl, rfl⟩ := Prod.mk.inj (Option.some.inj moves)
          exact .looks ⟨rfl, rfl, rfl, rfl⟩ ⟨rfl, rfl, rfl, rfl⟩
      | succ left =>
          simp only [advance] at moves
          split at moves
          · obtain ⟨rfl, rfl⟩ := Prod.mk.inj (Option.some.inj moves)
            exact .looks ⟨rfl, rfl, rfl, rfl⟩ ⟨rfl, rfl, rfl, rfl⟩
          · obtain ⟨rfl, rfl⟩ := Prod.mk.inj (Option.some.inj moves)
            exact .looks ⟨rfl, rfl, rfl, rfl⟩ ⟨rfl, rfl, rfl, rfl⟩
  | spinExchange left oldCount positive =>
      simp only [advance] at moves
      split at moves
      · rename_i found
        subst found
        obtain ⟨rfl, rfl⟩ := Prod.mk.inj (Option.some.inj moves)
        rw [← Int.zero_add (semaphore.count - _)]
        exact .takes 0 method ⟨rfl, rfl, rfl, rfl⟩ positive
      · obtain ⟨rfl, rfl⟩ := Prod.mk.inj (Option.some.inj moves)
        exact .looks ⟨rfl, rfl, rfl, rfl⟩ ⟨rfl, rfl, rfl, rfl⟩
  | subtract =>
      obtain ⟨rfl, rfl⟩ := Prod.mk.inj (Option.some.inj moves)
      exact .subtracts method
  | block =>
      simp only [advance] at moves
      split at moves
      · rename_i sema taken
        split at moves
        · obtain ⟨rfl, rfl⟩ := Prod.mk.inj (Option.some.inj moves)
          exact .wakes method rfl rfl rfl rfl taken
        · obtain ⟨rfl, rfl⟩ := Prod.mk.inj (Option.some.inj moves)
          exact ⟨rfl, rfl, rfl⟩
      · split at moves
        · cases moves
        · obtain ⟨rfl, rfl⟩ := Prod.mk.inj (Option.some.inj moves)
          exact ⟨rfl, rfl, rfl⟩
  | recheck =>
      simp only [advance] at moves
      split at moves
      · obtain ⟨rfl, rfl⟩ := Prod.mk.inj (Option.some.inj moves)
        exact ⟨rfl, rfl, rfl⟩
      · obtain ⟨rfl, rfl⟩ := Prod.mk.inj (Option.some.inj moves)
        exact ⟨rfl, rfl, rfl⟩
  | tryPosted =>
      simp only [advance] at moves
      split at moves
      · rename_i sema taken
        obtain ⟨rfl, rfl⟩ := Prod.mk.inj (Option.some.inj moves)
        exact .wakes method rfl rfl rfl rfl taken
      · obtain ⟨rfl, rfl⟩ := Prod.mk.inj (Option.some.inj moves)
        exact ⟨rfl, rfl, rfl⟩
  | giveUp oldCount negative =>
      simp only [advance] at moves
      split at moves
      · rename_i found
        subst found
        obtain ⟨rfl, rfl⟩ := Prod.mk.inj (Option.some.inj moves)
        exact .givesUp negative
      · obtain ⟨rfl, rfl⟩ := Prod.mk.inj (Option.some.inj moves)
        exact ⟨rfl, rfl, rfl⟩
  | add count =>
      obtain ⟨rfl, rfl⟩ := Prod.mk.inj (Option.some.inj moves)
      exact .adds
  | post left =>
      cases left with
      | zero =>
          obtain ⟨rfl, rfl⟩ := Prod.mk.inj (Option.some.inj moves)
          exact .looks ⟨rfl, rfl, rfl, rfl⟩ ⟨rfl, rfl, rfl, rfl⟩
      | succ left =>
          obtain ⟨rfl, rfl⟩ := Prod.mk.inj (Option.some.inj moves)
          exact .makesPost left
  | done result => cases moves

/-- The results of a method: no more than it asks for, and not nothing for one
that waits forever. -/
structure Method.Returns (method : Method) (result : Int) : Prop where
  nonneg : 0 ≤ result
  most : result ≤ method.max
  something : method.waits → method.timeout < 0 → 0 < result

/-- Where a method gets to: with a permit only if it wants more, to the waiting
part only if it waits, and past a blocking wait only if that can time out. -/
def Point.Fits (maxSpins : Nat) (method : Method) : Point → Prop
  | .load got | .exchange got .. => got = 0 ∨ got = 1 ∧ 1 < method.max
  | .spin left | .spinExchange left .. => method.waits ∧ left ≤ maxSpins
  | .subtract | .block => method.waits
  | .recheck | .tryPosted | .giveUp .. => method.waits ∧ 0 ≤ method.timeout
  | .add count => method = .signal count
  | .post left => ∃ count, method = .signal count ∧ left ≤ count
  | .done result => method.Returns result

/-- An exchange takes no more than is still asked for, and something if that is
not nothing. -/
theorem Method.newCount_bounds (method : Method) {got oldCount : Int} (positive : 0 < oldCount)
    (wanted : got = 0 ∨ got = 1 ∧ 1 < method.max) :
    method.newCount got oldCount ≤ oldCount ∧
      got + (oldCount - method.newCount got oldCount) ≤ method.max ∧
      (got < method.max → method.newCount got oldCount < oldCount) := by
  cases method <;> simp only [newCount, max] at * <;> omega

/-- A method that waits asks for something. -/
theorem Method.max_pos {method : Method} (waits : method.waits) : 0 < method.max := by
  cases method with
  | tryWait => cases waits
  | wait timeout => exact Nat.one_pos
  | tryWaitMany max => cases waits
  | waitMany max timeout => exact of_decide_eq_true waits
  | signal count => cases waits

/-- Methods start where they fit. -/
theorem Method.start_fits (maxSpins : Nat) (method : Method) : method.start.Fits maxSpins method := by
  cases method with
  | signal count => exact rfl
  | tryWait => exact .inl rfl
  | wait timeout => exact .inl rfl
  | tryWaitMany max => exact .inl rfl
  | waitMany max timeout => exact .inl rfl

/-- A wait that was given a permit returns it, with more only if it wants more. -/
theorem Method.gained_fits (maxSpins : Nat) {method : Method} (waits : method.waits) :
    method.gained.Fits maxSpins method := by
  have asks := max_pos waits
  unfold gained
  split
  · rename_i more
    exact .inr ⟨rfl, more⟩
  · refine ⟨?_, ?_, fun _ _ => ?_⟩ <;> omega

/-- Another round, the waiting part and the result all fit. -/
theorem Method.tried_fits {method : Method} {maxSpins : Nat} {got : Int} (oldCount : Int)
    (wanted : got = 0 ∨ got = 1 ∧ 1 < method.max) :
    (method.tried maxSpins got oldCount).Fits maxSpins method := by
  unfold tried
  split
  · exact wanted
  · split
    · rename_i first
      exact ⟨first.2, Nat.le_refl _⟩
    · rename_i last
      refine ⟨by omega, by omega, ?_⟩
      intro waits _
      rcases wanted with zero | ⟨one, _⟩
      · exact absurd ⟨zero, waits⟩ last
      · omega

/-- A successful exchange has a result to return. -/
theorem Method.taken_returns {method : Method} {got oldCount : Int} (positive : 0 < oldCount)
    (wanted : got = 0 ∨ got = 1 ∧ 1 < method.max) :
    method.Returns (got + (oldCount - method.newCount got oldCount)) := by
  obtain ⟨less, most, some⟩ := method.newCount_bounds positive wanted
  refine ⟨by omega, most, ?_⟩
  intro waits _
  have asks := max_pos waits
  omega

/-- Every operation leads to a point that fits. -/
theorem advance_fits {gives : Bool} {semaphore next : LightweightSemaphore S}
    {method : Method} {point after : Point} (fits : point.Fits semaphore.maxSpins method)
    (moves : advance gives semaphore method point = some (next, after)) :
    after.Fits semaphore.maxSpins method := by
  cases point with
  | load got =>
      obtain ⟨rfl, rfl⟩ := Prod.mk.inj (Option.some.inj moves)
      exact Method.tried_fits _ fits
  | exchange got oldCount positive =>
      simp only [advance] at moves
      split at moves
      · obtain ⟨rfl, rfl⟩ := Prod.mk.inj (Option.some.inj moves)
        exact Method.taken_returns positive fits
      · obtain ⟨rfl, rfl⟩ := Prod.mk.inj (Option.some.inj moves)
        exact Method.tried_fits _ fits
  | spin left =>
      cases left with
      | zero =>
          obtain ⟨rfl, rfl⟩ := Prod.mk.inj (Option.some.inj moves)
          exact fits.1
      | succ left =>
          simp only [advance] at moves
          split at moves
          · obtain ⟨rfl, rfl⟩ := Prod.mk.inj (Option.some.inj moves)
            exact ⟨fits.1, Nat.le_of_succ_le fits.2⟩
          · obtain ⟨rfl, rfl⟩ := Prod.mk.inj (Option.some.inj moves)
            exact ⟨fits.1, Nat.le_of_succ_le fits.2⟩
  | spinExchange left oldCount positive =>
      simp only [advance] at moves
      split at moves
      · obtain ⟨rfl, rfl⟩ := Prod.mk.inj (Option.some.inj moves)
        rw [← Int.zero_add (oldCount - _)]
        exact Method.taken_returns positive (.inl rfl)
      · obtain ⟨rfl, rfl⟩ := Prod.mk.inj (Option.some.inj moves)
        exact fits
  | subtract =>
      obtain ⟨rfl, rfl⟩ := Prod.mk.inj (Option.some.inj moves)
      split
      · exact Method.gained_fits _ fits
      · split
        · rename_i zero
          exact ⟨fits, zero.ge⟩
        · exact fits
  | block =>
      simp only [advance] at moves
      split at moves
      · split at moves
        · obtain ⟨rfl, rfl⟩ := Prod.mk.inj (Option.some.inj moves)
          exact Method.gained_fits _ fits
        · rename_i timed
          obtain ⟨rfl, rfl⟩ := Prod.mk.inj (Option.some.inj moves)
          exact ⟨fits, Int.not_lt.mp fun negative => timed (.inl negative)⟩
      · split at moves
        · cases moves
        · rename_i timed
          obtain ⟨rfl, rfl⟩ := Prod.mk.inj (Option.some.inj moves)
          exact ⟨fits, Int.not_lt.mp timed⟩
  | recheck =>
      simp only [advance] at moves
      split at moves
      · obtain ⟨rfl, rfl⟩ := Prod.mk.inj (Option.some.inj moves)
        exact fits
      · obtain ⟨rfl, rfl⟩ := Prod.mk.inj (Option.some.inj moves)
        exact fits
  | tryPosted =>
      simp only [advance] at moves
      split at moves
      · obtain ⟨rfl, rfl⟩ := Prod.mk.inj (Option.some.inj moves)
        exact Method.gained_fits _ fits.1
      · obtain ⟨rfl, rfl⟩ := Prod.mk.inj (Option.some.inj moves)
        exact fits
  | giveUp oldCount negative =>
      simp only [advance] at moves
      split at moves
      · obtain ⟨rfl, rfl⟩ := Prod.mk.inj (Option.some.inj moves)
        exact ⟨Int.le_refl 0, Int.natCast_nonneg _, fun _ forever => absurd fits.2 (by omega)⟩
      · obtain ⟨rfl, rfl⟩ := Prod.mk.inj (Option.some.inj moves)
        exact fits
  | add count =>
      obtain rfl := fits
      obtain ⟨rfl, rfl⟩ := Prod.mk.inj (Option.some.inj moves)
      split
      · refine ⟨count, rfl, ?_⟩
        unfold toRelease
        omega
      · exact ⟨Int.le_refl 0, Int.le_refl 0, fun waits => by cases waits⟩
  | post left =>
      obtain ⟨count, rfl, bounded⟩ := fits
      cases left with
      | zero =>
          obtain ⟨rfl, rfl⟩ := Prod.mk.inj (Option.some.inj moves)
          exact ⟨Int.le_refl 0, Int.le_refl 0, fun waits => by cases waits⟩
      | succ left =>
          obtain ⟨rfl, rfl⟩ := Prod.mk.inj (Option.some.inj moves)
          exact ⟨count, rfl, Nat.le_of_succ_le bounded⟩
  | done result => cases moves

end Traft.Moodycamel.LightweightSemaphore
