import Traft.ConcurrentQueue.SubQueueClaims

/-!
# What a dequeuing thread takes out

A thread that moved the head owns the elements it moved the head over, and takes
them out block by block. They are its alone, they are those that were enqueued
first, and they are all there when it comes to them.
-/

namespace Traft.Moodycamel.SubQueue

open Traft.Semantics

/-- A run lies in one block and before the head, and ends with the block if there
is more to take out behind it. -/
structure Run.Fits (traits : Traits) (head : Nat) (run : Run) : Prop where
  begun : run.start ≤ run.index
  inside : run.index ≤ run.endIndex
  some : run.start < run.endIndex
  block : run.endIndex ≤ run.start / traits.blockSize * traits.blockSize + traits.blockSize
  upTo : run.endIndex ≤ run.last
  ends : run.endIndex = run.last ∨
    run.endIndex = run.start / traits.blockSize * traits.blockSize + traits.blockSize
  claimed : run.last ≤ head
  small : run.last - run.start ≤ 2 ^ 63

/-- A run that begins before the end fits. -/
theorem Run.begin_fits (traits : Traits) {start last head : Nat} (some : start < last)
    (claimed : last ≤ head) (small : last - start ≤ 2 ^ 63) :
    (Run.begin traits start last).Fits traits head := by
  have low := Nat.div_mul_le_self start traits.blockSize
  have high := Nat.lt_div_mul_add (a := start) (Nat.lt_trans Nat.one_pos traits.large)
  have bounded := traits.bounded
  have before := circularLessThan_iff (a := last)
    (b := (start / traits.blockSize * traits.blockSize + traits.blockSize : Nat))
    (by omega) (by omega)
  by_cases short : last < start / traits.blockSize * traits.blockSize + traits.blockSize
  · have ends : (Run.begin traits start last).endIndex = last :=
      if_pos (before.mpr (Int.ofNat_lt.mpr short))
    exact ⟨Nat.le_refl start, some.le.trans_eq ends.symm, some.trans_eq ends.symm,
      ends.trans_le short.le, ends.le, .inl ends, claimed, small⟩
  · have ends : (Run.begin traits start last).endIndex =
        start / traits.blockSize * traits.blockSize + traits.blockSize :=
      if_neg fun less => short (Int.ofNat_lt.mp (before.mp less))
    exact ⟨Nat.le_refl start, high.le.trans_eq ends.symm, high.trans_eq ends.symm, ends.le,
      ends.trans_le (Nat.le_of_not_lt short), .inr ends, claimed, small⟩

/-- The most elements a method asks for. -/
def Method.limit : Method → Nat
  | .dequeue => 1
  | .dequeueBulk max _ => max

/-- A method reserves no more than it asks for. -/
theorem Method.desiredCount_le {method : Method}
    {tail overcommit optimisticCount desiredCount : Nat}
    (wanted : method.desiredCount tail overcommit optimisticCount = some desiredCount) :
    desiredCount ≤ method.limit := by
  cases method with
  | dequeue =>
      rw [Method.desiredCount] at wanted
      split at wanted
      · exact (Option.some.inj wanted).ge
      · cases wanted
  | dequeueBulk max positive =>
      simp only [Method.desiredCount] at wanted
      split at wanted
      · obtain rfl := Option.some.inj wanted
        exact Nat.min_le_right ..
      · cases wanted

/-- The elements from one index up to another. -/
def slice {α : Type} (queue : SubQueue α) (first last : Nat) : List α :=
  (queue.elements.take last).drop first

namespace Point

variable {α : Type}

/-- Where a method gets to: it goes on with no more than it asks for, and where it
takes out elements its run fits. -/
def Fits (traits : Traits) (queue : SubQueue α) (method : Method) : Point α → Prop
  | .reserve _ desiredCount | .reloadTail _ desiredCount _ =>
      0 < desiredCount ∧ desiredCount ≤ method.limit
  | .giveBack _ actualCount | .claim actualCount => actualCount ≤ method.limit
  | .move run removed =>
      run.Fits traits queue.headIndex ∧ removed.length + (run.last - run.index) ≤ method.limit
  | .setEmpty run removed | .free run removed =>
      run.Fits traits queue.headIndex ∧ removed.length + (run.last - run.endIndex) ≤ method.limit
  | .done removed => removed.length ≤ method.limit
  | _ => True

/-- The elements a thread has claimed: those it took out and those it is going to. -/
def holds (queue : SubQueue α) : Point α → List α
  | .move run removed => removed ++ queue.slice run.index run.last
  | .setEmpty run removed | .free run removed => removed ++ queue.slice run.endIndex run.last
  | .done removed => removed
  | _ => []

/-- Whether a thread is still going to take out an element. -/
def Left : Point α → Nat → Prop
  | .move run _, index => run.index ≤ index ∧ index < run.last
  | .setEmpty run _, index | .free run _, index => run.endIndex ≤ index ∧ index < run.last
  | _, _ => False

/-- What it has left it has claimed. -/
theorem Fits.left_lt {traits : Traits} {queue : SubQueue α} {method : Method} {point : Point α}
    (fits : point.Fits traits queue method) {index : Nat} (left : point.Left index) :
    index < queue.headIndex := by
  cases point with
  | move => exact left.2.trans_le fits.1.claimed
  | setEmpty => exact left.2.trans_le fits.1.claimed
  | free => exact left.2.trans_le fits.1.claimed
  | _ => exact left.elim

/-- Behind a block it has the rest left. -/
theorem next_left (traits : Traits) (run : Run) (removed : List α) (index : Nat) :
    (run.next traits removed).Left index ↔ run.endIndex ≤ index ∧ index < run.last := by
  unfold Run.next
  split
  · rename_i ended
    constructor
    · exact False.elim
    · rintro ⟨behind, before⟩
      omega
  · exact Iff.rfl

/-- It still fits when the head moves on. -/
theorem Fits.mono {traits : Traits} {queue later : SubQueue α} {method : Method} {point : Point α}
    (fits : point.Fits traits queue method) (more : queue.headIndex ≤ later.headIndex) :
    point.Fits traits later method := by
  have further : ∀ {run : Run}, run.Fits traits queue.headIndex → run.Fits traits later.headIndex :=
    fun fits => { fits with claimed := Nat.le_trans fits.claimed more }
  cases point with
  | move run removed => exact ⟨further fits.1, fits.2⟩
  | setEmpty run removed => exact ⟨further fits.1, fits.2⟩
  | free run removed => exact ⟨further fits.1, fits.2⟩
  | _ => exact fits

/-- What a thread has claimed is not changed by what is enqueued. -/
theorem Fits.holds_publish {traits : Traits} {queue : SubQueue α} {method : Method}
    {point : Point α} (fits : point.Fits traits queue method)
    (there : queue.headIndex ≤ queue.elements.length) :
    point.holds queue.publish = point.holds queue := by
  have kept : ∀ {run : Run}, run.Fits traits queue.headIndex → ∀ first,
      queue.publish.slice first run.last = queue.slice first run.last := by
    intro run fits first
    have within : run.last ≤ queue.elements.length := Nat.le_trans fits.claimed there
    simp only [slice, publish, List.take_append_of_le_length within]
  cases point with
  | move run removed => exact congrArg (removed ++ ·) (kept fits.1 run.index)
  | setEmpty run removed => exact congrArg (removed ++ ·) (kept fits.1 run.endIndex)
  | free run removed => exact congrArg (removed ++ ·) (kept fits.1 run.endIndex)
  | _ => rfl

/-- Only the elements matter for it. -/
theorem holds_congr {queue later : SubQueue α} (same : later.elements = queue.elements)
    (point : Point α) : point.holds later = point.holds queue := by
  cases point with
  | move => simp only [holds, slice, same]
  | setEmpty => simp only [holds, slice, same]
  | free => simp only [holds, slice, same]
  | _ => rfl

/-- Behind a block the rest of the claim remains. -/
theorem holds_next (queue : SubQueue α) (traits : Traits) (run : Run) (removed : List α) :
    (run.next traits removed).holds queue = removed ++ queue.slice run.endIndex run.last := by
  unfold Run.next
  split
  · rename_i ended
    have empty : queue.slice run.endIndex run.last = [] := by
      rw [slice, ended]
      exact List.drop_eq_nil_of_le (List.length_take_le ..)
    rw [empty, List.append_nil]
    rfl
  · rfl

/-- Behind a block the next run fits. -/
theorem fits_next {traits : Traits} {queue : SubQueue α} {method : Method} {run : Run}
    {removed : List α} (fits : run.Fits traits queue.headIndex)
    (within : removed.length + (run.last - run.endIndex) ≤ method.limit) :
    (run.next traits removed).Fits traits queue method := by
  unfold Run.next
  split
  · exact Nat.le_of_add_right_le within
  · rename_i more
    have upTo := fits.upTo
    have some := fits.some
    have small := fits.small
    exact ⟨Run.begin_fits traits (by omega) fits.claimed (by omega), within⟩

end Point

section Advance

variable {α : Type} {traits : Traits} {queue later : SubQueue α} {method : Method}
  {point after : Point α}

/-- The head only moves on, and moves over what is claimed. -/
theorem advance_head (moves : queue.advance traits method point = some (later, after)) :
    queue.headIndex ≤ later.headIndex ∧ queue.elements.take later.headIndex =
      queue.elements.take queue.headIndex ++ point.takes queue := by
  have still : queue.elements.take queue.headIndex = queue.elements.take queue.headIndex ++ [] :=
    (List.append_nil _).symm
  cases point with
  | claim => obtain ⟨⟩ := moves; exact ⟨Nat.le_add_right .., List.take_add⟩
  | loadOptimisticCount =>
      simp only [advance] at moves
      split at moves <;> (obtain ⟨⟩ := moves; exact ⟨Nat.le_refl _, still⟩)
  | reloadTail =>
      simp only [advance] at moves
      split at moves <;> (obtain ⟨⟩ := moves; exact ⟨Nat.le_refl _, still⟩)
  | move =>
      simp only [advance] at moves
      split at moves
      · obtain ⟨⟩ := moves; exact ⟨Nat.le_refl _, still⟩
      · split at moves
        · obtain ⟨⟩ := moves; exact ⟨Nat.le_refl _, still⟩
        · cases moves
  | setEmpty =>
      simp only [advance] at moves
      split at moves <;> (obtain ⟨⟩ := moves; exact ⟨Nat.le_refl _, still⟩)
  | done => cases moves
  | _ => obtain ⟨⟩ := moves; exact ⟨Nat.le_refl _, still⟩

/-- What is not claimed, or left to a thread, stays so, but for what the thread takes
out. -/
theorem advance_left_iff (fits : point.Fits traits queue method)
    (moves : queue.advance traits method point = some (later, after)) (index : Nat) :
    later.headIndex ≤ index ∨ after.Left index ↔
      (queue.headIndex ≤ index ∨ point.Left index) ∧ ∀ run removed, point = .move run removed →
        run.index ≠ run.endIndex → index ≠ run.index := by
  cases point with
  | loadTail | loadOvercommit | reserve =>
      obtain ⟨⟩ := moves
      exact (and_iff_left (by rintro _ _ ⟨⟩)).symm
  | loadOptimisticCount | reloadTail =>
      simp only [advance] at moves
      split at moves <;> (obtain ⟨⟩ := moves; exact (and_iff_left (by rintro _ _ ⟨⟩)).symm)
  | giveBack =>
      obtain ⟨⟩ := moves
      split <;> exact (and_iff_left (by rintro _ _ ⟨⟩)).symm
  | claim actualCount =>
      obtain ⟨⟩ := moves
      change queue.headIndex + actualCount ≤ index ∨
        queue.headIndex ≤ index ∧ index < queue.headIndex + actualCount ↔ _
      constructor
      · intro still
        exact ⟨.inl (by omega), by rintro _ _ ⟨⟩⟩
      · rintro ⟨unclaimed | left, _⟩
        · omega
        · exact left.elim
  | move run removed =>
      simp only [advance] at moves
      split at moves
      · rename_i ended
        obtain ⟨⟩ := moves
        change queue.headIndex ≤ index ∨ run.endIndex ≤ index ∧ index < run.last ↔
          (queue.headIndex ≤ index ∨ run.index ≤ index ∧ index < run.last) ∧ _
        rw [ended]
        refine ⟨fun still => ⟨still, ?_⟩, And.left⟩
        rintro _ _ ⟨⟩ unended
        exact absurd ended unended
      · rename_i unended
        split at moves
        · obtain ⟨⟩ := moves
          change queue.headIndex ≤ index ∨ run.index + 1 ≤ index ∧ index < run.last ↔
            (queue.headIndex ≤ index ∨ run.index ≤ index ∧ index < run.last) ∧ _
          have inside := fits.1.inside
          have upTo := fits.1.upTo
          have claimed := fits.1.claimed
          constructor
          · intro still
            refine ⟨by omega, ?_⟩
            rintro _ _ ⟨⟩ _
            omega
          · rintro ⟨before, takes⟩
            have other := takes run removed rfl unended
            omega
        · cases moves
  | setEmpty run removed =>
      simp only [advance] at moves
      split at moves
      · obtain ⟨⟩ := moves
        exact (and_iff_left (by rintro _ _ ⟨⟩)).symm
      · obtain ⟨⟩ := moves
        rw [Point.next_left]
        exact (and_iff_left (by rintro _ _ ⟨⟩)).symm
  | free run removed =>
      obtain ⟨⟩ := moves
      rw [Point.next_left]
      exact (and_iff_left (by rintro _ _ ⟨⟩)).symm
  | done => cases moves

/-- A thread that fits goes on to where it fits. -/
theorem advance_fits (fits : point.Fits traits queue method)
    (claims : ∀ actualCount, point = .claim actualCount → 0 < actualCount ∧ actualCount ≤ 2 ^ 63)
    (moves : queue.advance traits method point = some (later, after)) :
    after.Fits traits later method := by
  cases point with
  | loadTail => obtain ⟨⟩ := moves; trivial
  | loadOvercommit => obtain ⟨⟩ := moves; trivial
  | loadOptimisticCount =>
      simp only [advance] at moves
      split at moves
      · rename_i desiredCount wanted
        obtain ⟨⟩ := moves
        exact ⟨Method.desiredCount_pos wanted, Method.desiredCount_le wanted⟩
      · obtain ⟨⟩ := moves
        exact Nat.zero_le method.limit
  | reserve => obtain ⟨⟩ := moves; exact fits
  | reloadTail overcommit desiredCount mine =>
      have part := method.actualCount_le queue.tailIndex overcommit mine fits.1
      simp only [advance] at moves
      split at moves <;> (obtain ⟨⟩ := moves; exact part.trans fits.2)
  | giveBack amount actualCount =>
      obtain ⟨⟩ := moves
      split
      · exact Nat.zero_le method.limit
      · exact fits
  | claim actualCount =>
      obtain ⟨⟩ := moves
      obtain ⟨positive, small⟩ := claims actualCount rfl
      refine ⟨Run.begin_fits traits (Nat.lt_add_of_pos_right positive) (Nat.le_refl _)
        (by omega), ?_⟩
      rw [List.length_nil, Nat.zero_add]
      exact (Nat.add_sub_cancel_left ..).trans_le fits
  | move run removed =>
      obtain ⟨fits, within⟩ := fits
      simp only [advance] at moves
      split at moves
      · rename_i finished
        obtain ⟨⟩ := moves
        exact ⟨fits, finished ▸ within⟩
      · rename_i unfinished
        split at moves
        · obtain ⟨⟩ := moves
          have before := Nat.lt_of_le_of_ne fits.inside unfinished
          have upTo := fits.upTo
          refine ⟨{ fits with begun := Nat.le_succ_of_le fits.begun, inside := before }, ?_⟩
          rw [List.length_append, List.length_singleton]
          change _ + (run.last - (run.index + 1)) ≤ _
          omega
        · cases moves
  | setEmpty run removed =>
      simp only [advance] at moves
      split at moves
      · obtain ⟨⟩ := moves
        exact fits
      · obtain ⟨⟩ := moves
        exact Point.fits_next fits.1 fits.2
  | free run removed =>
      obtain ⟨⟩ := moves
      exact Point.fits_next fits.1 fits.2
  | done => cases moves

/-- A thread holds what it held before and what it claims. -/
theorem advance_holds (fits : point.Fits traits queue method)
    (moves : queue.advance traits method point = some (later, after)) :
    after.holds later = point.holds queue ++ point.takes queue := by
  cases point with
  | loadTail => obtain ⟨⟩ := moves; rfl
  | loadOvercommit => obtain ⟨⟩ := moves; rfl
  | reserve => obtain ⟨⟩ := moves; rfl
  | loadOptimisticCount =>
      simp only [advance] at moves
      split at moves <;> (obtain ⟨⟩ := moves; rfl)
  | reloadTail =>
      simp only [advance] at moves
      split at moves <;> (obtain ⟨⟩ := moves; rfl)
  | giveBack amount actualCount =>
      obtain ⟨⟩ := moves
      split <;> rfl
  | claim actualCount =>
      obtain ⟨⟩ := moves
      exact (List.take_drop).symm
  | move run removed =>
      refine Eq.trans ?_ (List.append_nil _).symm
      simp only [advance] at moves
      split at moves
      · rename_i finished
        obtain ⟨⟩ := moves
        rw [Point.holds, Point.holds, finished]
      · rename_i unfinished
        split at moves
        · rename_i element present
          obtain ⟨⟩ := moves
          obtain ⟨stored, rfl⟩ := List.getElem?_eq_some_iff.mp present
          have before : run.index < run.last :=
            Nat.lt_of_lt_of_le (Nat.lt_of_le_of_ne fits.1.inside unfinished) fits.1.upTo
          have next : run.index < (queue.elements.take run.last).length := by
            rw [List.length_take]
            exact Nat.lt_min.mpr ⟨before, stored⟩
          rw [Point.holds, Point.holds, slice, slice, List.drop_eq_getElem_cons next,
            List.getElem_take, List.append_assoc]
          rfl
        · cases moves
  | setEmpty run removed =>
      refine Eq.trans ?_ (List.append_nil _).symm
      simp only [advance] at moves
      split at moves
      · obtain ⟨⟩ := moves
        rfl
      · obtain ⟨⟩ := moves
        exact Point.holds_next _ traits run removed
  | free run removed =>
      obtain ⟨⟩ := moves
      exact (Point.holds_next _ traits run removed).trans (List.append_nil _).symm
  | done => cases moves

/-- A thread that has not returned has something to do next, if what is before the
head is there. -/
theorem advance_isSome (fits : point.Fits traits queue method)
    (there : queue.headIndex ≤ queue.elements.length)
    (inside : ∀ removed, point ≠ .done removed) : (queue.advance traits method point).isSome := by
  cases point with
  | loadOptimisticCount =>
      simp only [advance]
      split <;> rfl
  | reloadTail =>
      simp only [advance]
      split <;> rfl
  | move run removed =>
      simp only [advance]
      split
      · rfl
      · rename_i unfinished
        have upTo := fits.1.upTo
        have claimed := fits.1.claimed
        have inside := fits.1.inside
        rw [List.getElem?_eq_getElem (by omega)]
        rfl
  | setEmpty =>
      simp only [advance]
      split <;> rfl
  | done removed => exact absurd rfl (inside removed)
  | _ => rfl

end Advance

namespace Sharing

section Histories

variable {ι α : Type}

/-- The elements an event enqueues. -/
def Event.enqueues : Event ι α → List α
  | .publish elements => elements
  | _ => []

/-- The elements an event claims. -/
def Event.takes : Event ι α → List α
  | .advance _ taken => taken
  | _ => []

/-- The elements enqueued in a history, in order. -/
def enqueued (events : List (Event ι α)) : List α := events.flatMap Event.enqueues

/-- The elements claimed in a history, in order. -/
def claimed (events : List (Event ι α)) : List α := events.flatMap Event.takes

@[simp] theorem enqueued_append (events : List (Event ι α)) (event : Event ι α) :
    enqueued (events ++ [event]) = enqueued events ++ event.enqueues := by
  rw [enqueued, List.flatMap_append, List.flatMap_singleton]
  rfl

@[simp] theorem claimed_append (events : List (Event ι α)) (event : Event ι α) :
    claimed (events ++ [event]) = claimed events ++ event.takes := by
  rw [claimed, List.flatMap_append, List.flatMap_singleton]
  rfl

variable [DecidableEq ι]

/-- What a thread has claimed in its call, after one more event. -/
def Event.claims (thread : ι) (held : List α) : Event ι α → List α
  | .call caller _ => if caller = thread then [] else held
  | .advance caller taken => if caller = thread then held ++ taken else held
  | _ => held

/-- What a thread has claimed in its last call. -/
def claimOf (thread : ι) (events : List (Event ι α)) : List α :=
  events.foldl (Event.claims thread) []

@[simp] theorem claimOf_append (thread : ι) (events : List (Event ι α)) (event : Event ι α) :
    claimOf thread (events ++ [event]) = event.claims thread (claimOf thread events) :=
  List.foldl_append

end Histories

section Hands

variable {ι α : Type} [DecidableEq ι]

/-- Threads hold what they have claimed, and what was claimed came first. -/
structure Handed (traits : Traits) (events : List (Event ι α)) (state : Sharing ι α) : Prop where
  fits : ∀ thread method point, state.places thread = some (method, point) →
    point.Fits traits state.queue method
  holds : ∀ thread method point, state.places thread = some (method, point) →
    point.holds state.queue = claimOf thread events
  stored : state.queue.elements = enqueued events
  first : claimed events = state.queue.elements.take state.queue.headIndex

/-- It is enough to look at the threads that moved. -/
theorem Handed.move_on {traits : Traits} {events : List (Event ι α)} {state next : Sharing ι α}
    {event : Event ι α} (handed : state.Handed traits events)
    (head : state.queue.headIndex ≤ next.queue.headIndex)
    (kept : ∀ method point, Point.Fits traits state.queue method point →
      point.holds next.queue = point.holds state.queue)
    (places : ∀ thread method point, next.places thread = some (method, point) →
      (state.places thread = some (method, point) ∧
        event.claims thread (claimOf thread events) = claimOf thread events) ∨
      (point.Fits traits next.queue method ∧
        point.holds next.queue = event.claims thread (claimOf thread events)))
    (stored : next.queue.elements = enqueued (events ++ [event]))
    (first : claimed (events ++ [event]) = next.queue.elements.take next.queue.headIndex) :
    next.Handed traits (events ++ [event]) := by
  refine ⟨?_, ?_, stored, first⟩
  · intro thread method point here
    rcases places thread method point here with ⟨before, _⟩ | ⟨fits, _⟩
    · exact (handed.fits thread method point before).mono head
    · exact fits
  · intro thread method point here
    rw [claimOf_append]
    rcases places thread method point here with ⟨before, quiet⟩ | ⟨_, holds⟩
    · rw [quiet, kept method point (handed.fits thread method point before)]
      exact handed.holds thread method point before
    · exact holds

/-- No two threads are going to take out the same element. -/
structure Separate (state : Sharing ι α) : Prop where
  apart : ∀ {one other : ι} {method another : Method} {point elsewhere : Point α} {index : Nat},
    one ≠ other → state.places one = some (method, point) →
      state.places other = some (another, elsewhere) → point.Left index → ¬ elsewhere.Left index

/-- A thread claims what no other one has left. -/
theorem Separate.step {traits : Traits} {events : List (Event ι α)} {state next : Sharing ι α}
    {event : Event ι α} (separate : state.Separate) (handed : state.Handed traits events)
    (step : Step traits state event next) : next.Separate := by
  -- what the thread that moved has left, it had before, or nobody had
  have moved {thread : ι} {place : Option (Method × Point α)}
      (own : ∀ method point index, place = some (method, point) → point.Left index →
        (∃ method before, state.places thread = some (method, before) ∧ before.Left index) ∨
          state.queue.headIndex ≤ index)
      {one other : ι} {method another : Method} {point elsewhere : Point α} {index : Nat}
      (apart : one ≠ other) (here : state.move thread place one = some (method, point))
      (there : state.move thread place other = some (another, elsewhere))
      (left : point.Left index) : ¬ elsewhere.Left index := by
    intro again
    rcases state.move_cases here with ⟨rfl, mine⟩ | ⟨_, before⟩
    · rcases state.move_cases there with ⟨rfl, _⟩ | ⟨_, theirs⟩
      · exact apart rfl
      · rcases own method point index mine left with ⟨_, _, placed, had⟩ | behind
        · exact separate.apart apart placed theirs had again
        · exact absurd ((handed.fits _ _ _ theirs).left_lt again) (Nat.not_lt.mpr behind)
    · rcases state.move_cases there with ⟨rfl, mine⟩ | ⟨_, theirs⟩
      · rcases own another elsewhere index mine again with ⟨_, _, placed, had⟩ | behind
        · exact separate.apart apart before placed left had
        · exact absurd ((handed.fits _ _ _ before).left_lt left) (Nat.not_lt.mpr behind)
      · exact separate.apart apart before theirs left again
  cases step with
  | construct => exact ⟨separate.apart⟩
  | publish => exact ⟨separate.apart⟩
  | discard => exact ⟨separate.apart⟩
  | call method idle =>
      refine ⟨moved fun _ _ _ placed left => ?_⟩
      obtain ⟨⟩ := placed
      exact left.elim
  | @advance thread method point queue after here moves =>
      refine ⟨moved fun _ _ index placed left => ?_⟩
      obtain ⟨⟩ := placed
      have fits := handed.fits thread method point here
      rcases ((advance_left_iff fits moves index).mp (.inr left)).1 with claimed | before
      · exact .inr claimed
      · exact .inl ⟨method, point, here, before⟩
  | finish =>
      refine ⟨moved fun _ _ _ placed => ?_⟩
      cases placed

end Hands

variable {ι α : Type} [Fintype ι] [DecidableEq ι]

/-- A step hands nothing to two threads, and nothing out of turn. -/
theorem Handed.step {traits : Traits} {events : List (Event ι α)} {state next : Sharing ι α}
    {event : Event ι α} {log : List (Reservation ι)} (handed : state.Handed traits events)
    (reserved : state.Reserved log) (small : state.InRange)
    (step : Step traits state event next) : next.Handed traits (events ++ [event]) := by
  have there : state.queue.headIndex ≤ state.queue.elements.length :=
    reserved.stored ▸ reserved.inBounds.head
  cases step with
  | construct element =>
      refine handed.move_on (Nat.le_refl _) (fun _ point _ => point.holds_congr rfl) ?_ ?_ ?_
      · exact fun thread method point here => .inl ⟨here, rfl⟩
      · rw [enqueued_append]
        exact handed.stored.trans (List.append_nil _).symm
      · rw [claimed_append]
        exact (List.append_nil _).trans handed.first
  | publish =>
      refine handed.move_on (Nat.le_refl _) (fun _ _ fits => fits.holds_publish there) ?_ ?_ ?_
      · exact fun thread method point here => .inl ⟨here, rfl⟩
      · rw [enqueued_append, ← handed.stored]
        rfl
      · rw [claimed_append]
        refine (List.append_nil _).trans (handed.first.trans ?_)
        exact (List.take_append_of_le_length there).symm
  | discard =>
      refine handed.move_on (Nat.le_refl _) (fun _ point _ => point.holds_congr rfl) ?_ ?_ ?_
      · exact fun thread method point here => .inl ⟨here, rfl⟩
      · rw [enqueued_append]
        exact handed.stored.trans (List.append_nil _).symm
      · rw [claimed_append]
        exact (List.append_nil _).trans handed.first
  | @call thread method idle =>
      refine handed.move_on (Nat.le_refl _) (fun _ _ _ => rfl) ?_ ?_ ?_
      · intro other method' point there
        rcases state.move_cases there with ⟨rfl, moved⟩ | ⟨same, before⟩
        · obtain ⟨⟩ := moved
          exact .inr ⟨trivial, (if_pos rfl).symm⟩
        · exact .inl ⟨before, if_neg (Ne.symm same)⟩
      · rw [enqueued_append]
        exact handed.stored.trans (List.append_nil _).symm
      · rw [claimed_append]
        exact (List.append_nil _).trans handed.first
  | @advance thread method point queue after here moves =>
      obtain ⟨_, _, elements, _⟩ := advance_grows moves
      obtain ⟨head, takes⟩ := advance_head moves
      have fits := handed.fits thread method point here
      refine handed.move_on head (fun _ point _ => point.holds_congr elements) ?_ ?_ ?_
      · intro other method' point' there
        rcases state.move_cases there with ⟨rfl, moved⟩ | ⟨same, before⟩
        · obtain ⟨⟩ := moved
          refine .inr ⟨advance_fits fits ?_ moves, ?_⟩
          · rintro actualCount rfl
            exact ⟨reserved.knows other method _ here, (reserved.claim_le here).trans small⟩
          · rw [advance_holds fits moves, handed.holds other method point here]
            exact (if_pos rfl).symm
        · exact .inl ⟨before, if_neg (Ne.symm same)⟩
      · rw [enqueued_append, elements]
        exact handed.stored.trans (List.append_nil _).symm
      · rw [claimed_append, elements, takes, handed.first]
        rfl
  | @finish thread method removed here =>
      refine handed.move_on (Nat.le_refl _) (fun _ _ _ => rfl) ?_ ?_ ?_
      · intro other method' point there
        rcases state.move_cases there with ⟨_, moved⟩ | ⟨_, before⟩
        · cases moved
        · exact .inl ⟨before, rfl⟩
      · rw [enqueued_append]
        exact handed.stored.trans (List.append_nil _).symm
      · rw [claimed_append]
        exact (List.append_nil _).trans handed.first

/-- Threads keep to what they have claimed. -/
def handsOut (traits : Traits) (ι α : Type) [Fintype ι] [DecidableEq ι] :
    (system traits ι α).Invariant :=
  (reservations traits ι α).beside InRange (fun events state => state.Handed traits events)
    (by
      rintro _ rfl
      exact ⟨nofun, nofun, rfl, rfl⟩)
    Step.inRange
    (by
      intro events state event next held small handed step
      obtain ⟨log, reserved⟩ := held small
      exact handed.step reserved small step)

/-- Threads keep apart. -/
def separates (traits : Traits) (ι α : Type) [Fintype ι] [DecidableEq ι] :
    (system traits ι α).Invariant :=
  (handsOut traits ι α).beside InRange (fun _ state => state.Separate)
    (by
      rintro _ rfl
      refine ⟨fun _ here => ?_⟩
      cases here)
    Step.inRange (fun held small separate step => separate.step (held.2 small) step)

/-- The elements are claimed in the order they were enqueued in, each once, and a
thread that is about to return has what it claimed in its call, which is no more
than it asked for. -/
structure InTurn (events : List (Event ι α)) (state : Sharing ι α) : Prop where
  order : enqueued events = claimed events ++ state.queue.elements.drop state.queue.headIndex
  counted : (claimed events).length = state.queue.headIndex
  returns : ∀ thread method removed, state.places thread = some (method, .done removed) →
    removed = claimOf thread events ∧ removed.length ≤ method.limit

/-- However threads interleave, a sub-queue is a queue. -/
theorem always_in_turn (traits : Traits) (ι α : Type) [Fintype ι] [DecidableEq ι]
    (events : List (Event ι α)) :
    (system traits ι α).Always (fun before state =>
      state.InRange → state.InTurn before) events := by
  intro before state _ run small
  obtain ⟨held, hands⟩ := (handsOut traits ι α).of_runs run
  obtain ⟨log, reserved⟩ := held small
  have handed := hands small
  refine ⟨?_, ?_, ?_⟩
  · rw [← handed.stored, handed.first, List.take_append_drop]
  · rw [handed.first, List.length_take, reserved.stored]
    exact Nat.min_eq_left reserved.inBounds.head
  · intro thread method removed here
    exact ⟨handed.holds thread method _ here, handed.fits thread method _ here⟩

end Sharing

end Traft.Moodycamel.SubQueue
