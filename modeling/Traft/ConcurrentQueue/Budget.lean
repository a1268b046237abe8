import Traft.ConcurrentQueue.Wrapper

/-!
# The budget of a timed bulk dequeue

`WaitDequeueBulkTimed` waits for a single element whether or not it may take one,
and hands what is left of its budget to a semaphore that counts in signed values
and asserts that its count is not negative. `spending` is what a call owes its
caller and that assertion, while others go on enqueueing.
-/

namespace Traft.ConcurrentQueueV1

open Traft.Semantics

variable {α : Type*}

namespace Request

/-- The assertion of `tryWaitMany` on the count it is given. -/
def Asserted : Request → Prop
  | .tryDequeueBulk _ maxSize => 0 ≤ toSigned maxSize
  | .waitDequeueTimed .. => True

/-- A negative timeout is an indefinite one. -/
def Indefinite : Request → Prop
  | .tryDequeueBulk .. => False
  | .waitDequeueTimed _ timeout => timeout < 0

end Request

/-- The queue, what others enqueue until each request to come is answered, and
the positions a call has written. -/
structure Situation (α : Type*) where
  queue : List α
  arrivals : Nat → List α
  written : List Nat := []

namespace Situation

/-- The elements a request may find. -/
def present (situation : Situation α) : List α := situation.queue ++ situation.arrivals 0

/-- The wrapped queue removes some of the elements present, within the limit of
the request. A request without a time limit is answered only with an element. -/
structure Serves (situation : Situation α) (request : Request) (taken rest : List α) : Prop where
  parts : situation.present.Perm (taken ++ rest)
  limited : taken.length ≤ request.limit
  awaited : request.Indefinite → taken ≠ []

/-- The situation when a request has been answered. -/
def served (situation : Situation α) (request : Request) (taken rest : List α) : Situation α where
  queue := rest
  arrivals later := situation.arrivals (later + 1)
  written := situation.written ++ List.range' request.it taken.length

end Situation

/-- A call passes assertions, does not wait in vain, and returns a number of
elements within its budget that covers the positions written. -/
def spending (maxSize : Nat) : Contract Request Request.Answer Nat (Situation α) where
  Allows situation request :=
    request.Asserted ∧ ∃ taken rest, situation.Serves request taken rest
  Moves situation request answer after :=
    ∃ taken rest, situation.Serves request taken rest ∧ answer = request.answer taken.length ∧
      after = situation.served request taken rest
  Returns situation size := size ≤ maxSize ∧ ∀ position ∈ situation.written, position < size

/-- A bulk request may be answered with any number of elements within its limit. -/
theorem meets_tryDequeueBulk {maxSize it size : Nat}
    {next : Nat → Program Request Request.Answer Nat} {situation : Situation α} :
    (Program.ask (.tryDequeueBulk it size) next).Meets (spending maxSize) situation ↔
      0 ≤ toSigned size ∧ ∀ taken rest, situation.present.Perm (taken ++ rest) →
        taken.length ≤ size → (next taken.length).Meets (spending maxSize)
          (situation.served (.tryDequeueBulk it size) taken rest) := by
  constructor
  · rintro ⟨⟨asserted, _⟩, continues⟩
    refine ⟨asserted, fun taken rest parts limited => ?_⟩
    exact continues _ _ ⟨taken, rest, ⟨parts, limited, False.elim⟩, rfl, rfl⟩
  · rintro ⟨asserted, continues⟩
    refine ⟨⟨asserted, [], situation.present, .refl _, Nat.zero_le _, False.elim⟩, ?_⟩
    rintro _ _ ⟨taken, rest, serves, rfl, rfl⟩
    exact continues taken rest serves.parts serves.limited

/-- A wait is answered with one element, or with none if its time is limited. -/
theorem serves_waitDequeueTimed {it : Nat} {timeout : Int} {situation : Situation α}
    {taken rest : List α} : situation.Serves (.waitDequeueTimed it timeout) taken rest ↔
      situation.present.Perm (taken ++ rest) ∧
        (taken = [] ∧ 0 ≤ timeout ∨ ∃ element, taken = [element]) := by
  constructor
  · rintro ⟨parts, limited, awaited⟩
    refine ⟨parts, ?_⟩
    rcases taken with _ | ⟨element, _ | ⟨other, more⟩⟩
    · exact .inl ⟨rfl, Int.not_lt.mp fun indefinite => awaited indefinite rfl⟩
    · exact .inr ⟨element, rfl⟩
    · exact absurd limited (by simp [Request.limit])
  · rintro ⟨parts, ⟨rfl, timed⟩ | ⟨element, rfl⟩⟩
    · exact ⟨parts, Nat.zero_le _, fun indefinite => absurd indefinite (Int.not_lt.mpr timed)⟩
    · exact ⟨parts, Nat.le_refl _, fun _ => List.cons_ne_nil _ _⟩

/-- What follows a wait depends on whether it is answered with an element. -/
theorem meets_waitDequeueTimed {maxSize it : Nat} {timeout : Int}
    {next : Bool → Program Request Request.Answer Nat} {situation : Situation α} :
    (Program.ask (.waitDequeueTimed it timeout) next).Meets (spending maxSize) situation ↔
      (situation.present = [] → 0 ≤ timeout) ∧
      (0 ≤ timeout → ∀ rest, situation.present.Perm rest →
        (next false).Meets (spending maxSize)
          (situation.served (.waitDequeueTimed it timeout) [] rest)) ∧
      ∀ element rest, situation.present.Perm (element :: rest) →
        (next true).Meets (spending maxSize)
          (situation.served (.waitDequeueTimed it timeout) [element] rest) := by
  constructor
  · rintro ⟨⟨_, taken, rest, serves⟩, continues⟩
    refine ⟨fun nothing => ?_, fun timed rest parts => ?_, fun element rest parts => ?_⟩
    · obtain ⟨parts, ⟨_, timed⟩ | ⟨element, rfl⟩⟩ := serves_waitDequeueTimed.mp serves
      · exact timed
      · rw [nothing] at parts
        exact absurd parts (List.not_perm_nil_cons _ _)
    · have without : situation.Serves (.waitDequeueTimed it timeout) [] rest :=
        serves_waitDequeueTimed.mpr ⟨parts, .inl ⟨rfl, timed⟩⟩
      exact continues _ _ ⟨[], rest, without, rfl, rfl⟩
    · have withOne : situation.Serves (.waitDequeueTimed it timeout) [element] rest :=
        serves_waitDequeueTimed.mpr ⟨parts, .inr ⟨element, rfl⟩⟩
      exact continues _ _ ⟨[element], rest, withOne, rfl, rfl⟩
  · rintro ⟨ends, without, withOne⟩
    refine ⟨⟨trivial, ?_⟩, ?_⟩
    · cases present : situation.present with
      | nil =>
          have timed := ends present
          exact ⟨[], [], serves_waitDequeueTimed.mpr ⟨.of_eq present, .inl ⟨rfl, timed⟩⟩⟩
      | cons element rest =>
          exact ⟨[element], rest, serves_waitDequeueTimed.mpr ⟨.of_eq present, .inr ⟨_, rfl⟩⟩⟩
    · rintro _ _ ⟨taken, rest, serves, rfl, rfl⟩
      obtain ⟨parts, ⟨rfl, timed⟩ | ⟨element, rfl⟩⟩ := serves_waitDequeueTimed.mp serves
      · exact without timed rest parts
      · exact withOne element rest parts

/-- What is left of a budget passes the semaphore's assertion if there was a budget. -/
theorem toSigned_rest {maxSize : Nat} (half : maxSize < 9223372036854775808) :
    0 ≤ toSigned (toSize (maxSize - 1)) ↔ 1 ≤ maxSize := by
  have word : toSize (maxSize - 1) < 18446744073709551616 := by
    unfold toSize
    omega
  rw [toSigned_nonneg word]
  unfold toSize
  omega

/-- Behind an element it has waited for, a call keeps to its budget exactly if it
was allowed that element. -/
theorem meets_awaited {maxSize : Nat} (half : maxSize < 9223372036854775808)
    {situation : Situation α} (written : situation.written = [0]) :
    (Program.ask (.tryDequeueBulk 1 (toSize (maxSize - 1))) fun (size : Nat) =>
        .done (toSize (size + 1))).Meets (spending maxSize) situation ↔ 1 ≤ maxSize := by
  rw [meets_tryDequeueBulk, toSigned_rest half]
  refine ⟨And.left, fun positive => ⟨positive, fun taken rest parts limited => ?_⟩⟩
  have total : toSize (taken.length + 1) = taken.length + 1 ∧ taken.length + 1 ≤ maxSize := by
    unfold toSize at limited ⊢
    omega
  refine ⟨total.1 ▸ total.2, fun position listed => ?_⟩
  rw [total.1]
  simp only [Situation.served, written, Request.it, List.cons_append, List.nil_append,
    List.mem_cons, List.mem_range'_1] at listed
  omega

/-- A call that has got nothing yet waits as it should exactly if its wait ends,
and it is allowed an element where one is there. -/
theorem meets_waiting {maxSize : Nat} (half : maxSize < 9223372036854775808) {timeout : Int}
    {situation : Situation α} (unwritten : situation.written = []) :
    (Program.ask (.waitDequeueTimed 0 timeout) fun (dequeued : Bool) =>
        if dequeued then
          .ask (.tryDequeueBulk 1 (toSize (maxSize - 1))) fun (size : Nat) =>
            .done (toSize (size + 1))
        else
          .done 0).Meets (spending maxSize) situation ↔
      (situation.present = [] → 0 ≤ timeout) ∧ (situation.present ≠ [] → 1 ≤ maxSize) := by
  have first : situation.written ++ List.range' 0 1 = [0] := by rw [unwritten]; rfl
  rw [meets_waitDequeueTimed]
  refine and_congr_right fun _ => ?_
  constructor
  · rintro ⟨_, withOne⟩ some
    obtain ⟨element, rest, present⟩ := List.exists_cons_of_ne_nil some
    exact (meets_awaited half first).mp (withOne element rest (.of_eq present))
  · intro positive
    refine ⟨fun _ rest _ => ⟨Nat.zero_le _, ?_⟩, fun element rest present => ?_⟩
    · simp [Situation.served, unwritten]
    · refine (meets_awaited half first).mpr (positive fun nothing => ?_)
      rw [nothing] at present
      exact List.not_perm_nil_cons _ _ present

/-- `WaitDequeueBulkTimed` spends its budget as it should exactly if that is a
signed value, and positive when an element is there before its wait ends; when
none is, its timeout must not be indefinite. -/
theorem waitDequeueBulkTimed_spends_iff {maxSize : Nat} (sized : maxSize < 18446744073709551616)
    (timeout : Int) (queue : List α) (arrivals : Nat → List α) :
    (waitDequeueBulkTimed maxSize timeout).Meets (spending maxSize) { queue, arrivals } ↔
      maxSize < 9223372036854775808 ∧
        (queue ++ arrivals 0 ++ arrivals 1 = [] → 0 ≤ timeout) ∧
        (queue ++ arrivals 0 ++ arrivals 1 ≠ [] → 1 ≤ maxSize) := by
  rw [waitDequeueBulkTimed, meets_tryDequeueBulk, toSigned_nonneg sized]
  refine and_congr_right fun half => ?_
  constructor
  · intro continues
    have waits := continues [] (queue ++ arrivals 0) (.refl _) (Nat.zero_le _)
    exact (meets_waiting half rfl).mp waits
  · rintro allowed taken rest parts limited
    cases taken with
    | cons first others =>
        refine ⟨limited, fun position listed => ?_⟩
        simpa [Situation.served, Request.it, List.mem_range'_1] using listed
    | nil =>
        -- what is left after an empty answer is what was there
        have same : (queue ++ arrivals 0 ++ arrivals 1).length = (rest ++ arrivals 1).length :=
          (List.Perm.append_right _ parts).length_eq
        have empty : rest ++ arrivals 1 = [] ↔ queue ++ arrivals 0 ++ arrivals 1 = [] := by
          rw [← List.length_eq_zero_iff, ← same, List.length_eq_zero_iff]
        refine (meets_waiting half rfl).mpr ?_
        change (rest ++ arrivals 1 = [] → _) ∧ (rest ++ arrivals 1 ≠ [] → _)
        rw [ne_eq, empty]
        exact allowed

/-- Three elements are queued for a buffer of two. -/
theorem waitDequeueBulkTimed_two_spends : (waitDequeueBulkTimed 2 1000).Meets (spending 2)
    ({ queue := [7, 8, 9], arrivals := fun _ => [] } : Situation Nat) :=
  (waitDequeueBulkTimed_spends_iff (by decide) 1000 [7, 8, 9] fun _ => []).mpr (by decide)

/-- An element is queued for an empty buffer: the wait takes it, and the count
that is left wraps around. -/
theorem waitDequeueBulkTimed_zero_overspends : ¬ (waitDequeueBulkTimed 0 0).Meets (spending 0)
    ({ queue := [7], arrivals := fun _ => [] } : Situation Nat) := by
  intro meets
  have waits := (meets_tryDequeueBulk.mp meets).2 [] [7] (.refl _) (Nat.zero_le _)
  obtain ⟨_, positive⟩ := (meets_waiting (by decide) rfl).mp waits
  exact absurd (positive nofun) (by decide)

end Traft.ConcurrentQueueV1
