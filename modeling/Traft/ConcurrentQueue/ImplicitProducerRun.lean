import Traft.ConcurrentQueue.ImplicitProducerCells

/-!
# The runs of a producer

A run of the producer as a whole is one of its sub-queue and one of its index, so the
results about either are results about it. What the index requires of its users holds
because the sub-queue's counters keep it, and what the sub-queue takes for its elements
is in the places the index leads to.
-/

namespace Traft.Moodycamel.ImplicitProducer

open Traft.Semantics

variable {ι α B : Type}

/-- Neither the sub-queue nor the index has used up its range. -/
def InRange (traits : IndexTraits) (state : ImplicitProducer ι α B) : Prop :=
  state.queue.InRange ∧ state.index.InRange traits

section Runs

variable [Fintype ι] [DecidableEq ι]

/-- What a run comes to: runs of the sub-queue and of the index that agree, and elements
in their places. -/
structure Regular (traits : IndexTraits) (events : List (Event ι α B))
    (state : ImplicitProducer ι α B) : Prop where
  queue : (SubQueue.Sharing.system traits.toTraits ι α).Runs (events.filterMap Event.queue)
    state.queue
  index : (BlockIndex.Sharing.system traits ι B).Runs (events.filterMap Event.index) state.index
  coupled : state.Coupled traits
  represents : Represents state.cells (state.Holds traits.toTraits)

variable {traits : IndexTraits} {events : List (Event ι α B)} {state next : ImplicitProducer ι α B}
  {event : Event ι α B}

/-- What is known of the two systems is known of their runs. -/
theorem Regular.consistent (regular : state.Regular traits events) (range : state.InRange traits) :
    state.Consistent traits := by
  obtain ⟨⟨held, hands⟩, apart⟩ :=
    (SubQueue.Sharing.separates traits.toTraits ι α).of_runs regular.queue
  obtain ⟨_, recycled⟩ := (SubQueue.Sharing.recycles traits.toTraits ι α).of_runs regular.queue
  obtain ⟨log, reserved⟩ := held range.1
  exact ⟨reserved.inBounds.head, reserved.stored, (hands range.1).fits, apart range.1,
    recycled range.1, ((BlockIndex.Sharing.keeping traits ι B).of_runs regular.index).2 range.2,
    regular.coupled⟩

variable [DecidableEq B]

/-- A step goes on with both runs. -/
theorem Regular.step (regular : state.Regular traits events) (range : state.InRange traits)
    (transition : Step traits state event next) : next.Regular traits (events ++ [event]) := by
  have consistent := regular.consistent range
  have coupled := regular.coupled
  have represents := regular.represents
  obtain ⟨shift, number, kept⟩ := consistent.kept
  have contents {thread : ι} {lookup : Lookup B} {header position : Nat} {block : B}
      {method : SubQueue.Method} {run : SubQueue.Run} {removed : List α}
      (inside : state.Inside thread lookup header position (some block))
      (here : state.queue.places thread = some (method, .move run removed))
      (more : run.index ≠ run.endIndex) :
      state.cells (block, run.index % traits.blockSize) =
        state.queue.queue.elements[run.index]? := by
    obtain ⟨_, element, ⟨⟩, content, holds⟩ := consistent.holds_inside inside here more
    rw [content, represents.read holds]
  refine ⟨?_, ?_, coupled.step kept consistent.fits transition,
    consistent.represents_step represents transition⟩
  · rw [filterMap_concat]
    exact regular.queue.answers (transition.queue contents)
  · rw [filterMap_concat]
    exact regular.index.answers
      (coupled.index consistent.recycled consistent.head consistent.fits transition)

omit [Fintype ι] in
/-- Ranges are used up for good. -/
theorem Step.grows (transition : Step traits state event next)
    (sized : state.index.index.current.capacity ≤ state.index.index.nextBlockIndexCapacity) :
    next.index.index.current.capacity ≤ next.index.index.nextBlockIndexCapacity ∧
      (next.InRange traits → state.InRange traits) := by
  cases transition with
  | produce _ moves | fail _ moves =>
      obtain ⟨still, larger⟩ := moves.grows sized
      exact ⟨still, fun range => ⟨range.1, (Nat.mul_le_mul_right _ larger).trans range.2⟩⟩
  | advance _ _ moves | last _ _ moves | leave _ _ moves | free _ _ moves =>
      have grown := (SubQueue.advance_grows moves).1
      exact ⟨sized, fun range => ⟨grown.trans range.1, range.2⟩⟩
  | _ => exact ⟨sized, id⟩

/-- Runs are regular while ranges last. -/
def regular (traits : IndexTraits) (ι α B : Type) [Fintype ι] [DecidableEq ι] [DecidableEq B] :
    (system traits ι α B).Invariant where
  Holds events state :=
    state.index.index.current.capacity ≤ state.index.index.nextBlockIndexCapacity ∧
      (state.InRange traits → state.Regular traits events)
  initial := by
    rintro state rfl
    refine ⟨Nat.le_mul_of_pos_left _ Nat.two_pos, fun _ => ⟨.initial rfl, .initial rfl, ?_, ?_⟩⟩
    · have unused {block : Nat} (used : BlockIndex.Sharing.InUse (ι := ι) (B := B)
          { index := BlockIndex.construct traits, producer := .ready, inserted := 0, committed := 0,
            put := fun _ => none, freed := fun _ => false, places := fun _ => none } block) :
          False := by
        rcases used with put | live
        · exact Nat.not_lt_zero _ put.2
        · exact Nat.not_lt_zero _ live.1
      refine ⟨Nat.zero_le _, fun block => ⟨nofun, nofun⟩, nofun, .inl rfl, trivial, ?_, nofun⟩
      intro one other used
      exact (unused used).elim
    · intro cell element
      refine ⟨nofun, ?_⟩
      rintro ⟨place, alive, _⟩
      exact absurd alive.1 (Nat.not_lt_zero _)
  preserved := by
    rintro events state event next ⟨sized, held⟩ transition
    obtain ⟨still, back⟩ := transition.grows sized
    exact ⟨still, fun range => (held (back range)).step (back range) transition⟩

/-- A thread that takes an element out finds it in its place; the producer constructs
elements in empty places; and places hold nothing but the elements that are there. -/
structure InPlace (traits : IndexTraits) (state : ImplicitProducer ι α B) : Prop where
  taken : ∀ thread lookup header position found method run removed,
    state.Inside thread lookup header position found →
      state.queue.places thread = some (method, .move run removed) → run.index ≠ run.endIndex →
        ∃ block element, found = some block ∧
          state.queue.queue.elements[run.index]? = some element ∧
          state.cells (block, run.index % traits.blockSize) = some element
  vacant : state.Provided traits → state.nextIndex < state.newTailIndex →
    ∃ block, state.tailBlock traits = some block ∧
      state.cells (block, state.nextIndex % traits.blockSize) = none
  apart : Separate (state.Holds traits.toTraits)
  nothingElse : Represents state.cells (state.Holds traits.toTraits)

/-- The producer as a whole runs as its sub-queue and as its index: what is known of
either holds of it. -/
theorem always_indexed (traits : IndexTraits) (ι α B : Type) [Fintype ι] [DecidableEq ι]
    [DecidableEq B] (events : List (Event ι α B)) :
    (system traits ι α B).Always (fun before state => state.InRange traits →
      (SubQueue.Sharing.system traits.toTraits ι α).Runs (before.filterMap Event.queue)
        state.queue ∧
      (BlockIndex.Sharing.system traits ι B).Runs (before.filterMap Event.index) state.index)
      events := by
  intro before state _ run range
  have held := ((regular traits ι α B).of_runs run).2 range
  exact ⟨held.queue, held.index⟩

/-- However the producer and the threads interleave, elements are in their places. -/
theorem always_in_place (traits : IndexTraits) (ι α B : Type) [Fintype ι] [DecidableEq ι]
    [DecidableEq B] (events : List (Event ι α B)) :
    (system traits ι α B).Always (fun _ state => state.InRange traits → state.InPlace traits)
      events := by
  intro before state _ run range
  have held := ((regular traits ι α B).of_runs run).2 range
  have consistent := held.consistent range
  refine ⟨?_, ?_, consistent.separate_holds, held.represents⟩
  · intro thread lookup header position found method run removed inside here more
    obtain ⟨block, element, same, content, holds⟩ := consistent.holds_inside inside here more
    exact ⟨block, element, same, content, held.represents.read holds⟩
  · intro provided more
    have own := consistent.stands_built provided (Nat.le_add_right ..) more
    obtain ⟨block, there⟩ := consistent.stands_some own
    have tail := (consistent.tailBlock_eq provided more).trans there
    exact ⟨block, tail, held.represents.empty (consistent.vacant provided more tail)⟩

end Runs

end Traft.Moodycamel.ImplicitProducer
