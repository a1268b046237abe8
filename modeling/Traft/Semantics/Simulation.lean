import Mathlib.Logic.Function.Basic
import Traft.Semantics.Run

/-!
# Simulation between transition systems

A `Simulation` relates the states of a system to those of a more abstract one,
which answers each event of the first with one of its own or not at all. What the
first system does is then something the second one does as well.
-/

namespace Traft.Semantics

universe u v

variable {Event : Type u} {Visible : Type v}

/-- The visible event of the last one comes last. -/
theorem filterMap_concat (visible : Event → Option Visible) (events : List Event)
    (event : Event) : (events ++ [event]).filterMap visible =
      events.filterMap visible ++ (visible event).toList := by
  rw [List.filterMap_append]
  cases seen : visible event with
  | none => rw [List.filterMap_cons_none seen, List.filterMap_nil, Option.toList_none]
  | some shown => rw [List.filterMap_cons_some seen, List.filterMap_nil, Option.toList_some]

namespace StepSystem

/-- One step for a visible event, and no step for none. -/
def Answers (system : StepSystem Visible) (state : system.State) :
    Option Visible → system.State → Prop
  | none, next => next = state
  | some event, next => system.Step state event next

/-- The last event of a run is the last step. -/
theorem Runs.last {system : StepSystem Event} {events : List Event} {event : Event}
    {final : system.State} (run : system.Runs (events ++ [event]) final) :
    ∃ state, system.Runs events state ∧ system.Step state event final := by
  generalize whole : events ++ [event] = history at run
  cases run with
  | initial valid => exact absurd whole (List.append_ne_nil_of_right_ne_nil _ (List.cons_ne_nil _ _))
  | step prior transition =>
      obtain ⟨rfl, rfl⟩ := List.append_singleton_inj.mp whole
      exact ⟨_, prior, transition⟩

/-- The same system, taking only some of its events. -/
def restrict (system : StepSystem Event) (allowed : Event → Prop) : StepSystem Event where
  State := system.State
  Initial := system.Initial
  Step state event next := allowed event ∧ system.Step state event next

/-- The same system, going on from one state. -/
def startingAt (system : StepSystem Event) (start : system.State) : StepSystem Event where
  State := system.State
  Initial state := state = start
  Step := system.Step

/-- A run goes on by what its system answers. -/
theorem Runs.answers {system : StepSystem Visible} {events : List Visible}
    {state next : system.State} (run : system.Runs events state) {event : Option Visible}
    (answer : system.Answers state event next) : system.Runs (events ++ event.toList) next := by
  cases event with
  | none =>
      obtain rfl : next = state := answer
      rwa [Option.toList_none, List.append_nil]
  | some shown => exact .step run answer

section Family

variable {κ : Type v} [DecidableEq κ]

/-- Many copies of one system side by side, of which one takes each step. -/
@[reducible] def family (system : StepSystem Event) (κ : Type v) [DecidableEq κ] :
    StepSystem (κ × Event) where
  State := κ → system.State
  Initial states := ∀ key, system.Initial (states key)
  Step states event next := ∃ after, system.Step (states event.1) event.2 after ∧
    next = Function.update states event.1 after

/-- The events of one copy. -/
def eventsOf (key : κ) (events : List (κ × Event)) : List Event :=
  events.filterMap fun event => if event.1 = key then some event.2 else none

/-- Each copy keeps an invariant of the system, by its own events. -/
def Invariant.family {system : StepSystem Event} (inv : system.Invariant) (κ : Type v)
    [DecidableEq κ] : (system.family κ).Invariant where
  Holds events states := ∀ key, inv.Holds (eventsOf key events) (states key)
  initial states valid key := inv.initial (states key) (valid key)
  preserved := by
    rintro events states event next held ⟨after, moved, rfl⟩ key
    rw [eventsOf, filterMap_concat]
    by_cases own : event.1 = key
    · subst own
      rw [if_pos rfl, Function.update_self]
      exact inv.preserved (held event.1) moved
    · rw [if_neg own, Function.update_of_ne (Ne.symm own), Option.toList_none, List.append_nil]
      exact held key

end Family

/-- A relation between states, given the events before them, which initial states
are in and which the second system can keep to at each step of the first. -/
structure Simulation (concrete : StepSystem Event) (abstract : StepSystem Visible) where
  Related : List Event → concrete.State → abstract.State → Prop
  visible : Event → Option Visible
  initial : ∀ state, concrete.Initial state →
    ∃ image, abstract.Initial image ∧ Related [] state image
  step : ∀ {events state event next image}, Related events state image →
    concrete.Step state event next →
    ∃ after, abstract.Answers image (visible event) after ∧ Related (events ++ [event]) next after

namespace Simulation

variable {concrete : StepSystem Event} {abstract : StepSystem Visible}

/-- A run of the first system is one of the second, with the visible events. -/
theorem runs (simulation : Simulation concrete abstract) {events : List Event}
    {state : concrete.State} (run : concrete.Runs events state) :
    ∃ image, abstract.Runs (events.filterMap simulation.visible) image ∧
      simulation.Related events state image := by
  induction run with
  | initial valid =>
      obtain ⟨image, valid', related⟩ := simulation.initial _ valid
      exact ⟨image, .initial valid', related⟩
  | @step events state event next _ transition inductionHypothesis =>
      obtain ⟨image, prior, related⟩ := inductionHypothesis
      obtain ⟨after, answer, related'⟩ := simulation.step related transition
      refine ⟨after, ?_, related'⟩
      rw [filterMap_concat]
      exact prior.answers answer

end Simulation

end StepSystem

end Traft.Semantics
