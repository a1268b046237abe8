import Mathlib.Data.List.Infix

/-!
# Finite runs of a labelled transition system

A `StepSystem` is a relation between states, labelled by events. `Runs` builds
its finite executions and keeps the events already taken, so an invariant may
speak about the history as well as the state. `Always` states a property at
every state a list of events passes through and `EachStep` states one of every
transition; `always_iff_eachStep` trades the first for the second.
-/

namespace Traft.Semantics

universe u v

/-- A transition system whose steps are labelled by events. -/
structure StepSystem (Event : Type u) where
  State : Type v
  Initial : State → Prop
  Step : State → Event → State → Prop

namespace StepSystem

variable {Event : Type u} {system : StepSystem Event}

/-- Finite executions from an initial state, with the events taken so far. -/
inductive Runs (system : StepSystem Event) : List Event → system.State → Prop where
  | initial {state} (valid : system.Initial state) : Runs system [] state
  | step {events state event next} (prior : Runs system events state)
      (transition : system.Step state event next) : Runs system (events ++ [event]) next

/-- A computed step function which only takes steps of the system computes runs. -/
theorem Runs.of_foldlM {advance : system.State → Event → Option system.State}
    (sound : ∀ {state event next}, advance state event = some next →
      system.Step state event next)
    {start : system.State} (valid : system.Initial start) {events : List Event}
    {state : system.State} (computed : events.foldlM advance start = some state) :
    system.Runs events state := by
  induction events using List.reverseRecOn generalizing state with
  | nil =>
      obtain rfl := Option.some.inj computed
      exact .initial valid
  | append_singleton events event inductionHypothesis =>
      rw [List.foldlM_append, Option.bind_eq_bind, Option.bind_eq_some_iff] at computed
      obtain ⟨before, prior, last⟩ := computed
      have transition : advance before event = some state := by simpa using last
      exact .step (inductionHypothesis prior) (sound transition)

/-- A predicate on history and state that initial states satisfy and every step
preserves. -/
structure Invariant (system : StepSystem Event) where
  Holds : List Event → system.State → Prop
  initial : ∀ state, system.Initial state → Holds [] state
  preserved : ∀ {events state event next}, Holds events state →
    system.Step state event next → Holds (events ++ [event]) next

/-- An invariant holds at the end of every run. -/
theorem Invariant.of_runs (inv : system.Invariant) {events : List Event}
    {state : system.State} (run : system.Runs events state) : inv.Holds events state := by
  induction run with
  | initial valid => exact inv.initial _ valid
  | step _ transition inductionHypothesis => exact inv.preserved inductionHypothesis transition

/-- Where one event can be repeated until its states rest, and each time a rank
falls, it is repeated no more often than the rank says. -/
theorem Invariant.descends (inv : system.Invariant) {event : Event}
    {Alone Rests : system.State → Prop} (rank : system.State → Nat)
    (goesOn : ∀ {events state}, inv.Holds events state → Alone state →
      Rests state ∨ ∃ next, system.Step state event next ∧ Alone next ∧ rank next < rank state)
    (bound : Nat) {events : List Event} {state : system.State} (run : system.Runs events state)
    (alone : Alone state) (ranked : rank state ≤ bound) :
    ∃ steps ≤ bound, ∃ final, system.Runs (events ++ List.replicate steps event) final ∧
      Rests final := by
  induction bound generalizing events state with
  | zero =>
      rcases goesOn (inv.of_runs run) alone with rests | ⟨next, _, _, nearer⟩
      · refine ⟨0, Nat.le_refl 0, state, ?_, rests⟩
        rwa [List.replicate_zero, List.append_nil]
      · omega
  | succ bound inductionHypothesis =>
      rcases goesOn (inv.of_runs run) alone with rests | ⟨next, transition, still, nearer⟩
      · refine ⟨0, Nat.zero_le _, state, ?_, rests⟩
        rwa [List.replicate_zero, List.append_nil]
      · obtain ⟨steps, few, final, ran, rests⟩ := inductionHypothesis (.step run transition) still
          (Nat.le_of_lt_succ (nearer.trans_le ranked))
        refine ⟨steps + 1, by omega, final, ?_, rests⟩
        rw [List.append_assoc] at ran
        exact ran

/-- Beside an invariant, another one that rests on it and is kept while a guard
holds, where no step makes the guard hold again. -/
def Invariant.beside (inv : system.Invariant) (guard : system.State → Prop)
    (Holds : List Event → system.State → Prop)
    (initial : ∀ state, system.Initial state → Holds [] state)
    (back : ∀ {state event next}, system.Step state event next → guard next → guard state)
    (preserved : ∀ {events state event next}, inv.Holds events state → guard state →
      Holds events state → system.Step state event next → Holds (events ++ [event]) next) :
    system.Invariant where
  Holds events state := inv.Holds events state ∧ (guard state → Holds events state)
  initial state valid := ⟨inv.initial state valid, fun _ => initial state valid⟩
  preserved := by
    rintro events state event next ⟨base, held⟩ transition
    refine ⟨inv.preserved base transition, fun guarded => ?_⟩
    have before := back transition guarded
    exact preserved base before (held before) transition

/-- `P` holds in every state reached along `events`. -/
def Always (system : StepSystem Event) (P : List Event → system.State → Prop)
    (events : List Event) : Prop :=
  ∀ {before state}, before <+: events → system.Runs before state → P before state

/-- `C` holds of every transition taken along `events`, with the history before it. -/
def EachStep (system : StepSystem Event)
    (C : List Event → system.State → Event → system.State → Prop)
    (events : List Event) : Prop :=
  ∀ {before state event next}, before ++ [event] <+: events → system.Runs before state →
    system.Step state event next → C before state event next

/-- Transition properties which agree on every step from a reachable state are
the same property of runs. -/
theorem eachStep_congr (inv : system.Invariant)
    {C D : List Event → system.State → Event → system.State → Prop}
    (agree : ∀ {before state event next}, inv.Holds before state →
      system.Step state event next → (C before state event next ↔ D before state event next))
    (events : List Event) : system.EachStep C events ↔ system.EachStep D events := by
  constructor
  · intro each before state event next isPrefix run transition
    exact (agree (inv.of_runs run) transition).mp (each isPrefix run transition)
  · intro each before state event next isPrefix run transition
    exact (agree (inv.of_runs run) transition).mpr (each isPrefix run transition)

/-- What every step satisfying `C` keeps holds along a run of such steps. -/
theorem EachStep.keeps (inv : system.Invariant) {Kept : List Event → system.State → Prop}
    {C : List Event → system.State → Event → system.State → Prop}
    (initial : ∀ state, system.Initial state → Kept [] state)
    (kept : ∀ {before state event next}, inv.Holds before state → Kept before state →
      system.Step state event next → C before state event next → Kept (before ++ [event]) next)
    {events before : List Event} {state : system.State} (each : system.EachStep C events)
    (isPrefix : before <+: events) (run : system.Runs before state) : Kept before state := by
  induction run with
  | initial valid => exact initial _ valid
  | @step earlier state event next prior transition inductionHypothesis =>
      have held := inductionHypothesis ((List.prefix_append earlier [event]).trans isPrefix)
      exact kept (inv.of_runs prior) held transition (each isPrefix prior transition)

/-- Transition properties which agree wherever the steps before have kept something
are the same property of runs, if the steps satisfying one of them keep it. -/
theorem eachStep_iff_along (inv : system.Invariant) (Kept : List Event → system.State → Prop)
    {C D : List Event → system.State → Event → system.State → Prop}
    (initial : ∀ state, system.Initial state → Kept [] state)
    (kept : ∀ {before state event next}, inv.Holds before state → Kept before state →
      system.Step state event next → C before state event next → Kept (before ++ [event]) next)
    (agree : ∀ {before state event next}, inv.Holds before state → Kept before state →
      system.Step state event next → (C before state event next ↔ D before state event next))
    (events : List Event) : system.EachStep C events ↔ system.EachStep D events := by
  constructor
  · intro each before state event next isPrefix run transition
    have held : Kept before state :=
      each.keeps inv initial kept ((List.prefix_append before [event]).trans isPrefix) run
    exact (agree (inv.of_runs run) held transition).mp (each isPrefix run transition)
  · intro each before state event next isPrefix run transition
    have held : Kept before state :=
      each.keeps inv initial
        (fun holds held step satisfied => kept holds held step
          ((agree holds held step).mpr satisfied))
        ((List.prefix_append before [event]).trans isPrefix) run
    exact (agree (inv.of_runs run) held transition).mpr (each isPrefix run transition)

/-- When a step from a state satisfying `P` keeps `P` exactly if it satisfies
`C`, a run stays in `P` exactly if each of its steps satisfies `C`. -/
theorem always_iff_eachStep (inv : system.Invariant)
    {P : List Event → system.State → Prop}
    {C : List Event → system.State → Event → system.State → Prop}
    (initial : ∀ state, system.Initial state → P [] state)
    (decides : ∀ {before state event next}, inv.Holds before state → P before state →
      system.Step state event next → (P (before ++ [event]) next ↔ C before state event next))
    (events : List Event) : system.Always P events ↔ system.EachStep C events := by
  constructor
  · intro always before state event next isPrefix run transition
    have here : P before state :=
      always ((List.prefix_append before [event]).trans isPrefix) run
    exact (decides (inv.of_runs run) here transition).mp
      (always isPrefix (.step run transition))
  · intro each before state isPrefix run
    induction run with
    | initial valid => exact initial _ valid
    | @step events state event next prior transition inductionHypothesis =>
        have here : P events state :=
          inductionHypothesis ((List.prefix_append events [event]).trans isPrefix)
        exact (decides (inv.of_runs prior) here transition).mpr
          (each isPrefix prior transition)

end StepSystem

end Traft.Semantics
