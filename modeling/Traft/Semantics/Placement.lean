import Mathlib.Logic.Function.Basic

/-!
# Things in their cells

`Represents cells holds` says that the cells contain exactly what is held: `holds` is
which thing is in which cell, and what it is. No two things are in one cell, and one
is in one cell at a time; things may come to cells that are empty, and go.
-/

namespace Traft.Semantics

universe u v w

variable {Thing : Type u} {Cell : Type v} {α : Type w}

/-- The cells contain what is held and nothing else. -/
def Represents (cells : Cell → Option α) (holds : Thing → Cell → α → Prop) : Prop :=
  ∀ cell value, cells cell = some value ↔ ∃ thing, holds thing cell value

/-- Nothing shares a cell. -/
def Separate (holds : Thing → Cell → α → Prop) : Prop :=
  ∀ {one other cell first second}, holds one cell first → holds other cell second → one = other

namespace Represents

variable {cells : Cell → Option α} {holds later : Thing → Cell → α → Prop}

/-- It is read where it is. -/
theorem read (represents : Represents cells holds) {thing : Thing} {cell : Cell} {value : α}
    (here : holds thing cell value) : cells cell = some value :=
  (represents cell value).mpr ⟨thing, here⟩

/-- A cell that nothing is in is empty. -/
theorem empty (represents : Represents cells holds) {cell : Cell}
    (nothing : ∀ thing value, ¬ holds thing cell value) : cells cell = none := by
  cases content : cells cell with
  | none => rfl
  | some value =>
      obtain ⟨thing, here⟩ := (represents cell value).mp content
      exact absurd here (nothing thing value)

/-- What is held may be said otherwise. -/
theorem congr (represents : Represents cells holds)
    (same : ∀ thing cell value, later thing cell value ↔ holds thing cell value) :
    Represents cells later := by
  intro cell value
  rw [represents cell value]
  exact exists_congr fun thing => (same thing cell value).symm

/-- Something comes to an empty cell. -/
theorem put [DecidableEq Cell] (represents : Represents cells holds) {thing : Thing} {cell : Cell}
    {value : α} (nothing : ∀ other found, ¬ holds other cell found)
    (adds : ∀ other place found, later other place found ↔
      holds other place found ∨ other = thing ∧ place = cell ∧ found = value) :
    Represents (Function.update cells cell (some value)) later := by
  intro place found
  rcases eq_or_ne place cell with rfl | elsewhere
  · rw [Function.update_self]
    constructor
    · intro same
      exact ⟨thing, (adds ..).mpr (.inr ⟨rfl, rfl, (Option.some.inj same).symm⟩)⟩
    · rintro ⟨other, here⟩
      rcases (adds ..).mp here with before | ⟨_, _, rfl⟩
      · exact absurd before (nothing other found)
      · rfl
  · rw [Function.update_of_ne elsewhere, represents place found]
    refine exists_congr fun other => ?_
    rw [adds]
    exact ⟨.inl, fun here => here.resolve_right fun new => elsewhere new.2.1⟩

/-- Some things go, and their cells are emptied. -/
theorem clear (represents : Represents cells holds) (separate : Separate holds)
    {gone : Thing → Prop} {emptied : Cell → Option α}
    (cleared : ∀ {thing cell value}, gone thing → holds thing cell value → emptied cell = none)
    (kept : ∀ {cell}, (∀ thing value, gone thing → ¬ holds thing cell value) →
      emptied cell = cells cell)
    (stays : ∀ thing cell value, later thing cell value ↔ holds thing cell value ∧ ¬ gone thing) :
    Represents emptied later := by
  intro cell value
  constructor
  · intro content
    have still : ∀ thing value, gone thing → ¬ holds thing cell value := by
      intro thing value leaves here
      rw [cleared leaves here] at content
      cases content
    rw [kept still, represents cell value] at content
    obtain ⟨thing, here⟩ := content
    exact ⟨thing, (stays ..).mpr ⟨here, fun leaves => still thing value leaves here⟩⟩
  · rintro ⟨thing, here⟩
    obtain ⟨here, stays⟩ := (stays ..).mp here
    rw [kept]
    · exact represents.read here
    · intro other found leaves there
      rw [separate there here] at leaves
      exact stays leaves

/-- One thing goes. -/
theorem remove [DecidableEq Cell] (represents : Represents cells holds)
    (separate : Separate holds) {thing : Thing} {cell : Cell} {value : α}
    (here : holds thing cell value)
    (only : ∀ {place found}, holds thing place found → place = cell)
    (stays : ∀ other place found, later other place found ↔
      holds other place found ∧ other ≠ thing) :
    Represents (Function.update cells cell none) later := by
  apply represents.clear separate _ _ stays
  · rintro other place found rfl there
    rw [only there]
    exact Function.update_self ..
  · intro place still
    apply Function.update_of_ne
    rintro rfl
    exact still thing value rfl here

end Represents

end Traft.Semantics
