import Mathlib.Algebra.Order.BigOperators.Group.Finset
import Mathlib.Algebra.Order.Ring.Int

/-!
# Sums over the places of threads

Each of finitely many threads is at some place of its program, and a step moves
one of them. `total` adds up what the places weigh, so that an accounting
equation about a shared state follows from what one move changes.
-/

namespace Traft.Semantics

universe u v w

variable {ι : Type u} {σ : Type v} [Fintype ι]

section Monoid

variable {M : Type w} [AddCommMonoid M]

/-- What the places of all threads weigh together. -/
def total (weight : σ → M) (places : ι → σ) : M := ∑ thread, weight (places thread)

/-- The weight of one thread can be told from that of the others. -/
theorem total_eq [DecidableEq ι] (weight : σ → M) (places : ι → σ) (thread : ι) :
    total weight places =
      weight (places thread) + ∑ other ∈ Finset.univ.erase thread, weight (places other) := by
  rw [total, ← Finset.add_sum_erase _ _ (Finset.mem_univ thread)]

/-- Moving one thread exchanges the weight of its place. -/
theorem total_update_add [DecidableEq ι] (weight : σ → M) (places : ι → σ) (thread : ι)
    (place : σ) :
    total weight (Function.update places thread place) + weight (places thread) =
      total weight places + weight place := by
  have others : ∑ other ∈ Finset.univ.erase thread,
      weight (Function.update places thread place other) =
        ∑ other ∈ Finset.univ.erase thread, weight (places other) := by
    apply Finset.sum_congr rfl
    intro other present
    rw [Function.update_of_ne (Finset.ne_of_mem_erase present)]
  rw [total_eq weight _ thread, total_eq weight places thread, Function.update_self, others,
    add_right_comm, add_comm (weight place), add_right_comm]

/-- Threads that all start at one weightless place weigh nothing. -/
theorem total_start {weight : σ → M} {start : σ} (weightless : weight start = 0) :
    total weight (fun _ : ι => start) = 0 := by
  unfold total
  exact Finset.sum_eq_zero fun _ _ => weightless

end Monoid

section Callers

variable {κ : Type w}

/-- What a thread weighs that may be inside a call: nothing outside. -/
def weigh (weight : σ → Int) : Option (κ × σ) → Int
  | none => 0
  | some (_, place) => weight place

/-- A weight of places that is never negative is not for threads either. -/
theorem weigh_nonneg {weight : σ → Int} (nonneg : ∀ place, 0 ≤ weight place)
    (place : Option (κ × σ)) : 0 ≤ weigh weight place := by
  cases place with
  | none => exact Int.le_refl 0
  | some inside => exact nonneg inside.2

/-- Nor is one that is at most `most` more for threads. -/
theorem weigh_le {weight : σ → Int} {most : Int} (nonneg : 0 ≤ most)
    (light : ∀ place, weight place ≤ most) (place : Option (κ × σ)) :
    weigh weight place ≤ most := by
  cases place with
  | none => exact nonneg
  | some inside => exact light inside.2

/-- Nor is one that is at most one more for threads. -/
theorem weigh_le_one {weight : σ → Int} (light : ∀ place, weight place ≤ 1)
    (place : Option (κ × σ)) : weigh weight place ≤ 1 :=
  weigh_le Int.one_nonneg light place

/-- Threads outside any call weigh nothing. -/
theorem total_idle (weight : σ → Int) :
    total (weigh weight) (fun _ : ι => (none : Option (κ × σ))) = 0 :=
  total_start rfl

end Callers

/-- Moving one thread changes a total by the difference of the two weights. -/
theorem total_update [DecidableEq ι] (weight : σ → Int) (places : ι → σ) (thread : ι)
    (place : σ) :
    total weight (Function.update places thread place) =
      total weight places - weight (places thread) + weight place := by
  have exchanged := total_update_add weight places thread place
  omega

/-- The same, where the place it leaves is known. -/
theorem total_moved [DecidableEq ι] {places : ι → σ} {thread : ι} {before : σ}
    (here : places thread = before) (weight : σ → Int) (place : σ) :
    total weight (Function.update places thread place) =
      total weight places - weight before + weight place := by
  subst here
  exact total_update weight places thread place

/-- Nonnegative weights have a nonnegative total. -/
theorem total_nonneg {weight : σ → Int} {places : ι → σ}
    (nonneg : ∀ thread, 0 ≤ weight (places thread)) : 0 ≤ total weight places :=
  Finset.sum_nonneg fun thread _ => nonneg thread

/-- No thread weighs more than all of them. -/
theorem weight_le_total {weight : σ → Int} {places : ι → σ}
    (nonneg : ∀ thread, 0 ≤ weight (places thread)) (thread : ι) :
    weight (places thread) ≤ total weight places :=
  Finset.single_le_sum (f := fun other => weight (places other))
    (fun other _ => nonneg other) (Finset.mem_univ thread)

/-- Weights of at most `most` add up to no more than that for each thread. -/
theorem total_le_card {weight : σ → Int} {places : ι → σ} {most : Int}
    (light : ∀ thread, weight (places thread) ≤ most) :
    total weight places ≤ Fintype.card ι * most := by
  have bounded := Finset.sum_le_card_nsmul Finset.univ (fun thread => weight (places thread)) most
    fun thread _ => light thread
  rwa [Finset.card_univ, nsmul_eq_mul] at bounded

/-- Two threads weigh no more than all of them. -/
theorem pair_le_total [DecidableEq ι] {weight : σ → Int} {places : ι → σ}
    (nonneg : ∀ thread, 0 ≤ weight (places thread)) {thread other : ι} (apart : thread ≠ other) :
    weight (places thread) + weight (places other) ≤ total weight places := by
  have without := Finset.single_le_sum (f := fun third => weight (places third))
    (fun third _ => nonneg third) (Finset.mem_erase.mpr ⟨apart.symm, Finset.mem_univ other⟩)
  rw [total_eq weight places thread]
  omega

/-- One thread at most weighs one if all together do. -/
theorem eq_of_total_le_one [DecidableEq ι] {weight : σ → Int} {places : ι → σ}
    (nonneg : ∀ thread, 0 ≤ weight (places thread)) (light : total weight places ≤ 1)
    {thread other : ι} (here : 1 ≤ weight (places thread)) (there : 1 ≤ weight (places other)) :
    thread = other := by
  by_contra apart
  have together := pair_le_total nonneg apart
  omega

/-- Weights of at most one add up to less than the number of threads if one of
them weighs nothing. -/
theorem total_lt_card {weight : σ → Int} {places : ι → σ}
    (light : ∀ thread, weight (places thread) ≤ 1) {thread : ι}
    (weightless : weight (places thread) = 0) : total weight places < Fintype.card ι := by
  have fewer : total weight places < ∑ _ : ι, (1 : Int) := by
    apply Finset.sum_lt_sum fun other _ => light other
    exact ⟨thread, Finset.mem_univ thread, by rw [weightless]; exact Int.one_pos⟩
  simpa using fewer

end Traft.Semantics
