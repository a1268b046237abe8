import Traft.ConcurrentQueue.FreeListRun

/-!
# A thread on its own

Wherever the other threads were stopped, a thread that goes on alone returns. It
may find that the head it has loaded is no longer the head, or that it holds the
last reference to a node that is to be put back, but each of these only once.
-/

namespace Traft.Moodycamel.FreeList

open Traft.Semantics

variable {N : Type} [DecidableEq N]

/-- Whether a thread holds the last reference to a node that is marked. -/
def last (list : FreeList N) (node : N) : Prop :=
  list.refs node = shouldBeOnFreelist + 1

instance (list : FreeList N) (node : N) : Decidable (list.last node) :=
  inferInstanceAs (Decidable (_ = _))

/-- The operations a thread on its own may still make. -/
def rank (list : FreeList N) : Point N → Nat
  | .mark _ => 15
  | .loadHead .. => 14
  | .storeNext _ head _ => if list.head = head then 13 else 17
  | .storeRefs _ head _ => if list.head = head then 12 else 16
  | .push _ head _ => if list.head = head then 11 else 15
  | .remark _ head _ => if list.head = head then 14 else 18
  | .getHead => 6
  | .loadRefs node => if list.head = some node then 5 else 10
  | .takeRef node refs =>
      if list.refs node = refs then if list.head = some node then 4 else 9 else 7
  | .loadNext node => if list.head = some node then 3 else if list.last node then 17 else 8
  | .pop node _ => if list.head = some node then 2 else if list.last node then 16 else 7
  | .dropBoth _ => 1
  | .dropRef node head => if list.last node then 15 else if list.head = head then 6 else 11
  | .done _ => 0

/-- Never more than eighteen. -/
theorem rank_le (list : FreeList N) (point : Point N) : list.rank point ≤ 18 := by
  cases point <;> simp only [rank] <;> (repeat' split) <;> decide

variable {list later : FreeList N} {point after : Point N}

/-- The loop of `try_get` is near its end when the head is fresh. -/
theorem rank_again (list : FreeList N) (head : Option N) :
    list.rank (again head) ≤ if list.head = head then 5 else 10 := by
  cases head with
  | none => exact Nat.zero_le _
  | some node => exact Nat.le_refl _

/-- Behind `add_knowing_refcount_is_zero` it may have to begin again. -/
theorem rank_resumed (list : FreeList N) (resume : Option (Option N)) :
    list.rank (resumed resume) ≤ 10 := by
  cases resume with
  | none => exact Nat.zero_le _
  | some head =>
      apply (list.rank_again head).trans
      split <;> decide

/-- With each operation it is nearer, while the node at the head is referred to. -/
theorem rank_advance (counted : ∀ node, list.head = some node → list.refs node % 2147483648 ≠ 0)
    (knows : point.Knows list) (moves : list.advance point = some (later, after)) :
    later.rank after < list.rank point := by
  cases point with
  | mark node =>
      obtain ⟨⟩ := moves
      change _ < 15
      split
      · exact Nat.lt_succ_self 14
      · exact Nat.succ_pos 14
  | loadHead node resume =>
      obtain ⟨⟩ := moves
      change (if list.head = list.head then 13 else 17) < 14
      rw [if_pos rfl]
      exact Nat.lt_succ_self 13
  | storeNext node head resume =>
      obtain ⟨⟩ := moves
      change (if list.head = head then 12 else 16) < if list.head = head then 13 else 17
      split
      · exact Nat.lt_succ_self 12
      · exact Nat.lt_succ_self 16
  | storeRefs node head resume =>
      obtain ⟨⟩ := moves
      change (if list.head = head then 11 else 15) < if list.head = head then 12 else 16
      split
      · exact Nat.lt_succ_self 11
      · exact Nat.lt_succ_self 15
  | push node head resume =>
      simp only [FreeList.advance] at moves
      split at moves
      · rename_i fresh
        obtain ⟨⟩ := moves
        have begins := rank_resumed { list with head := some node } resume
        change _ < if list.head = head then 11 else 15
        rw [if_pos fresh]
        exact Nat.lt_succ_of_le begins
      · rename_i stale
        obtain ⟨⟩ := moves
        change (if list.head = list.head then 14 else 18) < if list.head = head then 11 else 15
        rw [if_pos rfl, if_neg stale]
        exact Nat.lt_succ_self 14
  | remark node head resume =>
      obtain ⟨⟩ := moves
      change _ < if list.head = head then 14 else 18
      split
      · change (if list.head = head then 13 else 17) < _
        split
        · exact Nat.lt_succ_self 13
        · exact Nat.lt_succ_self 17
      · apply (rank_resumed _ resume).trans_lt
        split <;> decide
  | getHead =>
      obtain ⟨⟩ := moves
      have begins := list.rank_again list.head
      rw [if_pos rfl] at begins
      exact Nat.lt_succ_of_le begins
  | loadRefs node =>
      obtain ⟨⟩ := moves
      change _ < if list.head = some node then 5 else 10
      split
      · rename_i none
        rw [if_neg fun here => counted node here none]
        exact (Nat.le_add_left 7 3 : 6 < 10)
      · change (if list.refs node = list.refs node then if list.head = some node then 4 else 9
          else 7) < _
        rw [if_pos rfl]
        split <;> decide
  | takeRef node refs =>
      change _ < if list.refs node = refs then if list.head = some node then 4 else 9 else 7
      simp only [FreeList.advance] at moves
      split at moves
      · rename_i same
        obtain ⟨⟩ := moves
        have notLast : ¬ (list.setRefs node (refs + 1)).last node := by
          have referred : refs % 2147483648 ≠ 0 := knows
          simp only [last, setRefs, Function.update_self, shouldBeOnFreelist]
          omega
        change (if list.head = some node then 3 else
          if (list.setRefs node (refs + 1)).last node then 17 else 8) < _
        rw [if_neg notLast, if_pos same]
        split <;> decide
      · rename_i other
        obtain ⟨⟩ := moves
        rw [if_neg other]
        exact Nat.lt_succ_self 6
  | loadNext node =>
      obtain ⟨⟩ := moves
      change (if list.head = some node then 2 else if list.last node then 16 else 7) <
        if list.head = some node then 3 else if list.last node then 17 else 8
      split
      · exact Nat.lt_succ_self 2
      · split
        · exact Nat.lt_succ_self 16
        · exact Nat.lt_succ_self 7
  | pop node next =>
      change _ < if list.head = some node then 2 else if list.last node then 16 else 7
      simp only [FreeList.advance] at moves
      split at moves
      · rename_i fresh
        obtain ⟨⟩ := moves
        rw [if_pos fresh]
        exact Nat.lt_succ_self 1
      · rename_i stale
        obtain ⟨⟩ := moves
        change (if list.last node then 15 else if list.head = list.head then 6 else 11) < _
        rw [if_neg stale, if_pos rfl]
        split <;> decide
  | dropBoth node =>
      obtain ⟨⟩ := moves
      exact Nat.zero_lt_one
  | dropRef node head =>
      obtain ⟨⟩ := moves
      change _ < if list.last node then 15 else if list.head = head then 6 else 11
      split
      · rename_i marked
        have mine : list.last node := marked
        rw [if_pos mine]
        exact Nat.lt_succ_self 14
      · rename_i more
        have others : ¬ list.last node := more
        have begins : _ ≤ if list.head = head then 5 else 10 :=
          rank_again (list.setRefs node (list.refs node - 1)) head
        rw [if_neg others]
        apply begins.trans_lt
        split <;> decide
  | done => cases moves

/-- A method goes on until it returns. -/
theorem advance_isSome (list : FreeList N) (point : Point N) :
    (∃ result, point = .done result) ∨ (list.advance point).isSome := by
  cases point with
  | done result => exact .inl ⟨result, rfl⟩
  | push node head resume =>
      simp only [FreeList.advance]
      split <;> exact .inr rfl
  | takeRef node refs =>
      simp only [FreeList.advance]
      split <;> exact .inr rfl
  | pop node next =>
      simp only [FreeList.advance]
      split <;> exact .inr rfl
  | _ => exact .inr rfl

namespace Sharing

section Thread

variable {ι : Type}

/-- A thread is inside a method. -/
def Inside (thread : ι) (state : Sharing ι N) : Prop :=
  ∃ method point, state.places thread = some (method, point)

/-- A thread has come to the end of its method. -/
def Returned (thread : ι) (state : Sharing ι N) : Prop :=
  ∃ method result, state.places thread = some (method, .done result)

/-- The rank of a thread. -/
def rankOf (thread : ι) (state : Sharing ι N) : Nat :=
  (state.places thread).elim 0 fun place => state.list.rank place.2

/-- That of a thread at a point. -/
theorem rankOf_eq {thread : ι} {state : Sharing ι N} {method : Method N} {point : Point N}
    (here : state.places thread = some (method, point)) :
    state.rankOf thread = state.list.rank point := by
  rw [rankOf, here, Option.elim_some]

variable [Fintype ι]

/-- The head is on the list, and the list refers to it. -/
theorem Kept.head_counted {nodes : List N} {state : Sharing ι N} (kept : state.Kept nodes)
    (few : Few ι) {node : N} (first : state.list.head = some node) (thread : ι) :
    state.list.refs node % 2147483648 ≠ 0 := by
  obtain ⟨behind, rfl, _⟩ := (first ▸ kept.linked).tail
  obtain ⟨count, place, _⟩ := kept.has (rfl : state.places thread = _) node
  obtain ⟨owned, references, small, holds, _⟩ := others_sound few state thread node
  have bounds := fun point => Point.about_bounds Point.references_bounds node point
  have refers := weigh_nonneg (fun point => (bounds point).1) (state.places thread)
  have most := weigh_le (by decide) (fun point => (bounds point).2) (state.places thread)
  have carries := weigh_nonneg
    (fun point => (Point.about_bounds Point.carries_bounds node point).1) (state.places thread)
  have nonneg : 0 ≤ if state.owned node then (1 : Int) else 0 := owned
  have listed : listed (node :: behind) node = 1 := if_pos List.mem_cons_self
  simp only [] at count place
  omega

end Thread

variable {ι : Type} [Fintype ι] [DecidableEq ι]

/-- A thread inside a method has returned, or comes nearer to that. -/
theorem Kept.nearer {nodes : List N} {state : Sharing ι N} (kept : state.Kept nodes)
    (few : Few ι) {thread : ι} (inside : state.Inside thread) :
    state.Returned thread ∨ ∃ next, Step state (.advance thread) next ∧ next.Inside thread ∧
      next.rankOf thread < state.rankOf thread := by
  obtain ⟨method, point, here⟩ := inside
  rcases advance_isSome state.list point with ⟨result, rfl⟩ | goesOn
  · exact .inl ⟨method, result, here⟩
  · obtain ⟨⟨list, after⟩, moves⟩ := Option.isSome_iff_exists.mp goesOn
    have there : state.move thread (some (method, after)) thread = some (method, after) :=
      Function.update_self ..
    refine .inr ⟨_, .advance here moves, ⟨method, after, there⟩, ?_⟩
    rw [rankOf_eq here, rankOf_eq there]
    exact rank_advance (fun node first => kept.head_counted few first thread)
      (kept.knows thread method point here) moves

/-- Wherever other threads were stopped, a call whose thread goes on alone returns
within eighteen operations. -/
theorem always_returns_alone (ι N : Type) [Fintype ι] [DecidableEq ι] [DecidableEq N]
    (events : List (Event ι N)) :
    (system ι N).Always (fun before state => Few ι → ∀ thread, state.Inside thread →
      ∃ steps ≤ 18, ∃ final,
        (system ι N).Runs (before ++ List.replicate steps (.advance thread)) final ∧
        Returned thread final) events := by
  intro before state _ run few thread inside
  refine (keeping ι N few).descends (rankOf thread) ?_ 18 run inside ?_
  · rintro events state ⟨nodes, kept⟩ inside
    exact kept.nearer few inside
  · obtain ⟨method, point, here⟩ := inside
    rw [rankOf_eq here]
    exact rank_le state.list point

end Sharing

end Traft.Moodycamel.FreeList
