import Mathlib.Data.List.Nodup
import Mathlib.Logic.Function.Basic

/-!
# Chains of pointers

`Linked next head nodes` says which nodes are met from a head pointer on, in order.
A chain does not change when the pointer of a node that is not on it does, and
there is at most one for a head.
-/

namespace Traft.Semantics

universe u

variable {N : Type u}

/-- The nodes from `head` on, where `next` says which comes behind a node. -/
def Linked (next : N → Option N) : Option N → List N → Prop
  | head, [] => head = none
  | head, node :: nodes => head = some node ∧ Linked next (next node) nodes

namespace Linked

variable {next : N → Option N} {head : Option N} {nodes : List N}

/-- There is one chain for a head. -/
theorem unique {others : List N} (linked : Linked next head nodes)
    (again : Linked next head others) : nodes = others := by
  induction nodes generalizing head others with
  | nil =>
      cases others with
      | nil => rfl
      | cons other others => cases (linked : head = none).symm.trans again.1
  | cons node nodes inductionHypothesis =>
      cases others with
      | nil => cases (again : head = none).symm.trans linked.1
      | cons other others =>
          obtain rfl := Option.some.inj (linked.1.symm.trans again.1)
          rw [inductionHypothesis linked.2 again.2]

/-- The pointer of another node may change. -/
theorem update [DecidableEq N] {node : N} (linked : Linked next head nodes)
    (absent : node ∉ nodes) (target : Option N) :
    Linked (Function.update next node target) head nodes := by
  induction nodes generalizing head with
  | nil => exact linked
  | cons first nodes inductionHypothesis =>
      obtain ⟨different, behind⟩ := not_or.mp (mt List.mem_cons.mpr absent)
      refine ⟨linked.1, ?_⟩
      rw [Function.update_of_ne (Ne.symm different)]
      exact inductionHypothesis linked.2 behind

/-- Behind its head a chain goes on. -/
theorem tail {node : N} (linked : Linked next (some node) nodes) :
    ∃ behind, nodes = node :: behind ∧ Linked next (next node) behind := by
  cases nodes with
  | nil => cases linked
  | cons first behind =>
      obtain rfl := Option.some.inj linked.1
      exact ⟨behind, rfl, linked.2⟩

end Linked

end Traft.Semantics
