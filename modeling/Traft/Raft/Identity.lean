import Traft.Utils.Define
import Mathlib.Data.Prod.Basic

/-!
# Peer identities

`PeerId` carries a replica type which neither its ordering nor its equality
looks at. `PeerId.member` is what they do look at, so that counting members is
counting peers up to `==`.
-/

namespace Traft.Raft

/-- `utils::EndPoint`. -/
structure EndPoint where
  ip : Nat
  port : Int
deriving DecidableEq, Repr

/-- The defaulted `EndPoint::operator<=>`: members in declaration order. -/
instance : Ord EndPoint where
  compare left right := (compare left.ip right.ip).then (compare left.port right.port)

/-- `ReplicaType`. -/
inductive ReplicaType where
  | default
  | learner
  | witness
  | unknown
  | any
deriving DecidableEq, Repr

/-- `PeerId`. -/
structure PeerId where
  endpoint : EndPoint
  index : Int
  type : ReplicaType
deriving Repr

/-- `PeerId::operator<=>`. -/
instance : Ord PeerId where
  compare left right :=
    if left.index ≠ right.index then
      compare left.index right.index
    else
      compare left.endpoint right.endpoint

/-- `PeerId::operator==`. -/
instance : BEq PeerId where
  beq left right := left.index == right.index && left.endpoint == right.endpoint

/-- The fields comparison and equality read. -/
abbrev Member := Int × EndPoint

/-- The identity of a peer, without its replica type. -/
def PeerId.member (peer : PeerId) : Member := (peer.index, peer.endpoint)

/-- The replica of a given index at the default endpoint. -/
def replica (index : Int) : PeerId := ⟨⟨0, 0⟩, index, .default⟩

/-- Equality of peers is equality of members. -/
theorem PeerId.beq_iff_member {left right : PeerId} :
    (left == right) = true ↔ left.member = right.member := by
  change (left.index == right.index && left.endpoint == right.endpoint) = true ↔ _
  simp [PeerId.member]

instance : EquivBEq PeerId where
  rfl := PeerId.beq_iff_member.mpr rfl
  symm same := PeerId.beq_iff_member.mpr (PeerId.beq_iff_member.mp same).symm
  trans first second := PeerId.beq_iff_member.mpr
    ((PeerId.beq_iff_member.mp first).trans (PeerId.beq_iff_member.mp second))

/-- The defaulted comparison of endpoints is lexicographic. -/
theorem EndPoint.compare_eq :
    (compare : EndPoint → EndPoint → Ordering) =
      compareLex (compareOn EndPoint.ip) (compareOn EndPoint.port) :=
  rfl

instance : Std.TransOrd EndPoint where
  eq_swap := by
    rw [EndPoint.compare_eq]
    exact Std.OrientedCmp.eq_swap
  isLE_trans := by
    rw [EndPoint.compare_eq]
    exact Std.TransCmp.isLE_trans

instance : Std.LawfulEqOrd EndPoint where
  eq_of_compare {left right} same := by
    rw [EndPoint.compare_eq] at same
    simp only [compareLex, compareOn, Ordering.then_eq_eq, Std.compare_eq_iff_eq] at same
    cases left
    cases right
    simp_all

/-- The early return on different indexes makes the comparison of peers
lexicographic in the index and the endpoint. -/
theorem PeerId.compare_eq :
    (compare : PeerId → PeerId → Ordering) =
      compareLex (compareOn PeerId.index) (compareOn PeerId.endpoint) := by
  funext left right
  change (if left.index ≠ right.index then compare left.index right.index
    else compare left.endpoint right.endpoint) = _
  by_cases same : left.index = right.index
  · simp [compareLex, compareOn, same]
  · have differs : compare left.index right.index ≠ .eq := by
      simpa [Std.compare_eq_iff_eq] using same
    simp only [ne_eq, same, not_false_eq_true, if_true, compareLex, compareOn]
    cases compared : compare left.index right.index <;> simp_all

instance : Std.TransOrd PeerId where
  eq_swap := by
    rw [PeerId.compare_eq]
    exact Std.OrientedCmp.eq_swap
  isLE_trans := by
    rw [PeerId.compare_eq]
    exact Std.TransCmp.isLE_trans

/-- Comparison and equality agree on which peers are the same member. -/
theorem PeerId.compare_eq_iff_member {left right : PeerId} :
    compare left right = .eq ↔ left.member = right.member := by
  rw [PeerId.compare_eq]
  simp [compareLex, compareOn, Ordering.then_eq_eq, PeerId.member]

instance : Std.LawfulBEqOrd PeerId where
  compare_eq_iff_beq := PeerId.compare_eq_iff_member.trans PeerId.beq_iff_member.symm

end Traft.Raft
