import Traft.ConcurrentQueue.FreeList
import Traft.Semantics.Linked
import Traft.Semantics.Threads

/-!
# The accounts of a node

A node of the free list is on the list, with the client, marked to be put back, or
in the hands of one thread, and its count is that of the references to it. An
operation changes the account of the node it is about and of no other one.
-/

namespace Traft.Moodycamel.FreeList

open Traft.Semantics

namespace Point

variable {N : Type}

/-- The node a thread is about. -/
def node : Point N → Option N
  | .mark node | .loadHead node _ | .storeNext node _ _ | .storeRefs node _ _ | .push node _ _
  | .remark node _ _ | .loadRefs node | .takeRef node _ | .loadNext node | .pop node _
  | .dropBoth node | .dropRef node _ => some node
  | .getHead => none
  | .done result => result

/-- The references a thread has to its node, with that of a list it took it off. -/
def references : Point N → Int
  | .push .. | .remark .. | .loadNext _ | .pop .. | .dropRef .. => 1
  | .dropBoth _ => 2
  | _ => 0

/-- Whether its node is in the hands of a thread: it brings it, or has taken it. -/
def carries : Point N → Int
  | .mark _ | .push .. | .remark .. | .dropBoth _ | .done _ => 1
  | _ => 0

/-- Whether a thread prepares its node, to which there is no reference. -/
def prepares : Point N → Int
  | .loadHead .. | .storeNext .. | .storeRefs .. => 1
  | _ => 0

/-- The node a thread has taken off the list. -/
def taken : Point N → Option N
  | .dropBoth node => some node
  | .done result => result
  | _ => none

/-- Whether a thread is inside `add_knowing_refcount_is_zero`. -/
def adds : Point N → Bool
  | .loadHead .. | .storeNext .. | .storeRefs .. | .push .. | .remark .. => true
  | _ => false

/-- What a thread knows of its node. -/
def Knows (list : FreeList N) : Point N → Prop
  | .storeRefs node head _ | .push node head _ => list.next node = head
  | .takeRef _ refs => refs % (refsMask + 1) ≠ 0
  | .pop node next => list.next node = next
  | _ => True

/-- A thread has up to two references. -/
theorem references_bounds (point : Point N) : 0 ≤ point.references ∧ point.references ≤ 2 := by
  cases point <;> simp [references]

/-- A node is in the hands of a thread, or not. -/
theorem carries_bounds (point : Point N) : 0 ≤ point.carries ∧ point.carries ≤ 1 := by
  cases point <;> simp [carries]

/-- A thread prepares its node, or not. -/
theorem prepares_bounds (point : Point N) : 0 ≤ point.prepares ∧ point.prepares ≤ 1 := by
  cases point <;> simp [prepares]

/-- What a thread has taken is in its hands. -/
theorem taken_carries {point : Point N} {node : N} (taken : point.taken = some node) :
    point.node = some node ∧ point.carries = 1 := by
  cases point with
  | dropBoth own => exact ⟨taken, rfl⟩
  | done result => exact ⟨taken, rfl⟩
  | _ => cases taken

/-- A node that is added is prepared, or in the hands of the thread. -/
theorem adds_weighs {point : Point N} (adds : point.adds = true) :
    point.carries + point.prepares = 1 ∧ ∃ node, point.node = some node := by
  cases point with
  | loadHead node | storeNext node | storeRefs node | push node | remark node =>
      exact ⟨rfl, node, rfl⟩
  | _ => cases adds

variable [DecidableEq N]

/-- What a thread weighs for one node. -/
def about (weight : Point N → Int) (node : N) (point : Point N) : Int :=
  if point.node = some node then weight point else 0

/-- What a thread has of a node. -/
structure Has (point : Point N) (node : N) (references carries prepares : Int) : Prop where
  references : about Point.references node point = references
  carries : about Point.carries node point = carries
  prepares : about Point.prepares node point = prepares

/-- A thread has the weights of its place for the node it is about. -/
theorem has_of_node {point : Point N} {node : N} (here : point.node = some node) :
    point.Has node point.references point.carries point.prepares :=
  ⟨if_pos here, if_pos here, if_pos here⟩

/-- It has nothing of the others. -/
theorem leaves_of_ne {point : Point N} {node : N} (different : point.node ≠ some node) :
    point.Has node 0 0 0 :=
  ⟨if_neg different, if_neg different, if_neg different⟩

/-- The loop of `try_get` begins with nothing. -/
theorem again_leaves (head : Option N) (node : N) : (again head).Has node 0 0 0 := by
  cases head with
  | none => exact leaves_of_ne nofun
  | some first => constructor <;> exact ite_self 0

/-- Behind `add_knowing_refcount_is_zero` a thread has nothing. -/
theorem resumed_leaves (resume : Option (Option N)) (node : N) :
    (resumed resume).Has node 0 0 0 := by
  cases resume with
  | none => exact leaves_of_ne nofun
  | some head => exact again_leaves head node

/-- Between what bounds a thread weighs for a node. -/
theorem about_bounds {weight : Point N → Int} {most : Int}
    (bounds : ∀ point, 0 ≤ weight point ∧ weight point ≤ most) (node : N) (point : Point N) :
    0 ≤ about weight node point ∧ about weight node point ≤ most := by
  have own := bounds point
  unfold about
  split
  · exact own
  · exact ⟨Int.le_refl 0, own.1.trans own.2⟩

end Point

variable {N : Type} [DecidableEq N]

/-- One for a node on the list. -/
def listed (nodes : List N) (node : N) : Int :=
  if node ∈ nodes then 1 else 0

/-- The account of a node. It is on the list, with the client, in the hands of a
thread, or marked, and its count is that of the references to it. If it is marked
and there are none, a thread prepares it. -/
structure Balanced (refs listed owned references carries prepares : Int) : Prop where
  count : refs = 2147483648 * (1 - listed - owned - carries) + (listed + references)
  place : listed + owned + carries ≤ 1
  prepared : refs = 2147483648 ∧ prepares = 1 ∨ refs ≠ 2147483648 ∧ prepares = 0

/-- What the client, and the threads but one, have of a node. -/
structure Shares where
  owned : Int
  references : Int
  carries : Int
  prepares : Int

/-- Nobody has less than nothing, and there are fewer references than a count can
tell. -/
structure Shares.Sound (shares : Shares) : Prop where
  owned : 0 ≤ shares.owned
  references : 0 ≤ shares.references
  few : shares.references < 2147483640
  carries : 0 ≤ shares.carries
  prepares : 0 ≤ shares.prepares

/-- The account of a node of which the last thread has the rest. -/
def Settled (refs : Int) (nodes : List N) (node : N) (shares : Shares)
    (references carries prepares : Int) : Prop :=
  Balanced refs (listed nodes node) shares.owned (shares.references + references)
    (shares.carries + carries) (shares.prepares + prepares)

/-- The accounts of all nodes, where one thread is at `point`. -/
def Accounts (list : FreeList N) (nodes : List N) (shares : N → Shares) (point : Point N) : Prop :=
  ∀ node, Settled (list.refs node) nodes node (shares node) (point.about Point.references node)
    (point.about Point.carries node) (point.about Point.prepares node)

/-- A node is on the list, or not. -/
theorem listed_cases (nodes : List N) (node : N) :
    node ∈ nodes ∧ listed nodes node = 1 ∨ node ∉ nodes ∧ listed nodes node = 0 := by
  unfold listed
  split
  · rename_i present
    exact .inl ⟨present, rfl⟩
  · rename_i absent
    exact .inr ⟨absent, rfl⟩

/-- A node that a thread carries or prepares is not on the list. -/
theorem Settled.absent {refs : Int} {nodes : List N} {node : N} {shares : Shares}
    {references carries prepares : Int}
    (account : Settled refs nodes node shares references carries prepares) (sound : shares.Sound)
    (apart : carries = 1 ∨ prepares = 1 ∧ references = 0 ∧ carries = 0) : node ∉ nodes := by
  obtain ⟨count, place, prepared⟩ := account
  obtain ⟨owned, refers, few, holds, works⟩ := sound
  rcases listed_cases nodes node with ⟨_, there⟩ | ⟨absent, _⟩
  · omega
  · exact absent

/-- A count is set to what is one. -/
theorem setRefs_refs (list : FreeList N) (node : N) {refs : Int} (low : 0 ≤ refs)
    (high : refs < 4294967296) : ((list.setRefs node refs).refs node : Int) = refs := by
  simp only [setRefs, Function.update_self]
  omega

section Advance

variable {list later : FreeList N} {point after : Point N} {nodes : List N}
  {shares : N → Shares}

/-- An operation changes nothing of the nodes it is not about. -/
theorem advance_elsewhere (moves : list.advance point = some (later, after)) {node : N}
    (different : point.node ≠ some node) :
    later.refs node = list.refs node ∧ after.Has node 0 0 0 := by
  have other {own : N} (here : point.node = some own) : node ≠ own := by
    rintro rfl
    exact different here
  have set {own : N} (here : point.node = some own) (refs : Int) :
      (list.setRefs own refs).refs node = list.refs node :=
    Function.update_of_ne (other here) _ _
  have leaves {place : Point N} (same : place.node = point.node) : place.Has node 0 0 0 :=
    Point.leaves_of_ne (same ▸ different)
  cases point with
  | mark own =>
      obtain ⟨⟩ := moves
      refine ⟨set rfl _, ?_⟩
      split
      · exact leaves rfl
      · exact Point.leaves_of_ne nofun
  | loadHead own resume => obtain ⟨⟩ := moves; exact ⟨rfl, leaves rfl⟩
  | storeNext own head resume => obtain ⟨⟩ := moves; exact ⟨rfl, leaves rfl⟩
  | storeRefs own head resume => obtain ⟨⟩ := moves; exact ⟨set rfl _, leaves rfl⟩
  | push own head resume =>
      simp only [advance] at moves
      split at moves
      · obtain ⟨⟩ := moves; exact ⟨rfl, Point.resumed_leaves resume node⟩
      · obtain ⟨⟩ := moves; exact ⟨rfl, leaves rfl⟩
  | remark own head resume =>
      obtain ⟨⟩ := moves
      refine ⟨set rfl _, ?_⟩
      split
      · exact leaves rfl
      · exact Point.resumed_leaves resume node
  | getHead => obtain ⟨⟩ := moves; exact ⟨rfl, Point.again_leaves _ node⟩
  | loadRefs own =>
      obtain ⟨⟩ := moves
      refine ⟨rfl, ?_⟩
      split
      · exact Point.leaves_of_ne nofun
      · exact leaves rfl
  | takeRef own refs =>
      simp only [advance] at moves
      split at moves
      · obtain ⟨⟩ := moves; exact ⟨set rfl _, leaves rfl⟩
      · obtain ⟨⟩ := moves; exact ⟨rfl, Point.leaves_of_ne nofun⟩
  | loadNext own => obtain ⟨⟩ := moves; exact ⟨rfl, leaves rfl⟩
  | pop own next =>
      simp only [advance] at moves
      split at moves
      · obtain ⟨⟩ := moves; exact ⟨rfl, leaves rfl⟩
      · obtain ⟨⟩ := moves; exact ⟨rfl, leaves rfl⟩
  | dropBoth own => obtain ⟨⟩ := moves; exact ⟨set rfl _, leaves rfl⟩
  | dropRef own head =>
      obtain ⟨⟩ := moves
      refine ⟨set rfl _, ?_⟩
      split
      · exact leaves rfl
      · exact Point.again_leaves _ node
  | done => cases moves

/-- The account of the node a thread is about. -/
theorem Accounts.own (accounts : list.Accounts nodes shares point) {node : N}
    (here : point.node = some node) :
    Settled (list.refs node) nodes node (shares node) point.references point.carries
      point.prepares := by
  have account := accounts node
  have has := Point.has_of_node here
  rwa [has.references, has.carries, has.prepares] at account

/-- So it keeps the accounts if it keeps that of its own node. -/
theorem Accounts.settle (accounts : list.Accounts nodes shares point)
    (moves : list.advance point = some (later, after)) (others : List N)
    (same : ∀ other, point.node ≠ some other → (other ∈ others ↔ other ∈ nodes))
    (own : ∀ node, point.node = some node →
      Settled (list.refs node) nodes node (shares node) point.references point.carries
        point.prepares →
      ∃ references carries prepares, after.Has node references carries prepares ∧
        Settled (later.refs node) others node (shares node) references carries prepares) :
    later.Accounts others shares after := by
  intro node
  by_cases here : point.node = some node
  · obtain ⟨_, _, _, ⟨rfl, rfl, rfl⟩, settled⟩ := own node here (accounts.own here)
    exact settled
  · obtain ⟨refs, leaves⟩ := advance_elsewhere moves here
    have before := Point.leaves_of_ne here
    have there : listed others node = listed nodes node := by
      simp only [listed, same node here]
    have account := accounts node
    rw [before.references, before.carries, before.prepares] at account
    rw [refs, leaves.references, leaves.carries, leaves.prepares, Settled, there]
    exact account

/-- Every operation keeps the chain from the head and the accounts of the nodes. -/
theorem Accounts.advance (accounts : list.Accounts nodes shares point)
    (linked : Linked list.next list.head nodes) (distinct : nodes.Nodup)
    (sound : ∀ node, (shares node).Sound)
    (knows : point.Knows list) (moves : list.advance point = some (later, after)) :
    ∃ others, Linked later.next later.head others ∧ others.Nodup ∧
      later.Accounts others shares after := by
  have settle := accounts.settle moves nodes (fun _ _ => Iff.rfl)
  have flag : shouldBeOnFreelist = 2147483648 := rfl
  cases point with
  | mark node =>
      obtain ⟨⟩ := moves
      refine ⟨nodes, linked, distinct, settle ?_⟩
      rintro _ ⟨⟩ ⟨count, place, prepared⟩
      obtain ⟨owned, references, few, carries, prepares⟩ := sound node
      have there := listed_cases nodes node
      simp only [Point.references, Point.carries, Point.prepares] at count place prepared
      rw [setRefs_refs list node (by omega) (by omega)]
      split
      · exact ⟨0, 0, 1, Point.has_of_node rfl, by omega, by omega, by omega⟩
      · exact ⟨0, 0, 0, Point.leaves_of_ne nofun, by omega, by omega, by omega⟩
  | loadHead node resume =>
      obtain ⟨⟩ := moves
      refine ⟨nodes, linked, distinct, settle ?_⟩
      rintro _ ⟨⟩ account
      exact ⟨0, 0, 1, Point.has_of_node rfl, account⟩
  | storeNext node head resume =>
      obtain ⟨⟩ := moves
      have absent := (accounts.own rfl).absent (sound node) (.inr ⟨rfl, rfl, rfl⟩)
      refine ⟨nodes, linked.update absent head, distinct, settle ?_⟩
      rintro _ ⟨⟩ account
      exact ⟨0, 0, 1, Point.has_of_node rfl, account⟩
  | storeRefs node head resume =>
      obtain ⟨⟩ := moves
      refine ⟨nodes, linked, distinct, settle ?_⟩
      rintro _ ⟨⟩ ⟨count, place, prepared⟩
      obtain ⟨owned, references, few, carries, prepares⟩ := sound node
      have there := listed_cases nodes node
      simp only [Point.references, Point.carries, Point.prepares] at count place prepared
      rw [setRefs_refs list node (by omega) (by omega)]
      exact ⟨1, 1, 0, Point.has_of_node rfl, by omega, by omega, by omega⟩
  | push node head resume =>
      have absent := (accounts.own rfl).absent (sound node) (.inl rfl)
      have settlePushed := accounts.settle moves (node :: nodes)
      simp only [FreeList.advance] at moves
      split at moves
      · rename_i same
        obtain ⟨⟩ := moves
        refine ⟨node :: nodes, ⟨rfl, ?_⟩, distinct.cons absent, settlePushed ?_ ?_⟩
        · rw [show list.next node = head from knows, ← same]
          exact linked
        · intro other different
          rw [List.mem_cons, or_iff_right fun same => different (congrArg some same.symm)]
        · rintro _ ⟨⟩ ⟨count, place, prepared⟩
          obtain ⟨owned, references, few, carries, prepares⟩ := sound node
          have there := listed_cases nodes node
          have first : listed (node :: nodes) node = 1 := if_pos List.mem_cons_self
          simp only [Point.references, Point.carries, Point.prepares] at count place prepared
          have pushed : Settled (list.refs node) (node :: nodes) node (shares node) 0 0 0 :=
            ⟨by omega, by omega, by omega⟩
          exact ⟨0, 0, 0, Point.resumed_leaves resume node, pushed⟩
      · obtain ⟨⟩ := moves
        refine ⟨nodes, linked, distinct, settle ?_⟩
        rintro _ ⟨⟩ account
        exact ⟨1, 1, 0, Point.has_of_node rfl, account⟩
  | remark node head resume =>
      obtain ⟨⟩ := moves
      refine ⟨nodes, linked, distinct, settle ?_⟩
      rintro _ ⟨⟩ ⟨count, place, prepared⟩
      obtain ⟨owned, references, few, carries, prepares⟩ := sound node
      have there := listed_cases nodes node
      simp only [Point.references, Point.carries, Point.prepares] at count place prepared
      rw [setRefs_refs list node (by omega) (by omega)]
      split
      · exact ⟨0, 0, 1, Point.has_of_node rfl, by omega, by omega, by omega⟩
      · exact ⟨0, 0, 0, Point.resumed_leaves resume node, by omega, by omega, by omega⟩
  | getHead =>
      obtain ⟨⟩ := moves
      exact ⟨nodes, linked, distinct, settle nofun⟩
  | loadRefs node =>
      obtain ⟨⟩ := moves
      refine ⟨nodes, linked, distinct, settle ?_⟩
      rintro _ ⟨⟩ account
      split
      · exact ⟨0, 0, 0, Point.leaves_of_ne nofun, account⟩
      · exact ⟨0, 0, 0, Point.has_of_node rfl, account⟩
  | takeRef node refs =>
      simp only [FreeList.advance] at moves
      split at moves
      · rename_i same
        obtain ⟨⟩ := moves
        refine ⟨nodes, linked, distinct, settle ?_⟩
        rintro _ ⟨⟩ ⟨count, place, prepared⟩
        obtain ⟨owned, references, few, carries, prepares⟩ := sound node
        have there := listed_cases nodes node
        have some : refs % 2147483648 ≠ 0 := knows
        simp only [Point.references, Point.carries, Point.prepares] at count place prepared
        rw [setRefs_refs list node (by omega) (by omega)]
        exact ⟨1, 0, 0, Point.has_of_node rfl, by omega, by omega, by omega⟩
      · obtain ⟨⟩ := moves
        refine ⟨nodes, linked, distinct, settle ?_⟩
        rintro _ ⟨⟩ account
        exact ⟨0, 0, 0, Point.leaves_of_ne nofun, account⟩
  | loadNext node =>
      obtain ⟨⟩ := moves
      refine ⟨nodes, linked, distinct, settle ?_⟩
      rintro _ ⟨⟩ account
      exact ⟨1, 0, 0, Point.has_of_node rfl, account⟩
  | pop node next =>
      have settlePopped := accounts.settle moves nodes.tail
      simp only [FreeList.advance] at moves
      split at moves
      · rename_i same
        obtain ⟨behind, rfl, chain⟩ := (same ▸ linked).tail
        obtain ⟨⟩ := moves
        obtain ⟨absent, rest⟩ := List.nodup_cons.mp distinct
        rw [show list.next node = next from knows] at chain
        refine ⟨behind, chain, rest, settlePopped ?_ ?_⟩
        · intro other different
          rw [List.mem_cons, or_iff_right fun same => different (congrArg some same.symm)]
          rfl
        · rintro _ ⟨⟩ ⟨count, place, prepared⟩
          obtain ⟨owned, references, few, carries, prepares⟩ := sound node
          have first : listed (node :: behind) node = 1 := if_pos List.mem_cons_self
          have gone : listed behind node = 0 := if_neg absent
          simp only [Point.references, Point.carries, Point.prepares] at count place prepared
          have popped : Settled (list.refs node) behind node (shares node) 2 1 0 :=
            ⟨by omega, by omega, by omega⟩
          exact ⟨2, 1, 0, Point.has_of_node rfl, popped⟩
      · obtain ⟨⟩ := moves
        refine ⟨nodes, linked, distinct, settle ?_⟩
        rintro _ ⟨⟩ account
        exact ⟨1, 0, 0, Point.has_of_node rfl, account⟩
  | dropBoth node =>
      obtain ⟨⟩ := moves
      refine ⟨nodes, linked, distinct, settle ?_⟩
      rintro _ ⟨⟩ ⟨count, place, prepared⟩
      obtain ⟨owned, references, few, carries, prepares⟩ := sound node
      have there := listed_cases nodes node
      simp only [Point.references, Point.carries, Point.prepares] at count place prepared
      rw [setRefs_refs list node (by omega) (by omega)]
      exact ⟨0, 1, 0, Point.has_of_node rfl, by omega, by omega, by omega⟩
  | dropRef node head =>
      obtain ⟨⟩ := moves
      refine ⟨nodes, linked, distinct, settle ?_⟩
      rintro _ ⟨⟩ ⟨count, place, prepared⟩
      obtain ⟨owned, references, few, carries, prepares⟩ := sound node
      have there := listed_cases nodes node
      simp only [Point.references, Point.carries, Point.prepares] at count place prepared
      rw [setRefs_refs list node (by omega) (by omega)]
      split
      · exact ⟨0, 0, 1, Point.has_of_node rfl, by omega, by omega, by omega⟩
      · exact ⟨0, 0, 0, Point.again_leaves head node, by omega, by omega, by omega⟩
  | done => cases moves

/-- Only a thread that prepares a node writes its next pointer. -/
theorem advance_next (moves : list.advance point = some (later, after)) {node : N}
    (quiet : point.about Point.prepares node = 0) : later.next node = list.next node := by
  cases point with
  | storeNext own head resume =>
      obtain ⟨⟩ := moves
      apply Function.update_of_ne
      rintro rfl
      have writes : (Point.storeNext node head resume).Has node 0 0 1 := Point.has_of_node rfl
      cases writes.prepares.symm.trans quiet
  | push own head resume =>
      simp only [FreeList.advance] at moves
      split at moves <;> (obtain ⟨⟩ := moves; rfl)
  | takeRef own refs =>
      simp only [FreeList.advance] at moves
      split at moves <;> (obtain ⟨⟩ := moves; rfl)
  | pop own next =>
      simp only [FreeList.advance] at moves
      split at moves <;> (obtain ⟨⟩ := moves; rfl)
  | done => cases moves
  | _ => obtain ⟨⟩ := moves; rfl

/-- A thread knows what it has read. -/
theorem advance_knows (moves : list.advance point = some (later, after))
    (knows : point.Knows list) : after.Knows later := by
  have again (head : Option N) : (again head).Knows later := by
    cases head <;> trivial
  have resumed (resume : Option (Option N)) : (resumed resume).Knows later := by
    cases resume with
    | none => trivial
    | some head => exact again head
  cases point with
  | storeNext own head resume => obtain ⟨⟩ := moves; exact Function.update_self ..
  | storeRefs own head resume => obtain ⟨⟩ := moves; exact knows
  | push own head resume =>
      simp only [FreeList.advance] at moves
      split at moves
      · obtain ⟨⟩ := moves; exact resumed resume
      · obtain ⟨⟩ := moves; trivial
  | remark own head resume =>
      obtain ⟨⟩ := moves
      split
      · trivial
      · exact resumed resume
  | getHead => obtain ⟨⟩ := moves; exact again _
  | loadRefs own =>
      obtain ⟨⟩ := moves
      split
      · trivial
      · assumption
  | takeRef own refs =>
      simp only [FreeList.advance] at moves
      split at moves <;> (obtain ⟨⟩ := moves; trivial)
  | loadNext own => obtain ⟨⟩ := moves; rfl
  | pop own next =>
      simp only [FreeList.advance] at moves
      split at moves <;> (obtain ⟨⟩ := moves; trivial)
  | mark own =>
      obtain ⟨⟩ := moves
      split <;> trivial
  | dropRef own head =>
      obtain ⟨⟩ := moves
      split
      · trivial
      · exact again head
  | done => cases moves
  | _ => obtain ⟨⟩ := moves; trivial

end Advance

/-- A thread still knows what it has read while nobody writes the next pointer of a
node it refers to. -/
theorem Point.Knows.mono {list later : FreeList N} {point : Point N} (knows : point.Knows list)
    (same : ∀ node, 0 < point.about Point.references node + point.about Point.prepares node →
      later.next node = list.next node) : point.Knows later := by
  have kept {node : N} (here : point.node = some node)
      (some : 0 < point.references + point.prepares) : later.next node = list.next node := by
    have has := has_of_node here
    apply same
    rwa [has.references, has.prepares]
  cases point with
  | storeRefs node head resume => exact (kept rfl Int.one_pos).trans knows
  | push node head resume => exact (kept rfl Int.one_pos).trans knows
  | pop node next => exact (kept rfl Int.one_pos).trans knows
  | takeRef node refs => exact knows
  | _ => trivial

end Traft.Moodycamel.FreeList
