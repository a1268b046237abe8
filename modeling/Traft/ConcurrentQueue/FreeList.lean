import Mathlib.Algebra.Order.Ring.Int
import Mathlib.Logic.Function.Basic

/-!
# The free list

`FreeList`, cut where one of its atomic operations is made. It is a stack of
nodes, each with a count of the references to it: one for the list it is on, and
one for each thread that is about to read its next pointer. A node that is put
back while threads still refer to it is only marked; the last of them to drop its
reference adds it to the list. Memory is sequentially consistent.
-/

namespace Traft.Moodycamel

/-- `FreeList` and the fields of its nodes: `freeListHead`, `freeListNext` and
`freeListRefs`. -/
structure FreeList (N : Type) where
  head : Option N
  next : N → Option N
  refs : N → Nat

namespace FreeList

/-- An empty list, and nodes which were on none yet. -/
def new {N : Type} : FreeList N where
  head := none
  next _ := none
  refs _ := 0

/-- `REFS_MASK` -/
def refsMask : Nat := 2147483647

/-- `SHOULD_BE_ON_FREELIST` -/
def shouldBeOnFreelist : Nat := 2147483648

/-- The methods: `add` and `try_get`. -/
inductive Method (N : Type) where
  | add (node : N)
  | tryGet

/-- Where a thread is inside a method, before its next operation. Inside
`add_knowing_refcount_is_zero` it knows what to go on with in `try_get`, if it was
called from there: `resume` is the head it loaded last. -/
inductive Point (N : Type) where
  /-- `freeListRefs.fetch_add(SHOULD_BE_ON_FREELIST)` -/
  | mark (node : N)
  /-- the head is loaded in `add_knowing_refcount_is_zero` -/
  | loadHead (node : N) (resume : Option (Option N))
  /-- `freeListNext.store(head)` -/
  | storeNext (node : N) (head : Option N) (resume : Option (Option N))
  /-- `freeListRefs.store(1)` -/
  | storeRefs (node : N) (head : Option N) (resume : Option (Option N))
  /-- the exchange of the head for the node -/
  | push (node : N) (head : Option N) (resume : Option (Option N))
  /-- `freeListRefs.fetch_add(SHOULD_BE_ON_FREELIST - 1)` -/
  | remark (node : N) (head : Option N) (resume : Option (Option N))
  /-- the head is loaded in `try_get` -/
  | getHead
  | loadRefs (node : N)
  /-- the exchange of the count for one more -/
  | takeRef (node : N) (refs : Nat)
  | loadNext (node : N)
  /-- the exchange of the head for the next node -/
  | pop (node : N) (next : Option N)
  /-- `freeListRefs.fetch_sub(2)` -/
  | dropBoth (node : N)
  /-- `freeListRefs.fetch_sub(1)`, where the head has changed to `head` -/
  | dropRef (node : N) (head : Option N)
  | done (result : Option N)

variable {N : Type}

/-- The loop of `try_get`, with a head it has loaded. -/
def again : Option N → Point N
  | none => .done none
  | some node => .loadRefs node

/-- Behind `add_knowing_refcount_is_zero`. -/
def resumed : Option (Option N) → Point N
  | none => .done none
  | some head => again head

/-- The methods begin. -/
def Method.start : Method N → Point N
  | .add node => .mark node
  | .tryGet => .getHead

variable [DecidableEq N]

/-- A node's count is set to a 32-bit word. -/
def setRefs (list : FreeList N) (node : N) (refs : Int) : FreeList N :=
  { list with refs := Function.update list.refs node (refs % 4294967296).toNat }

/-- The next operation of a method. -/
def advance (list : FreeList N) : Point N → Option (FreeList N × Point N)
  | .mark node =>
      some (list.setRefs node (list.refs node + shouldBeOnFreelist),
        if list.refs node = 0 then .loadHead node none else .done none)
  | .loadHead node resume => some (list, .storeNext node list.head resume)
  | .storeNext node head resume =>
      some ({ list with next := Function.update list.next node head },
        .storeRefs node head resume)
  | .storeRefs node head resume => some (list.setRefs node 1, .push node head resume)
  | .push node head resume =>
      if list.head = head then some ({ list with head := some node }, resumed resume)
      else some (list, .remark node list.head resume)
  | .remark node head resume =>
      some (list.setRefs node (list.refs node + (shouldBeOnFreelist - 1)),
        if list.refs node = 1 then .storeNext node head resume else resumed resume)
  | .getHead => some (list, again list.head)
  | .loadRefs node =>
      some (list, if list.refs node % (refsMask + 1) = 0 then .getHead
        else .takeRef node (list.refs node))
  | .takeRef node refs =>
      if list.refs node = refs then some (list.setRefs node (refs + 1), .loadNext node)
      else some (list, .getHead)
  | .loadNext node => some (list, .pop node (list.next node))
  | .pop node next =>
      if list.head = some node then some ({ list with head := next }, .dropBoth node)
      else some (list, .dropRef node list.head)
  | .dropBoth node => some (list.setRefs node (list.refs node - 2), .done (some node))
  | .dropRef node head =>
      some (list.setRefs node (list.refs node - 1),
        if list.refs node = shouldBeOnFreelist + 1 then .loadHead node (some head)
        else again head)
  | .done _ => none

end FreeList

end Traft.Moodycamel
