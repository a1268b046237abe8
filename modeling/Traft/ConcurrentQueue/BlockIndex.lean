import Traft.ConcurrentQueue.SubQueue
import Mathlib.Data.Int.DivMod
import Mathlib.Logic.Function.Basic

/-!
# The block index

The index of an `ImplicitProducer`, cut where one of its atomic operations is made.
It is a circular array of pointers to entries. The producer puts the base of each
new block and the block itself into the next entry, and takes them back if there is
no block to be had; where the next entry is still in use, it builds an index twice
as large around the same entries. Threads that dequeue look blocks up in the index
they have loaded, which need not be the latest one, and clear an entry when they
put its block back. Blocks are numbered from the first one on, and their bases are
the 64-bit words the source computes with. Memory is sequentially consistent.
-/

namespace Traft.Moodycamel

/-- `IMPLICIT_INITIAL_INDEX_SIZE`, with what the source asserts of it. -/
structure IndexTraits extends Traits where
  initialIndexSize : Nat
  initialPower : ∃ exponent, initialIndexSize = 2 ^ exponent
  initialLarge : 1 < initialIndexSize

/-- `INVALID_BLOCK_BASE` -/
def invalidBlockBase : Nat := 1

/-- The base index of a block, as a word. -/
def Traits.base (traits : Traits) (block : Nat) : Nat := block * traits.blockSize % 2 ^ 64

/-- `BlockIndexHeader`: `index` points to entries, which are known by when they were
allocated. -/
structure BlockIndexHeader where
  capacity : Nat
  tail : Nat
  index : Nat → Nat

/-- The entry behind the tail. -/
def BlockIndexHeader.newTail (header : BlockIndexHeader) : Nat :=
  (header.tail + 1) % header.capacity

/-- All headers and entries a producer has allocated. `key` and `value` are those of
the entries, `blockIndex` is the latest header. -/
structure BlockIndex (B : Type) where
  key : Nat → Nat
  value : Nat → Option B
  entryCount : Nat
  header : Nat → BlockIndexHeader
  blockIndex : Nat
  nextBlockIndexCapacity : Nat

namespace BlockIndex

variable {B : Type}

/-- The constructor, with the first `new_block_index`. -/
def construct (traits : IndexTraits) : BlockIndex B where
  key _ := invalidBlockBase
  value _ := none
  entryCount := traits.initialIndexSize
  header _ :=
    { capacity := traits.initialIndexSize, tail := traits.initialIndexSize - 1, index := id }
  blockIndex := 0
  nextBlockIndexCapacity := 2 * traits.initialIndexSize

/-- The latest header. -/
def current (index : BlockIndex B) : BlockIndexHeader := index.header index.blockIndex

/-- The header a successful `new_block_index` builds: the entries of the one before,
from behind its tail on, and as many new ones. -/
def newHeader (index : BlockIndex B) : BlockIndexHeader :=
  let prev := index.current
  { capacity := index.nextBlockIndexCapacity
    tail := (prev.capacity - 1) % index.nextBlockIndexCapacity
    index := fun i =>
      if i < prev.capacity then prev.index ((prev.tail + 1 + i) % prev.capacity)
      else index.entryCount + (i - prev.capacity) }

/-- `new_block_index` -/
def newBlockIndex (index : BlockIndex B) : BlockIndex B where
  key := fun entry =>
    if index.entryCount ≤ entry ∧ entry < index.entryCount + index.current.capacity
    then invalidBlockBase else index.key entry
  value := fun entry =>
    if index.entryCount ≤ entry ∧ entry < index.entryCount + index.current.capacity
    then none else index.value entry
  entryCount := index.entryCount + index.current.capacity
  header := Function.update index.header (index.blockIndex + 1) index.newHeader
  blockIndex := index.blockIndex + 1
  nextBlockIndexCapacity := 2 * index.nextBlockIndexCapacity

/-- The tail of the latest header is set. -/
def setTail (index : BlockIndex B) (tail : Nat) : BlockIndex B :=
  { index with
    header := Function.update index.header index.blockIndex { index.current with tail } }

/-- The key of an entry is set. -/
def setKey (index : BlockIndex B) (entry key : Nat) : BlockIndex B :=
  { index with key := Function.update index.key entry key }

/-- The value of an entry is set. -/
def setValue (index : BlockIndex B) (entry : Nat) (value : Option B) : BlockIndex B :=
  { index with value := Function.update index.value entry value }

/-- `rewind_block_index_tail` -/
def rewindTail (index : BlockIndex B) : BlockIndex B :=
  index.setTail ((index.current.tail + index.current.capacity - 1) % index.current.capacity)

/-- The position `get_block_index_index_for_index` computes for a base, behind the
loads of a tail and of the key there. The difference is a signed word, and what is
added to the tail is masked with a power of two. -/
def position (traits : Traits) (capacity tail tailBase base : Nat) : Nat :=
  ((tail + ((base - tailBase : Int).bmod (2 ^ 64)).tdiv traits.blockSize) % capacity).toNat

/-- `get_block_index_entry_for_index`, where nobody interferes. -/
def entryFor (index : BlockIndex B) (traits : Traits) (block : Nat) : Nat :=
  let header := index.current
  header.index (position traits header.capacity header.tail (index.key (header.index header.tail))
    (traits.base block))

end BlockIndex

/-- Where the producer is, before its next operation on the index. -/
inductive Inserting (B : Type) where
  | ready
  /-- the next entry is in use -/
  | full
  /-- behind `new_block_index` -/
  | grown
  | storeKey (entry newTail : Nat)
  | storeTail (entry newTail : Nat)
  /-- `requisition_block` -/
  | requisition (entry : Nat)
  | storeValue (entry : Nat) (block : B)
  /-- there is no block, or no element -/
  | rewind (entry : Nat)
  | clear (entry : Nat)
  /-- the loop which takes back blocks inserted for the same method, from `block` on -/
  | undo (block left : Nat)
  | undoRewind (block left : Nat)

/-- A thread that looks up blocks in turn: `count` of them, from `block` on. -/
inductive Looking (B : Type) where
  | loadHeader
  | loadTail (header : Nat)
  | loadKey (header tail : Nat)
  /-- the value of an entry is loaded -/
  | loadValue (header position : Nat)
  /-- with a block, until its elements are counted as dequeued -/
  | inside (header position : Nat) (block : Option B)

/-- A thread that looks up `count` blocks from `block` on. -/
structure Lookup (B : Type) where
  block : Nat
  count : Nat
  point : Looking B

namespace Lookup

variable {B : Type}

/-- The next operation of a thread that looks up a block. -/
def advance (traits : IndexTraits) (index : BlockIndex B) (lookup : Lookup B) :
    Option (Lookup B) :=
  match lookup.point with
  | .loadHeader => some { lookup with point := .loadTail index.blockIndex }
  | .loadTail header => some { lookup with point := .loadKey header (index.header header).tail }
  | .loadKey header tail =>
      let localBlockIndex := index.header header
      let tailBase := index.key (localBlockIndex.index tail)
      let found := BlockIndex.position traits.toTraits localBlockIndex.capacity tail tailBase
        (traits.base lookup.block)
      some { lookup with point := .loadValue header found }
  | .loadValue header position =>
      let entry := (index.header header).index position
      some { lookup with point := .inside header position (index.value entry) }
  | .inside .. => none

/-- Behind a block a thread goes on with the next one, at the next position. -/
def behind (index : BlockIndex B) (lookup : Lookup B) (header position : Nat) :
    Option (Lookup B) :=
  if lookup.count = 1 then none
  else some
    { block := lookup.block + 1
      count := lookup.count - 1
      point := .loadValue header ((position + 1) % (index.header header).capacity) }

/-- A thread looks up a block. -/
def Wants (lookup : Lookup B) (block : Nat) : Prop :=
  lookup.block ≤ block ∧ block < lookup.block + lookup.count

end Lookup

end Traft.Moodycamel
