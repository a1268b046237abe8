import Traft.ConcurrentQueue.SubQueueBlocks
import Traft.ConcurrentQueue.BlockIndexFound
import Traft.Semantics.Simulation

/-!
# The queue of one producer in its blocks

`ImplicitProducer` as a whole: the counters of the sub-queue, the block index, of whose
users nothing is assumed any more, and the elements where they are, in the places of
the blocks. A thread looks up the blocks of what it has claimed and takes elements out
of a block once it has found it; the thread that takes out the last of them clears the
entry and puts the block back. The producer inserts the blocks it needs before it
constructs elements in them, and takes them back where it fails. Lists of elements are
only what the places are compared with.
-/

namespace Traft.Moodycamel

open Traft.Semantics

/-- `ImplicitProducer`. `newTailIndex` is where the producer's method is going to put
the tail; between methods it is the tail. The `cells` of a block are its places for
elements, of which those without an object are empty. -/
structure ImplicitProducer (ι α B : Type) where
  queue : SubQueue.Sharing ι α
  index : BlockIndex.Sharing ι B
  newTailIndex : Nat
  cells : B × Nat → Option α

namespace ImplicitProducer

/-- What happens to the counters and elements, to the index, or to both at once. -/
structure Event (ι α B : Type) where
  queue : Option (SubQueue.Sharing.Event ι α)
  index : Option (BlockIndex.Event ι B)

variable {ι α B : Type}

/-- The index of the next element the producer constructs. -/
def nextIndex (state : ImplicitProducer ι α B) : Nat :=
  state.queue.queue.tailIndex + state.queue.queue.constructed.length

/-- The blocks for all elements are inserted; or the last one is going to be, where
`enqueue` constructs its element before, since that may throw. -/
def Provided (traits : IndexTraits) (state : ImplicitProducer ι α B) : Prop :=
  state.newTailIndex ≤ state.index.inserted * traits.blockSize ∧
    (state.index.producer = .ready ∨ ∃ entry block, state.index.producer = .storeValue entry block ∧
      state.newTailIndex = state.queue.queue.tailIndex + 1)

/-- The block the producer constructs the next element in: the one at hand, or the one
it has put in, in turn. -/
def tailBlock (traits : IndexTraits) (state : ImplicitProducer ι α B) : Option B :=
  match state.index.producer with
  | .storeValue _ block => some block
  | _ => state.index.put (state.nextIndex / traits.blockSize)

/-- What the producer does with the index where its method goes on. It inserts blocks
until there is room for all elements, and is given blocks which are not in use. -/
def Produces (traits : IndexTraits) (state : ImplicitProducer ι α B) :
    BlockIndex.Event ι B → Prop
  | .insert => state.index.inserted * traits.blockSize < state.newTailIndex
  | .requisition (some block) => ∀ number, state.index.InUse number →
      state.index.put number ≠ some block
  | .allocate true | .operate => True
  | _ => False

/-- Where its method fails: there is no memory for an index, there is no block, an
element cannot be constructed, or the sub-queue is full. -/
def Fails (state : ImplicitProducer ι α B) : BlockIndex.Event ι B → Prop
  | .throw => state.queue.queue.constructed = []
  | .allocate false | .requisition none | .revert => True
  | _ => False

/-- The blocks of a run, up to the end of the claim. -/
def blocks (traits : Traits) (run : SubQueue.Run) : Nat :=
  (run.last - 1) / traits.blockSize + 1 - run.block traits

/-- A thread is inside a block it has looked up. -/
def Inside (state : ImplicitProducer ι α B) (thread : ι) (lookup : Lookup B)
    (header position : Nat) (block : Option B) : Prop :=
  state.index.places thread = some lookup ∧ lookup.point = .inside header position block

variable [DecidableEq B]

/-- The cells where the elements that were constructed are destroyed. -/
def destroyed (traits : IndexTraits) (state : ImplicitProducer ι α B) : B × Nat → Option α :=
  fun cell =>
    if ∃ count < state.queue.queue.constructed.length,
      state.index.put ((state.queue.queue.tailIndex + count) / traits.blockSize) = some cell.1 ∧
        (state.queue.queue.tailIndex + count) % traits.blockSize = cell.2
    then none else state.cells cell

variable [DecidableEq ι]

/-- A thread goes on with its method. -/
def dequeuing (state : ImplicitProducer ι α B) (queue : SubQueue α) (thread : ι)
    (place : Option (SubQueue.Method × SubQueue.Point α)) : ImplicitProducer ι α B :=
  { state with queue := { queue, places := state.queue.move thread place } }

/-- A thread goes on looking up blocks. -/
def looking (state : ImplicitProducer ι α B) (thread : ι) (place : Option (Lookup B)) :
    ImplicitProducer ι α B :=
  { state with index := { state.index with places := state.index.move thread place } }

/-- The producer or one thread goes on. What a thread takes out is what is in the cell. -/
inductive Step (traits : IndexTraits) :
    ImplicitProducer ι α B → Event ι α B → ImplicitProducer ι α B → Prop where
  | enqueue {state} (count : Nat) (idle : state.newTailIndex = state.queue.queue.tailIndex)
      (ready : state.index.producer = .ready) :
      Step traits state ⟨none, none⟩
        { state with newTailIndex := state.queue.queue.tailIndex + count }
  | produce {state event index} (allowed : state.Produces traits event)
      (moves : BlockIndex.Sharing.Step traits state.index event index) :
      Step traits state ⟨none, some event⟩ { state with index }
  | fail {state event index} (fails : state.Fails event)
      (moves : BlockIndex.Sharing.Step traits state.index event index) :
      Step traits state ⟨some .discard, some event⟩
        { queue := { state.queue with queue := state.queue.queue.discard }
          index
          newTailIndex := state.queue.queue.tailIndex
          cells := state.destroyed traits }
  | construct {state block} (element : α) (provided : state.Provided traits)
      (more : state.nextIndex < state.newTailIndex) (there : state.tailBlock traits = some block) :
      Step traits state ⟨some (.construct element), none⟩
        { state with
          queue := { state.queue with queue := state.queue.queue.construct element }
          cells := Function.update state.cells (block, state.nextIndex % traits.blockSize)
            (some element) }
  | publish {state} (provided : state.Provided traits) (ready : state.index.producer = .ready)
      (all : state.nextIndex = state.newTailIndex) :
      Step traits state ⟨some (.publish state.queue.queue.constructed), some .publish⟩
        { state with
          queue := { state.queue with queue := state.queue.queue.publish }
          index := { state.index with committed := state.index.inserted } }
  | call {state thread} (method : SubQueue.Method) (idle : state.queue.places thread = none) :
      Step traits state ⟨some (.call thread method), none⟩
        (state.dequeuing state.queue.queue thread (some (method, .loadTail)))
  | advance {state thread method point queue after}
      (here : state.queue.places thread = some (method, point)) (outside : point.run = none)
      (moves : state.queue.queue.advance traits.toTraits method point = some (queue, after)) :
      Step traits state ⟨some (.advance thread (point.takes state.queue.queue)), none⟩
        (state.dequeuing queue thread (some (method, after)))
  | lookup {state thread method run}
      (here : state.queue.places thread = some (method, .move run []))
      (idle : state.index.places thread = none) :
      Step traits state
        ⟨none, some (.lookup thread (run.block traits.toTraits) (blocks traits.toTraits run))⟩
        (state.looking thread
          (some ⟨run.block traits.toTraits, blocks traits.toTraits run, .loadHeader⟩))
  | look {state thread lookup after} (there : state.index.places thread = some lookup)
      (moves : lookup.advance traits state.index.index = some after) :
      Step traits state ⟨none, some (.advance thread)⟩ (state.looking thread (some after))
  | take {state thread method run removed lookup header position block element}
      (here : state.queue.places thread = some (method, .move run removed))
      (inside : state.Inside thread lookup header position (some block))
      (more : run.index ≠ run.endIndex)
      (content : state.cells (block, run.index % traits.blockSize) = some element) :
      Step traits state ⟨some (.advance thread []), none⟩
        { state.dequeuing state.queue.queue thread
            (some (method, .move { run with index := run.index + 1 } (removed ++ [element]))) with
          cells := Function.update state.cells (block, run.index % traits.blockSize) none }
  | ended {state thread method run removed lookup header position block}
      (here : state.queue.places thread = some (method, .move run removed))
      (inside : state.Inside thread lookup header position block)
      (all : run.index = run.endIndex) :
      Step traits state ⟨some (.advance thread []), none⟩
        (state.dequeuing state.queue.queue thread (some (method, .setEmpty run removed)))
  | last {state thread method run removed queue lookup header position block}
      (here : state.queue.places thread = some (method, .setEmpty run removed))
      (inside : state.Inside thread lookup header position block)
      (moves : state.queue.queue.advance traits.toTraits method (.setEmpty run removed) =
        some (queue, .free run removed)) :
      Step traits state ⟨some (.advance thread []), none⟩
        (state.dequeuing queue thread (some (method, .free run removed)))
  | leave {state thread method run removed queue lookup header position block}
      (here : state.queue.places thread = some (method, .setEmpty run removed))
      (inside : state.Inside thread lookup header position block)
      (moves : state.queue.queue.advance traits.toTraits method (.setEmpty run removed) =
        some (queue, run.next traits.toTraits removed)) :
      Step traits state ⟨some (.advance thread []), some (.leave thread false)⟩
        ((state.dequeuing queue thread (some (method, run.next traits.toTraits removed))).looking
          thread (lookup.behind state.index.index header position))
  | free {state thread method run removed queue after lookup header position block}
      (here : state.queue.places thread = some (method, .free run removed))
      (inside : state.Inside thread lookup header position block)
      (moves : state.queue.queue.advance traits.toTraits method (.free run removed) =
        some (queue, after)) :
      Step traits state ⟨some (.advance thread []), some (.leave thread true)⟩
        { state.dequeuing queue thread (some (method, after)) with
          index := state.index.free thread lookup header position }
  | finish {state thread method removed}
      (here : state.queue.places thread = some (method, .done removed)) :
      Step traits state ⟨some (.finish thread removed), none⟩
        (state.dequeuing state.queue.queue thread none)

/-- The runs of a producer that was just constructed. -/
def system (traits : IndexTraits) (ι α B : Type) [DecidableEq ι] [DecidableEq B] :
    StepSystem (Event ι α B) where
  State := ImplicitProducer ι α B
  Initial state := state =
    { queue := { queue := {}, places := fun _ => none }
      index :=
        { index := BlockIndex.construct traits
          producer := .ready
          inserted := 0
          committed := 0
          put := fun _ => none
          freed := fun _ => false
          places := fun _ => none }
      newTailIndex := 0
      cells := fun _ => none }
  Step := Step traits

end ImplicitProducer

end Traft.Moodycamel
