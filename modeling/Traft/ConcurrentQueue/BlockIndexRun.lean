import Traft.ConcurrentQueue.BlockIndexSlots
import Traft.Semantics.Run

/-!
# Blocks are found

The producer inserts blocks and takes them back while any number of threads look up
blocks, each in the header it has loaded, and clear their entries. A client looks up
only blocks that were published and are not put back meanwhile. Then every entry a
thread comes to is that of the block it looks for.
-/

namespace Traft.Moodycamel

open Traft.Semantics

namespace BlockIndex

/-- A block index, where the producer and each thread is. `inserted` blocks are in the
index and `committed` of them are published; `put` is which block was put in for a
number, and `freed` whether it was put back. -/
structure Sharing (ι B : Type) where
  index : BlockIndex B
  producer : Inserting B
  inserted : Nat
  committed : Nat
  put : Nat → Option B
  freed : Nat → Bool
  places : ι → Option (Lookup B)

/-- What happens: the producer begins to insert a block, allocates an index or fails
to, gets a block or none, fails to construct an element in it, makes another operation,
publishes the blocks, or gives them up; a thread begins to look up blocks, makes an
operation, or leaves a block, which it may put back. -/
inductive Event (ι B : Type) where
  | insert
  | allocate (allocated : Bool)
  | requisition (block : Option B)
  | throw
  | operate
  | publish
  | revert
  | lookup (thread : ι) (block count : Nat)
  | advance (thread : ι)
  | leave (thread : ι) (free : Bool)

/-- What the producer does unless it publishes blocks. -/
def Event.Internal {ι B : Type} : Event ι B → Prop
  | .insert | .allocate _ | .requisition _ | .throw | .operate | .revert => True
  | _ => False

namespace Sharing

variable {ι B : Type}

/-- `insert_block_index_entry` begins: there is room where the next entry is for
nothing, or cleared. -/
def insert (state : Sharing ι B) : Sharing ι B :=
  let newTail := state.index.current.newTail
  let entry := state.index.current.index newTail
  { state with producer :=
      if state.index.key entry = invalidBlockBase ∨ (state.index.value entry).isNone
      then .storeKey entry newTail else .full }

/-- The blocks inserted and not published are taken back. -/
def revert (state : Sharing ι B) : Sharing ι B :=
  { state with producer := .undo state.committed (state.inserted - state.committed) }

/-- The next operation of the producer, where it does not depend on anything else. -/
def operate (traits : IndexTraits) (state : Sharing ι B) : Option (Sharing ι B) :=
  match state.producer with
  | .grown =>
      let newTail := state.index.current.newTail
      some { state with producer := .storeKey (state.index.current.index newTail) newTail }
  | .storeKey entry newTail =>
      some { state with
        index := state.index.setKey entry (traits.base state.inserted)
        producer := .storeTail entry newTail }
  | .storeTail entry newTail =>
      some { state with
        index := state.index.setTail newTail
        inserted := state.inserted + 1
        producer := .requisition entry }
  | .storeValue entry block =>
      some { state with
        index := state.index.setValue entry (some block)
        put := Function.update state.put (state.inserted - 1) (some block)
        producer := .ready }
  | .rewind entry =>
      some { state with
        index := state.index.rewindTail
        inserted := state.inserted - 1
        producer := .clear entry }
  | .clear entry =>
      some (revert { state with index := state.index.setValue entry none })
  | .undo _ 0 => some { state with producer := .ready }
  | .undo block (left + 1) =>
      some { state with
        index := state.index.setValue (state.index.entryFor traits.toTraits block) none
        producer := .undoRewind block left }
  | .undoRewind block left =>
      some { state with
        index := state.index.rewindTail
        inserted := state.inserted - 1
        producer := .undo (block + 1) left }
  | .ready | .full | .requisition _ => none

end Sharing

namespace Sharing

variable {ι B : Type} [DecidableEq ι]

/-- The places with one thread elsewhere. -/
def move (state : Sharing ι B) (thread : ι) (place : Option (Lookup B)) : ι → Option (Lookup B) :=
  Function.update state.places thread place

/-- A thread clears the entry of its block, puts the block back and goes on. -/
def free (state : Sharing ι B) (thread : ι) (lookup : Lookup B) (header position : Nat) :
    Sharing ι B :=
  { state with
    index := state.index.setValue ((state.index.header header).index position) none
    freed := Function.update state.freed lookup.block true
    places := state.move thread (lookup.behind state.index header position) }

/-- A block that was published and is not put back. -/
def Live (state : Sharing ι B) (block : Nat) : Prop :=
  block < state.committed ∧ state.freed block = false

/-- The producer or one thread goes on. -/
inductive Step (traits : IndexTraits) : Sharing ι B → Event ι B → Sharing ι B → Prop where
  | insert {state} (ready : state.producer = .ready) : Step traits state .insert state.insert
  | allocate {state} (full : state.producer = .full) :
      Step traits state (.allocate true)
        { state with index := state.index.newBlockIndex, producer := .grown }
  | refuse {state} (full : state.producer = .full) :
      Step traits state (.allocate false) state.revert
  | requisition {state entry} (block : B) (here : state.producer = .requisition entry) :
      Step traits state (.requisition (some block))
        { state with producer := .storeValue entry block }
  | exhausted {state entry} (here : state.producer = .requisition entry) :
      Step traits state (.requisition none) { state with producer := .rewind entry }
  | throw {state entry block} (here : state.producer = .storeValue entry block) :
      Step traits state .throw { state with producer := .rewind entry }
  | operate {state next} (moves : state.operate traits = some next) :
      Step traits state .operate next
  | publish {state} (ready : state.producer = .ready) :
      Step traits state .publish { state with committed := state.inserted }
  | revert {state} (ready : state.producer = .ready) : Step traits state .revert state.revert
  | lookup {state thread} (block count : Nat) (idle : state.places thread = none)
      (wanted : 0 < count)
      (live : ∀ other, block ≤ other → other < block + count → state.Live other) :
      Step traits state (.lookup thread block count)
        { state with places := state.move thread (some ⟨block, count, .loadHeader⟩) }
  | advance {state thread lookup after} (here : state.places thread = some lookup)
      (moves : lookup.advance traits state.index = some after) :
      Step traits state (.advance thread)
        { state with places := state.move thread (some after) }
  | leave {state thread lookup header position block} (here : state.places thread = some lookup)
      (inside : lookup.point = .inside header position block) :
      Step traits state (.leave thread false)
        { state with places := state.move thread (lookup.behind state.index header position) }
  | free {state thread lookup header position block} (here : state.places thread = some lookup)
      (inside : lookup.point = .inside header position block)
      (last : ∀ other another, other ≠ thread → state.places other = some another →
        ¬ another.Wants lookup.block) :
      Step traits state (.leave thread true) (state.free thread lookup header position)

/-- The runs of a producer that was just constructed. -/
def system (traits : IndexTraits) (ι B : Type) [DecidableEq ι] : StepSystem (Event ι B) where
  State := Sharing ι B
  Initial state := state =
    { index := construct traits
      producer := .ready
      inserted := 0
      committed := 0
      put := fun _ => none
      freed := fun _ => false
      places := fun _ => none }
  Step := Step traits

end Sharing

end BlockIndex

namespace Inserting

variable {B : Type}

/-- The blocks that are still to be taken back. -/
def Undoing : Inserting B → Nat → Prop
  | .undo first left, block => first ≤ block ∧ block < first + left
  | .undoRewind first left, block => first + 1 ≤ block ∧ block < first + 1 + left
  | _, _ => False

/-- The blocks that were put in and are not published yet. -/
def Pending (committed inserted : Nat) : Inserting B → Nat → Prop
  | .requisition _, block | .storeValue _ _, block | .rewind _, block =>
      committed ≤ block ∧ block + 1 < inserted
  | .undo first left, block => first ≤ block ∧ block < first + left
  | .undoRewind first left, block => first + 1 ≤ block ∧ block < first + 1 + left
  | _, block => committed ≤ block ∧ block < inserted

/-- What the producer relies on. The entry it is about is behind the tail or at it,
and has no value; where an index is built, no block is ahead; and blocks are taken
back from the first one on, while the tail goes back from the last. -/
def Fits (index : BlockIndex B) (number : Nat → Option Nat) (committed inserted : Nat) :
    Inserting B → Prop
  | .ready => committed ≤ inserted
  | .full => committed ≤ inserted ∧ number (index.current.index index.current.newTail) ≠ none ∧
      ∀ {entry block}, index.Has number entry block → block < inserted
  | .grown => committed ≤ inserted ∧ number (index.current.index index.current.newTail) = none
  | .storeKey entry newTail => committed ≤ inserted ∧ newTail = index.current.newTail ∧
      entry = index.current.index newTail ∧ index.value entry = none
  | .storeTail entry newTail => committed ≤ inserted ∧ newTail = index.current.newTail ∧
      entry = index.current.index newTail ∧ index.value entry = none ∧
      number entry = some inserted
  | .requisition entry | .storeValue entry _ | .rewind entry =>
      committed < inserted ∧ index.value entry = none ∧ index.Has number entry (inserted - 1)
  | .clear entry => committed ≤ inserted ∧ index.value entry = none
  | .undo first left => committed ≤ first ∧ inserted = committed + left ∧
      ∀ block, committed ≤ block → block < first + left →
        ∃ entry, index.Has number entry block ∧ (index.value entry = none ∨ first ≤ block)
  | .undoRewind first left => committed ≤ first ∧ inserted = committed + left + 1 ∧
      ∀ block, committed ≤ block → block < first + 1 + left →
        ∃ entry, index.Has number entry block ∧ (index.value entry = none ∨ first + 1 ≤ block)

namespace Fits

variable {index : BlockIndex B} {number : Nat → Option Nat} {committed inserted : Nat}
  {producer : Inserting B}

/-- What is pending is not published. -/
theorem committed_le_of_pending (fits : producer.Fits index number committed inserted) {block : Nat}
    (pending : producer.Pending committed inserted block) : committed ≤ block := by
  cases producer with
  | ready | full | grown | storeKey | storeTail | clear | requisition | storeValue | rewind =>
      exact pending.1
  | undo => exact fits.1.trans pending.1
  | undoRewind => exact (fits.1.trans (Nat.le_succ _)).trans pending.1

/-- The producer still relies on it where entries lose their values. -/
theorem clears (fits : producer.Fits index number committed inserted) {entry : Nat}
    (cleared : ∀ {there}, index.value there = none →
      (index.setValue entry none).value there = none) :
    producer.Fits (index.setValue entry none) number committed inserted := by
  cases producer with
  | ready => exact fits
  | grown => exact fits
  | full => exact ⟨fits.1, fits.2.1, fun has => fits.2.2 (BlockIndex.has_setValue.mp has)⟩
  | storeKey => exact ⟨fits.1, fits.2.1, fits.2.2.1, cleared fits.2.2.2⟩
  | storeTail => exact ⟨fits.1, fits.2.1, fits.2.2.1, cleared fits.2.2.2.1, fits.2.2.2.2⟩
  | requisition | storeValue | rewind =>
      exact ⟨fits.1, cleared fits.2.1, BlockIndex.has_setValue.mpr fits.2.2⟩
  | clear => exact ⟨fits.1, cleared fits.2⟩
  | undo | undoRewind =>
      refine ⟨fits.1, fits.2.1, fun block low high => ?_⟩
      obtain ⟨there, has, clear⟩ := fits.2.2 block low high
      exact ⟨there, BlockIndex.has_setValue.mpr has, clear.imp cleared id⟩

end Fits

end Inserting

namespace BlockIndex

/-- A header has entries for all the blocks a thread still looks up. -/
def Listed {B : Type} (index : BlockIndex B) (number : Nat → Option Nat) (header : Nat)
    (lookup : Lookup B) : Prop :=
  header ≤ index.blockIndex ∧ ∀ block, lookup.Wants block →
    ∃ position < (index.header header).capacity,
      number ((index.header header).index position) = some block

/-- The position of a block in a header. -/
def Aims {B : Type} (index : BlockIndex B) (shift : Nat → Int) (header position block : Nat) :
    Prop :=
  position < (index.header header).capacity ∧
    Belongs (index.header header).capacity (shift header) position block

namespace Sharing

variable {ι B : Type}

/-- A block was put in and not taken out: it is not published yet, or not put back. -/
def InUse (state : Sharing ι B) (block : Nat) : Prop :=
  state.producer.Pending state.committed state.inserted block ∨ state.Live block

/-- The index has an entry for a block, with the block that was put in for it. -/
def Stored (state : Sharing ι B) (number : Nat → Option Nat) (block : Nat) : Prop :=
  ∃ entry value, state.index.Has number entry block ∧ state.index.value entry = some value ∧
    state.put block = some value

/-- What a thread knows that looks up blocks. -/
def Knows (state : Sharing ι B) (shift : Nat → Int) (number : Nat → Option Nat)
    (lookup : Lookup B) : Prop :=
  0 < lookup.count ∧ (∀ block, lookup.Wants block → state.Live block) ∧
    match lookup.point with
    | .loadHeader => True
    | .loadTail header => state.index.Listed number header lookup
    | .loadKey header tail => state.index.Listed number header lookup ∧
        tail < (state.index.header header).capacity ∧
        ∃ last, number ((state.index.header header).index tail) = some last
    | .loadValue header position => state.index.Listed number header lookup ∧
        state.index.Aims shift header position lookup.block
    | .inside header position value => state.index.Listed number header lookup ∧
        state.index.Aims shift header position lookup.block ∧ value = state.put lookup.block

/-- The index is in order, what is put in is stored, and everybody knows what it
relies on. -/
structure Kept (traits : IndexTraits) (shift : Nat → Int) (number : Nat → Option Nat)
    (state : Sharing ι B) : Prop where
  shaped : state.index.Shaped traits shift
  numbered : state.index.Numbered traits shift number
  windowed : state.index.Windowed shift number state.inserted state.producer.Undoing
  fits : state.producer.Fits state.index number state.committed state.inserted
  stored : ∀ block, state.InUse block → state.Stored number block
  knows : ∀ thread lookup, state.places thread = some lookup → state.Knows shift number lookup

namespace Kept

variable {traits : IndexTraits} {shift : Nat → Int} {number : Nat → Option Nat}
  {state : Sharing ι B}

/-- An entry of any header is one of the latest, and its position that of its block. -/
theorem entry (kept : state.Kept traits shift number) {header position block : Nat}
    (before : header ≤ state.index.blockIndex)
    (inside : position < (state.index.header header).capacity)
    (known : number ((state.index.header header).index position) = some block) :
    state.index.Has number ((state.index.header header).index position) block ∧
      Belongs (state.index.header header).capacity (shift header) position block := by
  obtain ⟨here, within, same, carries⟩ := kept.shaped.carried header before position inside
  refine ⟨⟨known, here, within, same⟩, carries block ?_⟩
  rw [← same] at known
  exact kept.numbered.belongs here within block known

/-- The entry of a block in use has the block. -/
theorem value (kept : state.Kept traits shift number) {header position block : Nat}
    (before : header ≤ state.index.blockIndex)
    (inside : position < (state.index.header header).capacity)
    (known : number ((state.index.header header).index position) = some block)
    (live : state.Live block) : ∃ value,
      state.index.value ((state.index.header header).index position) = some value ∧
        state.put block = some value := by
  obtain ⟨entry, value, has, stored, put⟩ := kept.stored block (.inr live)
  rw [(kept.entry before inside known).1.unique kept.numbered has]
  exact ⟨value, stored, put⟩

/-- A thread still knows what it relies on while headers, and the entries for blocks
in use, stay what they are. -/
theorem knows_mono (kept : state.Kept traits shift number) {next : Sharing ι B}
    {shifts : Nat → Int} {numbers : Nat → Option Nat} {lookup : Lookup B}
    (later : state.index.blockIndex ≤ next.index.blockIndex)
    (headers : ∀ header ≤ state.index.blockIndex,
      (next.index.header header).index = (state.index.header header).index ∧
      (next.index.header header).capacity = (state.index.header header).capacity ∧
      shifts header = shift header)
    (used : ∀ entry last, number entry = some last → ∃ other, numbers entry = some other)
    (same : ∀ {entry block}, state.Live block → state.index.Has number entry block →
      numbers entry = some block)
    (put : ∀ {block}, state.Live block → next.put block = state.put block)
    (knows : state.Knows shift number lookup)
    (live : ∀ block, lookup.Wants block → next.Live block) :
    next.Knows shifts numbers lookup := by
  obtain ⟨wanted, lives, knows⟩ := knows
  have first : lookup.Wants lookup.block := ⟨Nat.le_refl _, Nat.lt_add_of_pos_right wanted⟩
  have listed {header : Nat} (before : state.index.Listed number header lookup) :
      next.index.Listed numbers header lookup := by
    obtain ⟨sameIndex, sameCapacity, _⟩ := headers header before.1
    refine ⟨before.1.trans later, fun block wants => ?_⟩
    obtain ⟨position, inside, known⟩ := before.2 block wants
    rw [sameIndex, sameCapacity]
    exact ⟨position, inside, same (lives block wants) (kept.entry before.1 inside known).1⟩
  have aims {header position : Nat} (before : state.index.Listed number header lookup)
      (here : state.index.Aims shift header position lookup.block) :
      next.index.Aims shifts header position lookup.block := by
    obtain ⟨_, sameCapacity, sameShift⟩ := headers header before.1
    rw [Aims, sameCapacity, sameShift]
    exact here
  refine ⟨wanted, live, ?_⟩
  cases point : lookup.point with
  | loadHeader => trivial
  | loadTail header =>
      rw [point] at knows
      exact listed knows
  | loadKey header tail =>
      rw [point] at knows
      obtain ⟨before, inside, last, known⟩ := knows
      obtain ⟨sameIndex, sameCapacity, _⟩ := headers header before.1
      refine ⟨listed before, ?_, ?_⟩
      · rw [sameCapacity]
        exact inside
      · rw [sameIndex]
        exact used _ last known
  | loadValue header position =>
      rw [point] at knows
      exact ⟨listed knows.1, aims knows.1 knows.2⟩
  | inside header position value =>
      rw [point] at knows
      obtain ⟨before, here, got⟩ := knows
      exact ⟨listed before, aims before here, got.trans (put (lives _ first)).symm⟩

/-- So do all threads when the producer makes an operation. -/
theorem knows_produce (kept : state.Kept traits shift number) {next : Sharing ι B}
    {shifts : Nat → Int} {numbers : Nat → Option Nat} (places : next.places = state.places)
    (freed : next.freed = state.freed) (committed : state.committed ≤ next.committed)
    (later : state.index.blockIndex ≤ next.index.blockIndex)
    (headers : ∀ header ≤ state.index.blockIndex,
      (next.index.header header).index = (state.index.header header).index ∧
      (next.index.header header).capacity = (state.index.header header).capacity ∧
      shifts header = shift header)
    (used : ∀ entry last, number entry = some last → ∃ other, numbers entry = some other)
    (same : ∀ {entry block}, state.Live block → state.index.Has number entry block →
      numbers entry = some block)
    (put : ∀ {block}, state.Live block → next.put block = state.put block) :
    ∀ thread lookup, next.places thread = some lookup → next.Knows shifts numbers lookup := by
  intro thread lookup there
  rw [places] at there
  have knows := kept.knows thread lookup there
  apply kept.knows_mono later headers used same put knows
  intro block wants
  obtain ⟨before, kept⟩ := knows.2.1 block wants
  exact ⟨before.trans_le committed, by rw [freed]; exact kept⟩

/-- The producer goes elsewhere, and nothing else changes. -/
theorem goes (kept : state.Kept traits shift number) (producer : Inserting B)
    (windowed : state.index.Windowed shift number state.inserted producer.Undoing)
    (fits : producer.Fits state.index number state.committed state.inserted)
    (pending : ∀ block, producer.Pending state.committed state.inserted block →
      state.producer.Pending state.committed state.inserted block) :
    Kept traits shift number { state with producer } where
  shaped := kept.shaped
  numbered := kept.numbered
  windowed := windowed
  fits := fits
  stored block put := kept.stored block (put.imp (pending block) id)
  knows := kept.knows_produce rfl rfl (Nat.le_refl _) (Nat.le_refl _)
    (fun _ _ => ⟨rfl, rfl, rfl⟩) (fun _ last known => ⟨last, known⟩)
    (fun _ has => has.number) (fun _ => rfl)

/-- An insertion begins. -/
theorem insert (kept : state.Kept traits shift number) (ready : state.producer = .ready) :
    Kept traits shift number state.insert := by
  have windowed := kept.windowed
  have fits := kept.fits
  have pending := fun block (put : state.committed ≤ block ∧ block < state.inserted) =>
    (ready ▸ put : state.producer.Pending state.committed state.inserted block)
  rw [ready] at windowed fits
  simp only [Sharing.insert]
  split
  · rename_i room
    have free := kept.numbered.free (room.imp id Option.isNone_iff_eq_none.mp)
    exact kept.goes _ windowed ⟨fits, rfl, rfl, free⟩ pending
  · rename_i full
    have used : state.index.value (state.index.current.index state.index.current.newTail) ≠ none :=
      fun none => full (.inr (Option.isNone_iff_eq_none.mpr none))
    refine kept.goes _ windowed ⟨fits, fun none => used (kept.numbered.unused _ none), ?_⟩ pending
    exact windowed.below kept.shaped kept.numbered used

/-- What was inserted and not published is given up. -/
theorem revert (kept : state.Kept traits shift number)
    (windowed : state.index.Windowed shift number state.inserted fun _ => False)
    (fits : state.committed ≤ state.inserted)
    (pending : ∀ block, state.committed ≤ block → block < state.inserted →
      state.producer.Pending state.committed state.inserted block) :
    Kept traits shift number state.revert := by
  have range {block : Nat} (put : state.committed ≤ block ∧
      block < state.committed + (state.inserted - state.committed)) :
      state.producer.Pending state.committed state.inserted block :=
    pending block put.1 (by omega)
  refine kept.goes _ (windowed.imp fun _ => False.elim) ⟨Nat.le_refl _, by omega, ?_⟩
    (fun _ => range)
  intro block low high
  obtain ⟨entry, _, has, _⟩ := kept.stored block (.inl (range ⟨low, high⟩))
  exact ⟨entry, has, .inr low⟩

/-- A larger index is built. -/
theorem allocate (kept : state.Kept traits shift number) (full : state.producer = .full) :
    Kept traits (state.index.newShift shift state.inserted) number
      { state with index := state.index.newBlockIndex, producer := .grown } := by
  have windowed := kept.windowed
  have fits := kept.fits
  rw [full] at windowed fits
  obtain ⟨committed, used, below⟩ := fits
  have has {entry block : Nat} : state.index.newBlockIndex.Has number entry block ↔
      state.index.Has number entry block :=
    has_newBlockIndex kept.numbered kept.shaped windowed below
  refine ⟨kept.shaped.newBlockIndex windowed,
    kept.numbered.newBlockIndex kept.shaped windowed below,
    windowed.newBlockIndex kept.shaped kept.numbered below used, ⟨committed, ?_⟩, ?_, ?_⟩
  · -- the first of the new entries is behind the tail
    apply kept.numbered.fresh
    rw [newBlockIndex_current, kept.shaped.newHeader_newTail, newHeader_new (Nat.le_refl _)]
    exact Nat.le_add_right ..
  · rintro block put
    have before : state.Stored number block := by
      apply kept.stored block
      rw [InUse, full]
      exact put
    obtain ⟨entry, value, listed, stored, put⟩ := before
    refine ⟨entry, value, has.mpr listed, ?_, put⟩
    change (if state.index.entryCount ≤ entry ∧
      entry < state.index.entryCount + state.index.current.capacity then none
        else state.index.value entry) = _
    rw [if_neg]
    · exact stored
    · rintro ⟨new, _⟩
      rw [kept.numbered.unused _ (kept.numbered.fresh entry new)] at stored
      cases stored
  · refine kept.knows_produce rfl rfl (Nat.le_refl _) (Nat.le_succ _) ?_
      (fun _ last known => ⟨last, known⟩) (fun _ listed => listed.number) (fun _ => rfl)
    intro header before
    change (state.index.newBlockIndex.header header).index = _ ∧
      (state.index.newBlockIndex.header header).capacity = _ ∧ _
    rw [newBlockIndex_before state.index header before]
    exact ⟨rfl, rfl, newShift_before before⟩

/-- The blocks published are inserted. -/
theorem committed_le (kept : state.Kept traits shift number) :
    state.committed ≤ state.inserted := by
  have fits := kept.fits
  cases producer : state.producer with
  | ready =>
      rw [producer] at fits
      exact fits
  | full | grown | storeKey | storeTail | clear =>
      rw [producer] at fits
      exact fits.1
  | requisition | storeValue | rewind =>
      rw [producer] at fits
      exact fits.1.le
  | undo | undoRewind =>
      rw [producer] at fits
      have := fits.2.1
      omega

/-- The latest header has an entry for a block in use. -/
theorem has_live (kept : state.Kept traits shift number) {block : Nat}
    (live : state.Live block) : ∃ entry, state.index.Has number entry block := by
  obtain ⟨entry, _, has, _⟩ := kept.stored block (.inr live)
  exact ⟨entry, has⟩

/-- The tail of the latest header is at an entry of a block, if any block is in use. -/
theorem tail_filled (kept : state.Kept traits shift number) {block : Nat}
    (live : state.Live block) :
    ∃ last, number (state.index.current.index state.index.current.tail) = some last := by
  obtain ⟨entry, has⟩ := kept.has_live live
  exact kept.windowed.tail_filled kept.shaped has (live.1.trans_le kept.committed_le)

/-- The producer sets the key of the next entry. -/
theorem storeKey (kept : state.Kept traits shift number) {entry newTail : Nat}
    (here : state.producer = .storeKey entry newTail) :
    Kept traits shift (Function.update number entry (some state.inserted))
      { state with
        index := state.index.setKey entry (traits.base state.inserted)
        producer := .storeTail entry newTail } := by
  have windowed := kept.windowed
  have fits := kept.fits
  have stored := kept.stored
  unfold InUse at stored
  rw [here] at windowed fits stored
  obtain ⟨committed, rfl, rfl, free⟩ := fits
  refine ⟨kept.shaped.setKey .., kept.numbered.setKey kept.shaped windowed,
    windowed.setKey kept.shaped kept.numbered free _,
    ⟨committed, rfl, rfl, free, Function.update_self ..⟩, ?_, ?_⟩
  · intro block used
    obtain ⟨entry, value, has, stored, put⟩ := stored block used
    refine ⟨entry, value, (has_setKey kept.shaped).mpr (.inr ⟨?_, has⟩), stored, put⟩
    rintro rfl
    rw [free] at stored
    cases stored
  · refine kept.knows_produce rfl rfl (Nat.le_refl _) (Nat.le_refl _) (fun _ _ => ⟨rfl, rfl, rfl⟩)
      ?_ ?_ (fun _ => rfl)
    · intro entry last known
      rcases eq_or_ne entry (state.index.current.index state.index.current.newTail) with rfl | other
      · exact ⟨_, Function.update_self ..⟩
      · exact ⟨last, (Function.update_of_ne other ..).trans known⟩
    · intro entry block live has
      obtain ⟨own, value, listed, stored, _⟩ := stored block (.inr live)
      have other : entry ≠ state.index.current.index state.index.current.newTail := by
        rintro rfl
        rw [listed.unique kept.numbered has, free] at stored
        cases stored
      exact (Function.update_of_ne other ..).trans has.number

/-- The producer sets the tail, behind which nothing else changes. -/
theorem storeTail (kept : state.Kept traits shift number) {entry newTail : Nat}
    (here : state.producer = .storeTail entry newTail) :
    Kept traits shift number
      { state with
        index := state.index.setTail newTail
        inserted := state.inserted + 1
        producer := .requisition entry } := by
  have windowed := kept.windowed
  have fits := kept.fits
  have stored := kept.stored
  unfold InUse at stored
  rw [here] at windowed fits stored
  obtain ⟨committed, rfl, rfl, free, known⟩ := fits
  refine ⟨kept.shaped.setTail kept.shaped.newTail_lt, kept.numbered.setTail _,
    windowed.storeTail kept.shaped kept.numbered known, ⟨Nat.lt_succ_of_le committed, free, ?_⟩,
    ?_, ?_⟩
  · exact has_setTail.mpr ⟨known, _, kept.shaped.newTail_lt, rfl⟩
  · intro block used
    have before : (Inserting.storeTail (B := B) 0 0).Pending state.committed state.inserted block ∨
        state.Live block := used.imp (fun put => ⟨put.1, Nat.lt_of_succ_lt_succ put.2⟩) id
    obtain ⟨entry, value, has, stored, put⟩ := stored block before
    exact ⟨entry, value, has_setTail.mpr has, stored, put⟩
  · exact kept.knows_produce rfl rfl (Nat.le_refl _) (Nat.le_refl _)
      (fun _ _ => ⟨setTail_index .., setTail_capacity .., rfl⟩) (fun _ last known => ⟨last, known⟩)
      (fun _ has => has.number) (fun _ => rfl)

/-- The producer puts a block into the last entry. -/
theorem storeValue (kept : state.Kept traits shift number) {entry : Nat} {block : B}
    (here : state.producer = .storeValue entry block) :
    Kept traits shift number
      { state with
        index := state.index.setValue entry (some block)
        put := Function.update state.put (state.inserted - 1) (some block)
        producer := .ready } := by
  have windowed := kept.windowed
  have fits := kept.fits
  have stored := kept.stored
  unfold InUse at stored
  rw [here] at windowed fits stored
  obtain ⟨committed, free, last⟩ := fits
  refine ⟨kept.shaped.setValue .., kept.numbered.setValue (.inr ?_),
    windowed.setValue (.inr ?_) (fun _ => .inl), committed.le, ?_, ?_⟩
  · rw [last.number]
    exact Option.some_ne_none _
  · intro other has
    have same := has.number.symm.trans last.number
    obtain rfl := Option.some.inj same
    omega
  · intro other used
    rcases eq_or_ne other (state.inserted - 1) with rfl | before
    · exact ⟨entry, block, has_setValue.mpr last, Function.update_self .., Function.update_self ..⟩
    · have earlier : (Inserting.storeValue entry block).Pending state.committed state.inserted
          other ∨ state.Live other := by
        rcases used with ⟨low, high⟩ | live
        · change other < state.inserted at high
          exact .inl ⟨low, by omega⟩
        · exact .inr live
      obtain ⟨there, value, has, stored, put⟩ := stored other earlier
      have elsewhere : there ≠ entry := by
        intro same
        rw [same, free] at stored
        cases stored
      exact ⟨there, value, has_setValue.mpr has, (Function.update_of_ne elsewhere ..).trans stored,
        (Function.update_of_ne before ..).trans put⟩
  · refine kept.knows_produce rfl rfl (Nat.le_refl _) (Nat.le_refl _) (fun _ _ => ⟨rfl, rfl, rfl⟩)
      (fun _ last known => ⟨last, known⟩) (fun _ has => has.number) ?_
    intro other live
    have early := live.1
    exact Function.update_of_ne (by omega) ..

/-- The tail goes back over the last entry, behind which nothing else changes. -/
theorem rewindTail (kept : state.Kept traits shift number) (producer : Inserting B)
    (some : 0 < state.inserted) {entry : Nat}
    (last : state.index.Has number entry (state.inserted - 1))
    (clear : state.index.value entry = none ∨ producer.Undoing (state.inserted - 1))
    (windowed : state.index.Windowed shift number state.inserted producer.Undoing)
    (fits : producer.Fits state.index.rewindTail number state.committed (state.inserted - 1))
    (pending : ∀ block, producer.Pending state.committed (state.inserted - 1) block →
      state.producer.Pending state.committed state.inserted block) :
    Kept traits shift number
      { state with
        index := state.index.rewindTail
        inserted := state.inserted - 1
        producer } := by
  refine ⟨kept.shaped.setTail ?_, kept.numbered.setTail _,
    windowed.rewindTail kept.shaped some last clear, fits, ?_, ?_⟩
  · exact Nat.mod_lt _ (kept.shaped.capacity_pos (Nat.le_refl _))
  · intro block used
    obtain ⟨entry, value, has, stored, put⟩ := kept.stored block (used.imp (pending block) id)
    exact ⟨entry, value, has_setTail.mpr has, stored, put⟩
  · exact kept.knows_produce rfl rfl (Nat.le_refl _) (Nat.le_refl _)
      (fun _ _ => ⟨setTail_index .., setTail_capacity .., rfl⟩) (fun _ last known => ⟨last, known⟩)
      (fun _ has => has.number) (fun _ => rfl)

/-- What was inserted is taken back where there is no block. -/
theorem rewind (kept : state.Kept traits shift number) {entry : Nat}
    (here : state.producer = .rewind entry) :
    Kept traits shift number
      { state with
        index := state.index.rewindTail
        inserted := state.inserted - 1
        producer := .clear entry } := by
  have windowed := kept.windowed
  have fits := kept.fits
  rw [here] at windowed fits
  obtain ⟨committed, free, last⟩ := fits
  refine kept.rewindTail _ (by omega) last (.inl free) windowed ⟨by omega, free⟩ ?_
  rintro block ⟨low, high⟩
  rw [here]
  exact ⟨low, by omega⟩

/-- Its entry is cleared, which has no value. -/
theorem clear (kept : state.Kept traits shift number) {entry : Nat}
    (here : state.producer = .clear entry) :
    Kept traits shift number
      (Sharing.revert { state with index := state.index.setValue entry none }) := by
  have windowed := kept.windowed
  have fits := kept.fits
  rw [here] at windowed fits
  have same : state.index.setValue entry none = state.index := by
    rw [setValue, Function.update_eq_self_iff.mpr fits.2.symm]
  rw [same]
  apply kept.revert windowed fits.1
  intro block low high
  rw [here]
  exact ⟨low, high⟩

/-- All blocks have been taken back. -/
theorem undone (kept : state.Kept traits shift number) {first : Nat}
    (here : state.producer = .undo first 0) :
    Kept traits shift number { state with producer := .ready } := by
  have windowed := kept.windowed
  have fits := kept.fits
  rw [here] at windowed fits
  obtain ⟨_, none, _⟩ := fits
  refine kept.goes _ (windowed.imp fun block put => ?_) kept.committed_le ?_
  · have high := put.2
    exact absurd put.1 (Nat.not_le.mpr high)
  · rintro block ⟨low, high⟩
    omega

/-- The tail goes back over one of the blocks taken back. -/
theorem undoRewind (kept : state.Kept traits shift number) {first left : Nat}
    (here : state.producer = .undoRewind first left) :
    Kept traits shift number
      { state with
        index := state.index.rewindTail
        inserted := state.inserted - 1
        producer := .undo (first + 1) left } := by
  have windowed := kept.windowed
  have fits := kept.fits
  rw [here] at windowed fits
  obtain ⟨low, count, undoing⟩ := fits
  obtain ⟨entry, last, clear⟩ := undoing (state.inserted - 1) (by omega) (by omega)
  refine kept.rewindTail _ (by omega) last (clear.imp id fun behind => ⟨behind, by omega⟩) windowed
    ⟨by omega, by omega, ?_⟩ ?_
  · intro block low high
    obtain ⟨entry, has, clear⟩ := undoing block low high
    exact ⟨entry, has_setTail.mpr has, clear⟩
  · intro block put
    rw [here]
    exact put

end Kept

end Sharing

end BlockIndex

end Traft.Moodycamel
