import Traft.ConcurrentQueue.ImplicitProducer

/-!
# The blocks of a producer and its index

A thread looks up the blocks of its claim, which are published and, while it owes
elements of them, not put back; and the thread which is about to put a block back is
the last one to look for it. So the sub-queue uses its index as the index requires,
and blocks which are in use at once are different ones.
-/

namespace Traft.Moodycamel.ImplicitProducer

open Traft.Semantics

variable {ι α B : Type}

/-- A lookup is for the blocks from that of a run on, up to the end of the claim. -/
structure Covers (traits : Traits) (run : SubQueue.Run) (lookup : Lookup B) : Prop where
  block : lookup.block = run.block traits
  count : lookup.block + lookup.count = (run.last - 1) / traits.blockSize + 1

namespace Covers

variable {traits : Traits} {run : SubQueue.Run} {lookup : Lookup B} {head : Nat}

/-- A thread which has claimed elements begins with the block of the first. -/
theorem begin (fits : run.Fits traits head) :
    Covers traits run (B := B) ⟨run.block traits, blocks traits run, .loadHeader⟩ ∧
      0 < blocks traits run := by
  have some := fits.some.trans_le fits.upTo
  have before : run.block traits ≤ (run.last - 1) / traits.blockSize :=
    Nat.div_le_div_right (Nat.le_sub_one_of_lt some)
  refine ⟨⟨rfl, ?_⟩, ?_⟩
  · change run.block traits + blocks traits run = _
    unfold blocks
    omega
  · unfold blocks
    omega

/-- The blocks it looks for have elements of its claim. -/
theorem wants (covers : Covers traits run lookup) (fits : run.Fits traits head) {block : Nat}
    (wants : lookup.Wants block) :
    run.block traits ≤ block ∧ block * traits.blockSize < run.last := by
  have some := Nat.zero_lt_of_lt (fits.some.trans_le fits.upTo)
  obtain ⟨low, high⟩ := wants
  rw [covers.count] at high
  rw [covers.block] at low
  exact ⟨low, (SubQueue.begins_before_iff traits block some).mpr (Nat.le_of_lt_succ high)⟩

/-- It leaves the last block at the end of its claim, and otherwise goes on with the
next one, where the next run begins. -/
theorem behind (covers : Covers traits run lookup) (fits : run.Fits traits head)
    (index : BlockIndex B) (header position : Nat) {next : Lookup B}
    (goes : lookup.behind index header position = some next) :
    run.endIndex ≠ run.last ∧ Covers traits (.begin traits run.endIndex run.last) next := by
  have nonzero : 0 < traits.blockSize := Nat.lt_trans Nat.one_pos traits.large
  have some := fits.some.trans_le fits.upTo
  have before : run.block traits ≤ (run.last - 1) / traits.blockSize :=
    Nat.div_le_div_right (Nat.le_sub_one_of_lt some)
  obtain ⟨block, count⟩ := covers
  rw [Lookup.behind] at goes
  split at goes
  · cases goes
  · rename_i more
    obtain rfl := Option.some.inj goes
    have further : run.block traits + 1 ≤ (run.last - 1) / traits.blockSize := by omega
    rw [Nat.le_div_iff_mul_le nonzero, Nat.add_mul, Nat.one_mul] at further
    have inside : run.endIndex ≤ run.block traits * traits.blockSize + traits.blockSize :=
      fits.block
    have unended : run.endIndex ≠ run.last := by omega
    have ends := fits.ends.resolve_left unended
    refine ⟨unended, ?_, ?_⟩
    · change lookup.block + 1 = run.endIndex / traits.blockSize
      rw [ends, block, Nat.add_div_right _ nonzero, Nat.mul_div_cancel _ nonzero]
      rfl
    · change lookup.block + 1 + (lookup.count - 1) = (run.last - 1) / traits.blockSize + 1
      omega

/-- It looks for the same blocks while it looks one up. -/
theorem advance (covers : Covers traits run lookup) {bounds : IndexTraits} {index : BlockIndex B}
    {after : Lookup B} (moves : lookup.advance bounds index = some after) :
    Covers traits run after := by
  rw [Lookup.advance] at moves
  split at moves
  · cases moves
    exact ⟨covers.block, covers.count⟩
  · cases moves
    exact ⟨covers.block, covers.count⟩
  · cases moves
    exact ⟨covers.block, covers.count⟩
  · cases moves
    exact ⟨covers.block, covers.count⟩
  · cases moves

/-- Behind a block it goes on with the next run, if it has more blocks to look up. -/
theorem leave (covers : Covers traits run lookup) (fits : run.Fits traits head)
    (index : BlockIndex B) (header position : Nat) (removed : List α) {next : Lookup B}
    (goes : lookup.behind index header position = some next) :
    ∃ found, (run.next traits removed).run = some found ∧ Covers traits found next := by
  obtain ⟨unended, covers⟩ := covers.behind fits index header position goes
  refine ⟨_, ?_, covers⟩
  rw [SubQueue.Run.next, if_neg unended]
  rfl

end Covers

/-- While the producer inserts a block, there is an element for it. -/
def Needs (traits : Traits) (inserted newTailIndex : Nat) : Inserting B → Prop
  | .full | .grown | .storeKey _ _ | .storeTail _ _ => inserted * traits.blockSize < newTailIndex
  | .requisition _ | .storeValue _ _ => (inserted - 1) * traits.blockSize < newTailIndex
  | _ => True

/-- What a producer's queue and index agree on. Elements before the tail are in
published blocks, the same blocks are put back in both, threads look up the blocks of
their claims, elements are constructed in inserted blocks, no block is inserted without
need, and no two blocks in use are the same, nor is one that is about to be put in. -/
structure Coupled (traits : IndexTraits) (state : ImplicitProducer ι α B) : Prop where
  tail : state.queue.queue.tailIndex ≤ state.index.committed * traits.blockSize
  freed : ∀ block, state.index.freed block = true ↔ block ∈ state.queue.queue.freed
  places : ∀ thread lookup, state.index.places thread = some lookup → ∃ method point run,
    state.queue.places thread = some (method, point) ∧ point.run = some run ∧
      Covers traits.toTraits run lookup
  built : state.queue.queue.constructed = [] ∨
    state.Provided traits ∧ state.nextIndex ≤ state.newTailIndex
  needed : Needs traits.toTraits state.index.inserted state.newTailIndex state.index.producer
  apart : ∀ {one other}, state.index.InUse one → state.index.InUse other →
    state.index.put one = state.index.put other → one = other
  fresh : ∀ {entry block number}, state.index.producer = .storeValue entry block →
    state.index.InUse number → state.index.put number ≠ some block

namespace Coupled

variable {traits : IndexTraits} {state : ImplicitProducer ι α B}

/-- A block that begins before the head and was not put back is live. -/
theorem live (coupled : state.Coupled traits) {block : Nat}
    (head : state.queue.queue.headIndex ≤ state.queue.queue.tailIndex)
    (begins : block * traits.blockSize < state.queue.queue.headIndex)
    (kept : block ∉ state.queue.queue.freed) : state.index.Live block := by
  constructor
  · have tail := coupled.tail
    exact Nat.lt_of_mul_lt_mul_right ((begins.trans_le head).trans_le tail)
  · cases free : state.index.freed block with
    | false => rfl
    | true => exact absurd ((coupled.freed block).mp free) kept

section Threads

variable [Fintype ι]

/-- So the blocks a thread looks up are. -/
theorem wanted (coupled : state.Coupled traits) (recycled : state.queue.Recycled traits.toTraits)
    (head : state.queue.queue.headIndex ≤ state.queue.queue.tailIndex) {thread : ι}
    {method : SubQueue.Method} {point : SubQueue.Point α} {run : SubQueue.Run}
    (here : state.queue.places thread = some (method, point))
    (fits : point.Fits traits.toTraits state.queue.queue method) (within : point.run = some run)
    {block : Nat} (before : run.block traits.toTraits ≤ block)
    (begins : block * traits.blockSize < run.last)
    (others : block = run.block traits.toTraits → point.frees traits.toTraits = []) :
    state.index.Live block := by
  apply coupled.live head (begins.trans_le (fits.run within).claimed)
  exact (recycled.owed_in_use here (SubQueue.Point.owes_pos fits within before begins others)).1

/-- Nobody else looks for a block that a thread is about to put back. -/
theorem alone (coupled : state.Coupled traits) (recycled : state.queue.Recycled traits.toTraits)
    (fits : ∀ thread method point, state.queue.places thread = some (method, point) →
      point.Fits traits.toTraits state.queue.queue method) {thread other : ι}
    (elsewhere : other ≠ thread) {method : SubQueue.Method} {run : SubQueue.Run}
    {removed : List α} (here : state.queue.places thread = some (method, .free run removed))
    {lookup : Lookup B} (there : state.index.places other = some lookup) :
    ¬ lookup.Wants (run.block traits.toTraits) := by
  classical
  intro wants
  have nonneg := fun one => weigh_nonneg
    (SubQueue.Point.freeing_nonneg (α := α) traits.toTraits (run.block traits.toTraits))
    (state.queue.places one)
  have mine : weigh (SubQueue.Point.freeing traits.toTraits (run.block traits.toTraits))
      (state.queue.places thread) = 1 := by
    rw [here]
    exact if_pos rfl
  obtain ⟨_, point, found, placed, within, covers⟩ := coupled.places other lookup there
  have fit := fits other _ point placed
  obtain ⟨before, begins⟩ := covers.wants (fit.run within) wants
  by_cases frees : run.block traits.toTraits = found.block traits.toTraits →
      point.frees traits.toTraits = []
  · -- it owes elements of the block, which is then not full
    have owes := SubQueue.Point.owes_pos fit within before begins frees
    have none := (recycled.owed_in_use placed owes).2
    have own := weight_le_total nonneg thread
    omega
  · -- it would put back the block as well, which is put back once
    rw [Classical.not_imp] at frees
    have theirs : weigh (SubQueue.Point.freeing traits.toTraits (run.block traits.toTraits))
        (state.queue.places other) = 1 := by
      rw [placed]
      cases point with
      | free own =>
          obtain ⟨⟩ := within
          exact if_pos frees.1.symm
      | _ => exact absurd rfl frees.2
    have both := pair_le_total nonneg elsewhere
    have freed := recycled.freed (run.block traits.toTraits)
    unfold SubQueue.full at freed
    split at freed <;> omega

end Threads

/-- Agreement rests on how far the producer is, on what it has put in, and on what is
put back. -/
theorem goes (coupled : state.Coupled traits) {queue : SubQueue.Sharing ι α}
    {index : BlockIndex.Sharing ι B} {cells : B × Nat → Option α}
    (tail : queue.queue.tailIndex = state.queue.queue.tailIndex)
    (constructed : queue.queue.constructed = state.queue.queue.constructed)
    (producer : index.producer = state.index.producer)
    (inserted : index.inserted = state.index.inserted)
    (committed : index.committed = state.index.committed) (put : index.put = state.index.put)
    (freed : ∀ block, index.freed block = true ↔ block ∈ queue.queue.freed)
    (still : ∀ block, state.index.freed block = true → index.freed block = true)
    (places : ∀ thread lookup, index.places thread = some lookup → ∃ method point run,
      queue.places thread = some (method, point) ∧ point.run = some run ∧
        Covers traits.toTraits run lookup) :
    Coupled traits { queue, index, newTailIndex := state.newTailIndex, cells } := by
  have inUse {block : Nat} (used : index.InUse block) : state.index.InUse block := by
    unfold BlockIndex.Sharing.InUse at used
    rw [producer, inserted, committed] at used
    refine used.imp id fun live => ⟨committed ▸ live.1, ?_⟩
    cases free : state.index.freed block with
    | false => rfl
    | true => exact absurd ((still block free).symm.trans live.2) Bool.noConfusion
  refine ⟨?_, freed, places, ?_, ?_, ?_, ?_⟩
  · change queue.queue.tailIndex ≤ index.committed * traits.blockSize
    rw [tail, committed]
    exact coupled.tail
  · rw [Provided, nextIndex]
    change queue.queue.constructed = [] ∨ (_ ≤ index.inserted * _ ∧ (index.producer = _ ∨ ∃ _ _,
      index.producer = _ ∧ _ = queue.queue.tailIndex + 1)) ∧
        queue.queue.tailIndex + queue.queue.constructed.length ≤ _
    rw [constructed, inserted, producer, tail]
    exact coupled.built
  · change Needs _ index.inserted _ index.producer
    rw [inserted, producer]
    exact coupled.needed
  · intro one other here there same
    change index.put one = index.put other at same
    rw [put] at same
    exact coupled.apart (inUse here) (inUse there) same
  · intro entry block number here used
    change index.producer = _ at here
    change index.put number ≠ _
    rw [producer] at here
    rw [put]
    exact coupled.fresh here (inUse used)

/-- It does not rest on where threads are, as long as they look for blocks of their runs. -/
theorem moved (coupled : state.Coupled traits)
    {dequeuing : ι → Option (SubQueue.Method × SubQueue.Point α)} {looking : ι → Option (Lookup B)}
    {cells : B × Nat → Option α}
    (places : ∀ thread lookup, looking thread = some lookup → ∃ method point run,
      dequeuing thread = some (method, point) ∧ point.run = some run ∧
        Covers traits.toTraits run lookup) :
    Coupled traits
      { queue := { state.queue with places := dequeuing }
        index := { state.index with places := looking }
        newTailIndex := state.newTailIndex
        cells } :=
  coupled.goes rfl rfl rfl rfl rfl rfl coupled.freed (fun _ => id) places

/-- Behind a block a thread goes on with the next one, and is in its run. -/
theorem leaves (coupled : state.Coupled traits)
    (fits : ∀ thread method point, state.queue.places thread = some (method, point) →
      point.Fits traits.toTraits state.queue.queue method) {thread : ι} {method : SubQueue.Method}
    {point : SubQueue.Point α} {run : SubQueue.Run}
    (here : state.queue.places thread = some (method, point)) (within : point.run = some run)
    {lookup : Lookup B} {header position : Nat}
    (there : state.index.places thread = some lookup) (removed : List α) {next : Lookup B}
    (goes : lookup.behind state.index.index header position = some next) :
    ∃ found, (run.next traits.toTraits removed).run = some found ∧
      Covers traits.toTraits found next := by
  obtain ⟨_, _, _, placed, runs, covers⟩ := coupled.places thread lookup there
  obtain ⟨⟩ := here.symm.trans placed
  obtain ⟨⟩ := within.symm.trans runs
  exact covers.leave ((fits thread method point here).run within) _ header position removed goes

section Steps

variable [DecidableEq ι]

/-- A thread that looks for blocks of its run goes on with the run. -/
theorem places_dequeuing (coupled : state.Coupled traits) {thread : ι}
    {place : Option (SubQueue.Method × SubQueue.Point α)}
    (own : ∀ lookup, state.index.places thread = some lookup → ∃ method point run,
      place = some (method, point) ∧ point.run = some run ∧ Covers traits.toTraits run lookup) :
    ∀ other lookup, state.index.places other = some lookup → ∃ method point run,
      state.queue.move thread place other = some (method, point) ∧ point.run = some run ∧
        Covers traits.toTraits run lookup := by
  intro other lookup there
  rcases eq_or_ne other thread with rfl | elsewhere
  · obtain ⟨method, point, run, placed, rest⟩ := own lookup there
    exact ⟨method, point, run, (Function.update_self ..).trans placed, rest⟩
  · obtain ⟨method, point, run, placed, rest⟩ := coupled.places other lookup there
    exact ⟨method, point, run, (Function.update_of_ne elsewhere ..).trans placed, rest⟩

/-- A thread in a run goes on looking for blocks. -/
theorem places_looking (coupled : state.Coupled traits) {thread : ι} {place : Option (Lookup B)}
    (own : ∀ lookup, place = some lookup → ∃ method point run,
      state.queue.places thread = some (method, point) ∧ point.run = some run ∧
        Covers traits.toTraits run lookup) :
    ∀ other lookup, state.index.move thread place other = some lookup → ∃ method point run,
      state.queue.places other = some (method, point) ∧ point.run = some run ∧
        Covers traits.toTraits run lookup := by
  intro other lookup there
  change Function.update state.index.places thread place other = some lookup at there
  rcases eq_or_ne other thread with rfl | elsewhere
  · rw [Function.update_self] at there
    exact own lookup there
  · rw [Function.update_of_ne elsewhere] at there
    exact coupled.places other lookup there

/-- A thread goes on in a run and with its blocks at once. -/
theorem places_leaving (coupled : state.Coupled traits) {thread : ι} {method : SubQueue.Method}
    {after : SubQueue.Point α} {place : Option (Lookup B)}
    (own : ∀ {lookup}, place = some lookup → ∃ found, after.run = some found ∧
      Covers traits.toTraits found lookup) :
    ∀ other lookup, state.index.move thread place other = some lookup → ∃ method' point run,
      state.queue.move thread (some (method, after)) other = some (method', point) ∧
        point.run = some run ∧ Covers traits.toTraits run lookup := by
  intro other lookup there
  change Function.update state.index.places thread place other = some lookup at there
  rcases eq_or_ne other thread with rfl | elsewhere
  · rw [Function.update_self] at there
    obtain ⟨found, within, covers⟩ := own there
    exact ⟨method, after, found, Function.update_self .., within, covers⟩
  · rw [Function.update_of_ne elsewhere] at there
    obtain ⟨method, point, run, placed, rest⟩ := coupled.places other lookup there
    exact ⟨method, point, run, (Function.update_of_ne elsewhere ..).trans placed, rest⟩

/-- A thread goes on without putting a block back. -/
theorem dequeues (coupled : state.Coupled traits) {thread : ι} {method : SubQueue.Method}
    {point after : SubQueue.Point α} {queue : SubQueue α}
    (moves : state.queue.queue.advance traits.toTraits method point = some (queue, after))
    (keeps : point.frees traits.toTraits = [])
    (own : ∀ lookup, state.index.places thread = some lookup → ∃ run, after.run = some run ∧
      Covers traits.toTraits run lookup) :
    Coupled traits (state.dequeuing queue thread (some (method, after))) := by
  obtain ⟨_, tail, _, constructed⟩ := SubQueue.advance_grows moves
  have freed := SubQueue.advance_freed moves
  rw [keeps, List.append_nil] at freed
  refine coupled.goes tail constructed rfl rfl rfl rfl (fun block => ?_) (fun _ => id)
    (coupled.places_dequeuing fun lookup there => ?_)
  · change _ ↔ block ∈ queue.freed
    rw [freed]
    exact coupled.freed block
  · obtain ⟨run, within, covers⟩ := own lookup there
    exact ⟨method, after, run, rfl, within, covers⟩

end Steps

end Coupled

section Steps

variable [DecidableEq ι] [DecidableEq B] {traits : IndexTraits}
  {state next : ImplicitProducer ι α B} {event : Event ι α B}

/-- What happens to the sub-queue is what happens to sub-queues, if the cells contain
what is taken out. -/
theorem Step.queue (transition : Step traits state event next)
    (contents : ∀ {thread lookup header position block method run removed},
      state.Inside thread lookup header position (some block) →
        state.queue.places thread = some (method, .move run removed) →
          run.index ≠ run.endIndex →
            state.cells (block, run.index % traits.blockSize) =
              state.queue.queue.elements[run.index]?) :
    (SubQueue.Sharing.system traits.toTraits ι α).Answers state.queue event.queue next.queue := by
  cases transition with
  | enqueue | produce | lookup | look => rfl
  | fail => exact .discard
  | construct element => exact .construct element
  | publish => exact .publish
  | call method idle => exact .call method idle
  | advance here _ moves => exact .advance here moves
  | take here inside more content =>
      refine .advance here ?_
      rw [contents inside here more] at content
      simp only [SubQueue.advance, if_neg more, content]
  | ended here _ all =>
      refine .advance here ?_
      simp only [SubQueue.advance, if_pos all]
  | last here _ moves => exact .advance here moves
  | leave here _ moves => exact .advance here moves
  | free here _ moves => exact .advance here moves
  | finish here => exact .finish here

variable [Fintype ι]

/-- The sub-queue uses its index as the index requires. -/
theorem Coupled.index (coupled : state.Coupled traits)
    (recycled : state.queue.Recycled traits.toTraits)
    (head : state.queue.queue.headIndex ≤ state.queue.queue.tailIndex)
    (fits : ∀ thread method point, state.queue.places thread = some (method, point) →
      point.Fits traits.toTraits state.queue.queue method)
    (transition : Step traits state event next) :
    (BlockIndex.Sharing.system traits ι B).Answers state.index event.index next.index := by
  cases transition with
  | enqueue | construct | call | advance | take | ended | last | finish => rfl
  | produce _ moves => exact moves
  | fail _ moves => exact moves
  | publish _ ready => exact .publish ready
  | look there moves => exact .advance there moves
  | leave _ inside => exact .leave inside.1 inside.2
  | @lookup thread method run here idle =>
      have fit := fits thread method _ here
      obtain ⟨covers, some⟩ := Covers.begin (B := B) fit.1
      refine .lookup _ _ idle some fun block low high => ?_
      obtain ⟨before, begins⟩ := covers.wants fit.1 ⟨low, high⟩
      exact coupled.wanted recycled head here fit rfl before begins fun _ => rfl
  | @free thread method run removed queue after lookup header position block here inside moves =>
      obtain ⟨there, inside⟩ := inside
      obtain ⟨_, point, found, placed, within, covers⟩ := coupled.places thread lookup there
      obtain ⟨⟩ := here.symm.trans placed
      obtain ⟨⟩ := within
      refine .free there inside fun other another elsewhere there => ?_
      rw [covers.block]
      exact coupled.alone recycled fits elsewhere here there

end Steps

section Producer

variable {traits : IndexTraits} {state : ImplicitProducer ι α B} {event : BlockIndex.Event ι B}

/-- What a method of the producer does is nothing the threads see. -/
theorem Produces.internal (allowed : state.Produces traits event) : event.Internal := by
  cases event with
  | allocate | requisition | insert | operate => trivial
  | throw | publish | revert | lookup | advance | leave => exact allowed.elim

/-- Neither is that it fails. -/
theorem Fails.internal (fails : state.Fails event) : event.Internal := by
  cases event with
  | allocate | requisition | throw | revert => trivial
  | insert | operate | publish | lookup | advance | leave => exact fails.elim

variable [DecidableEq ι] {index : BlockIndex.Sharing ι B}

/-- Elements are constructed where there are blocks, until they are published. -/
theorem Provided.produce (provided : state.Provided traits) (allowed : state.Produces traits event)
    (moves : BlockIndex.Sharing.Step traits state.index event index) :
    Provided traits { state with index } := by
  obtain ⟨enough, stage⟩ := provided
  cases moves with
  | insert => exact absurd enough (Nat.not_le.mpr allowed)
  | allocate full =>
      rcases stage with ready | ⟨_, _, storing, _⟩
      · cases full.symm.trans ready
      · cases full.symm.trans storing
  | requisition block here =>
      rcases stage with ready | ⟨_, _, storing, _⟩
      · cases here.symm.trans ready
      · cases here.symm.trans storing
  | operate moves =>
      rw [BlockIndex.Sharing.operate] at moves
      rcases stage with ready | ⟨entry, block, here, _⟩
      · rw [ready] at moves
        cases moves
      · rw [here] at moves
        cases moves
        exact ⟨enough, .inl rfl⟩
  | refuse | exhausted | throw | publish | revert | lookup | advance | leave | free =>
      exact allowed.elim

/-- There goes on being an element for the block. -/
theorem needs_produce (needed : Needs traits.toTraits state.index.inserted state.newTailIndex
      state.index.producer) (allowed : state.Produces traits event)
    (moves : BlockIndex.Sharing.Step traits state.index event index) :
    Needs traits.toTraits index.inserted state.newTailIndex index.producer := by
  cases moves with
  | insert =>
      unfold BlockIndex.Sharing.insert
      simp only
      split
      · exact allowed
      · exact allowed
  | allocate full =>
      rw [full] at needed
      exact needed
  | requisition block here =>
      rw [here] at needed
      exact needed
  | operate moves =>
      rw [BlockIndex.Sharing.operate] at moves
      cases here : state.index.producer with
      | ready | full | requisition =>
          rw [here] at moves
          cases moves
      | grown | storeKey | storeTail =>
          rw [here] at moves needed
          cases moves
          exact needed
      | storeValue | rewind | clear | undoRewind =>
          rw [here] at moves
          cases moves
          trivial
      | undo first left =>
          rw [here] at moves
          cases left with
          | zero =>
              cases moves
              trivial
          | succ =>
              cases moves
              trivial
  | refuse | exhausted | throw | publish | revert | lookup | advance | leave | free =>
      exact allowed.elim

variable {shift : Nat → Int} {number : Nat → Option Nat}

/-- Blocks in use stay different ones. -/
theorem Coupled.apart_step (coupled : state.Coupled traits)
    (kept : state.index.Kept traits shift number)
    (moves : BlockIndex.Sharing.Step traits state.index event index) {one other : Nat}
    (here : index.InUse one) (there : index.InUse other) (same : index.put one = index.put other) :
    one = other := by
  rcases kept.inUse moves here with ⟨used, put⟩ | ⟨entry, block, storing, last, put⟩
  · rcases kept.inUse moves there with ⟨used', put'⟩ | ⟨entry, block, storing, last, put'⟩
    · rw [put, put'] at same
      exact coupled.apart used used' same
    · rw [put, put'] at same
      exact absurd same (coupled.fresh storing used)
  · rcases kept.inUse moves there with ⟨used', put'⟩ | ⟨_, _, _, last', _⟩
    · rw [put, put'] at same
      exact absurd same.symm (coupled.fresh storing used')
    · exact last.trans last'.symm

/-- The producer inserts blocks. -/
theorem Coupled.produce (coupled : state.Coupled traits)
    (kept : state.index.Kept traits shift number) (allowed : state.Produces traits event)
    (moves : BlockIndex.Sharing.Step traits state.index event index) :
    Coupled traits { state with index } := by
  obtain ⟨places, committed, freed⟩ := moves.frame allowed.internal
  have needed := needs_produce coupled.needed allowed moves
  refine ⟨?_, ?_, ?_, ?_, needed, coupled.apart_step kept moves, ?_⟩
  · rw [committed]
    exact coupled.tail
  · rw [freed]
    exact coupled.freed
  · rw [places]
    exact coupled.places
  · exact coupled.built.imp id fun built => ⟨built.1.produce allowed moves, built.2⟩
  · intro entry block number there used
    obtain rfl := moves.storeValue allowed.internal there
    rcases kept.inUse moves used with ⟨used, put⟩ | ⟨_, _, storing, _, _⟩
    · change index.put number ≠ some block
      rw [put]
      exact allowed number used
    · cases moves with
      | requisition _ here => cases here.symm.trans storing

/-- Or it fails, and has constructed nothing. -/
theorem Coupled.fail (coupled : state.Coupled traits)
    (kept : state.index.Kept traits shift number) (fails : state.Fails event)
    (moves : BlockIndex.Sharing.Step traits state.index event index)
    (cells : B × Nat → Option α) :
    Coupled traits
      { queue := { state.queue with queue := state.queue.queue.discard }
        index
        newTailIndex := state.queue.queue.tailIndex
        cells } := by
  obtain ⟨places, committed, freed⟩ := moves.frame fails.internal
  refine ⟨?_, ?_, ?_, .inl rfl, ?_, coupled.apart_step kept moves, ?_⟩
  · rw [committed]
    exact coupled.tail
  · rw [freed]
    exact coupled.freed
  · rw [places]
    exact coupled.places
  · cases moves with
    | refuse | exhausted | throw | revert => trivial
    | insert | allocate | requisition | operate | publish | lookup | advance | leave | free =>
        exact fails.elim
  · intro entry block number there
    obtain rfl := moves.storeValue fails.internal there
    exact fails.elim

/-- Elements are published with their blocks. -/
theorem Coupled.publish (coupled : state.Coupled traits)
    (kept : state.index.Kept traits shift number) (provided : state.Provided traits)
    (ready : state.index.producer = .ready) (all : state.nextIndex = state.newTailIndex) :
    Coupled traits
      { state with
        queue := { state.queue with queue := state.queue.queue.publish }
        index := { state.index with committed := state.index.inserted } } := by
  have moves : BlockIndex.Sharing.Step traits state.index .publish _ := .publish ready
  refine ⟨?_, coupled.freed, coupled.places, .inl rfl, coupled.needed,
    coupled.apart_step kept moves, ?_⟩
  · change state.nextIndex ≤ state.index.inserted * traits.blockSize
    rw [all]
    exact provided.1
  · intro entry block number there
    cases ready.symm.trans there

end Producer

section Steps

variable [DecidableEq ι] [DecidableEq B] {traits : IndexTraits}
  {state next : ImplicitProducer ι α B} {event : Event ι α B} {shift : Nat → Int}
  {number : Nat → Option Nat}

/-- Whatever happens, queue and index go on agreeing. -/
theorem Coupled.step (coupled : state.Coupled traits)
    (kept : state.index.Kept traits shift number)
    (fits : ∀ thread method point, state.queue.places thread = some (method, point) →
      point.Fits traits.toTraits state.queue.queue method)
    (transition : Step traits state event next) : next.Coupled traits := by
  cases transition with
  | enqueue count idle ready =>
      refine ⟨coupled.tail, coupled.freed, coupled.places, ?_, ?_, coupled.apart, coupled.fresh⟩
      · refine .inl (coupled.built.elim id fun built => ?_)
        have within := built.2
        rw [idle, nextIndex] at within
        exact List.eq_nil_of_length_eq_zero (Nat.le_zero.mp (Nat.le_of_add_le_add_left within))
      · change Needs _ _ _ state.index.producer
        rw [ready]
        trivial
  | produce allowed moves => exact coupled.produce kept allowed moves
  | fail fails moves => exact coupled.fail kept fails moves _
  | construct element provided more =>
      refine ⟨coupled.tail, coupled.freed, coupled.places, .inr ⟨provided, ?_⟩, coupled.needed,
        coupled.apart, coupled.fresh⟩
      change _ + (state.queue.queue.constructed ++ [element]).length ≤ _
      rw [List.length_append]
      exact more
  | publish provided ready all => exact coupled.publish kept provided ready all
  | @call thread method idle =>
      apply coupled.moved
      apply coupled.places_dequeuing
      intro lookup there
      obtain ⟨_, _, _, placed, _⟩ := coupled.places thread lookup there
      cases idle.symm.trans placed
  | @advance thread method point queue after here outside moves =>
      have keeps : point.frees traits.toTraits = [] := by
        cases point with
        | free => cases outside
        | _ => rfl
      refine coupled.dequeues moves keeps fun lookup there => ?_
      obtain ⟨_, _, _, placed, within, _⟩ := coupled.places thread lookup there
      obtain ⟨⟩ := here.symm.trans placed
      cases outside.symm.trans within
  | @lookup thread method run here idle =>
      apply coupled.moved
      apply coupled.places_looking
      intro lookup there
      obtain ⟨⟩ := there
      exact ⟨method, _, run, here, rfl, (Covers.begin (fits thread method _ here).1).1⟩
  | @look thread lookup after there moves =>
      apply coupled.moved
      apply coupled.places_looking
      intro found same
      obtain ⟨⟩ := same
      obtain ⟨method, point, run, placed, within, covers⟩ := coupled.places thread lookup there
      exact ⟨method, point, run, placed, within, covers.advance moves⟩
  | @take thread method run removed lookup header position block element here inside =>
      apply coupled.moved
      apply coupled.places_dequeuing
      intro lookup there
      obtain ⟨_, _, _, placed, within, covers⟩ := coupled.places thread lookup there
      obtain ⟨⟩ := here.symm.trans placed
      obtain ⟨⟩ := within
      exact ⟨method, _, _, rfl, rfl, covers.block, covers.count⟩
  | @ended thread method run removed lookup header position block here inside =>
      apply coupled.moved
      apply coupled.places_dequeuing
      intro lookup there
      obtain ⟨_, _, _, placed, within, covers⟩ := coupled.places thread lookup there
      obtain ⟨⟩ := here.symm.trans placed
      obtain ⟨⟩ := within
      exact ⟨method, _, run, rfl, rfl, covers⟩
  | @last thread method run removed queue lookup header position block here inside moves =>
      refine coupled.dequeues moves rfl fun lookup there => ?_
      obtain ⟨_, _, _, placed, within, covers⟩ := coupled.places thread lookup there
      obtain ⟨⟩ := here.symm.trans placed
      obtain ⟨⟩ := within
      exact ⟨run, rfl, covers⟩
  | @leave thread method run removed queue lookup header position block here inside moves =>
      obtain ⟨_, tail, _, constructed⟩ := SubQueue.advance_grows moves
      have freed : queue.freed = state.queue.queue.freed :=
        (SubQueue.advance_freed moves).trans (List.append_nil _)
      refine coupled.goes tail constructed rfl rfl rfl rfl (fun block => ?_) (fun _ => id)
        (coupled.places_leaving (coupled.leaves fits here rfl inside.1 removed))
      change _ ↔ block ∈ queue.freed
      rw [freed]
      exact coupled.freed block
  | @free thread method run removed queue after lookup header position block here inside moves =>
      obtain ⟨_, _, _, placed, within, covers⟩ := coupled.places thread lookup inside.1
      obtain ⟨⟩ := here.symm.trans placed
      obtain ⟨⟩ := within
      obtain ⟨⟩ := moves
      refine coupled.goes rfl rfl rfl rfl rfl rfl (fun block => ?_) (fun block free => ?_)
        (coupled.places_leaving (coupled.leaves fits here rfl inside.1 removed))
      · change Function.update state.index.freed lookup.block true block = true ↔
          block ∈ state.queue.queue.freed ++ [run.block traits.toTraits]
        rw [covers.block, List.mem_append, ← coupled.freed block]
        rcases eq_or_ne block (run.block traits.toTraits) with rfl | other
        · rw [Function.update_self]
          exact ⟨fun _ => .inr (List.mem_singleton_self _), fun _ => rfl⟩
        · rw [Function.update_of_ne other]
          exact ⟨.inl, fun put => put.resolve_right fun own => other (List.mem_singleton.mp own)⟩
      · change Function.update state.index.freed lookup.block true block = true
        rcases eq_or_ne block lookup.block with rfl | other
        · exact Function.update_self ..
        · exact (Function.update_of_ne other ..).trans free
  | @finish thread method removed here =>
      apply coupled.moved
      apply coupled.places_dequeuing
      intro lookup there
      obtain ⟨_, _, _, placed, within, _⟩ := coupled.places thread lookup there
      obtain ⟨⟩ := here.symm.trans placed
      cases within

end Steps

end Traft.Moodycamel.ImplicitProducer
