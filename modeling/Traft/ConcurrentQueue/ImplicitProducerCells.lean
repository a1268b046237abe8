import Traft.ConcurrentQueue.ImplicitProducerBlocks
import Traft.Semantics.Placement

/-!
# Elements are where they are looked for

An element has its place in the block that was put in for it, from when it is
constructed until a thread takes it out. The places hold these elements and nothing
else: what a thread takes out is the element it claimed, a new one comes to an empty
place, and none is left behind.
-/

namespace Traft.Moodycamel

open Traft.Semantics

/-- The block with a number: the one that was put in, or the one at hand that is put in
next. -/
def BlockIndex.Sharing.blockFor {ι B : Type} (state : BlockIndex.Sharing ι B) (number : Nat) :
    Option B :=
  match state.producer with
  | .storeValue _ block => if number + 1 = state.inserted then some block else state.put number
  | _ => state.put number

section Blocks

variable {ι B : Type} {traits : IndexTraits} {shift : Nat → Int} {known : Nat → Option Nat}
  {state next : BlockIndex.Sharing ι B} {number : Nat}

/-- It is the one that was put in, where none is at hand for the number. -/
theorem BlockIndex.Sharing.blockFor_eq_put
    (other : ∀ entry block, state.producer = .storeValue entry block →
      number + 1 ≠ state.inserted) :
    state.blockFor number = state.put number := by
  unfold blockFor
  split
  · rename_i entry block here
    exact if_neg (other entry block here)
  · rfl

/-- One that is published was put in. -/
theorem BlockIndex.Sharing.Kept.blockFor_published (kept : state.Kept traits shift known)
    (published : number < state.committed) : state.blockFor number = state.put number := by
  apply BlockIndex.Sharing.blockFor_eq_put
  intro entry block here
  have fits := kept.fits
  rw [here] at fits
  have ahead : state.committed < state.inserted := fits.1
  omega

/-- So was one in use. -/
theorem BlockIndex.Sharing.Kept.blockFor_used (kept : state.Kept traits shift known)
    (used : state.InUse number) : state.blockFor number = state.put number := by
  rcases used with pending | live
  · apply BlockIndex.Sharing.blockFor_eq_put
    intro entry block here
    rw [here] at pending
    exact pending.2.ne
  · exact kept.blockFor_published live.1

variable [DecidableEq ι] {event : BlockIndex.Event ι B}

/-- What the producer does with its index does not change which block has a number,
where that is published, or else no block is about to be given or taken back. -/
theorem BlockIndex.Sharing.Kept.blockFor_step (kept : state.Kept traits shift known)
    (transition : BlockIndex.Sharing.Step traits state event next) (internal : event.Internal)
    (settled : number < state.committed ∨
      event ≠ .throw ∧ ∀ entry, state.producer ≠ .requisition entry) :
    next.blockFor number = state.blockFor number := by
  rcases transition.put_cases internal with ⟨put, quiet⟩ | ⟨entry, block, here, ready, put⟩
  · have before : state.blockFor number = state.put number := by
      rcases settled with published | ⟨other, _⟩
      · exact kept.blockFor_published published
      · exact blockFor_eq_put fun entry block here => absurd (quiet entry block here) other
    rw [before, ← put]
    apply blockFor_eq_put
    intro entry block there
    -- a block has just been given
    obtain rfl := transition.storeValue internal there
    cases transition with
    | requisition _ here =>
        rcases settled with published | ⟨_, none⟩
        · have fits := kept.fits
          rw [here] at fits
          have ahead : state.committed < state.inserted := fits.1
          change number + 1 ≠ state.inserted
          omega
        · exact absurd here (none _)
  · have fits := kept.fits
    rw [here] at fits
    have ahead : state.committed < state.inserted := fits.1
    have after : next.blockFor number = next.put number := by
      apply blockFor_eq_put
      intro _ _ there
      cases ready.symm.trans there
    have before : state.blockFor number =
        if number + 1 = state.inserted then some block else state.put number := by
      simp only [blockFor, here]
    rw [after, put, before]
    by_cases last : number + 1 = state.inserted
    · have same : number = state.inserted - 1 := by omega
      rw [if_pos last, same, Function.update_self]
    · have other : number ≠ state.inserted - 1 := by omega
      rw [if_neg last, Function.update_of_ne other]

end Blocks

namespace ImplicitProducer

variable {ι α B : Type}

/-- An element was constructed and not taken out: nobody has claimed it, or the thread
that has comes to it yet. -/
def Alive (state : ImplicitProducer ι α B) (index : Nat) : Prop :=
  index < state.nextIndex ∧ (state.queue.queue.headIndex ≤ index ∨
    ∃ thread method point, state.queue.places thread = some (method, point) ∧ point.Left index)

/-- The block and the place of an element, with what it is. -/
def Holds (traits : Traits) (state : ImplicitProducer ι α B) (index : Nat) (cell : B × Nat)
    (element : α) : Prop :=
  state.Alive index ∧
    (state.queue.queue.elements ++ state.queue.queue.constructed)[index]? = some element ∧
    state.index.blockFor (index / traits.blockSize) = some cell.1 ∧
    index % traits.blockSize = cell.2

/-- A block has a place for an element of the producer: it is in use, or at hand. -/
def Stands (state : ImplicitProducer ι α B) (number : Nat) : Prop :=
  state.index.InUse number ∨
    ∃ entry block, state.index.producer = .storeValue entry block ∧
      number + 1 = state.index.inserted

/-- What is known of a producer's queue and index, and of the two together. -/
structure Consistent [Fintype ι] (traits : IndexTraits) (state : ImplicitProducer ι α B) :
    Prop where
  head : state.queue.queue.headIndex ≤ state.queue.queue.tailIndex
  stored : state.queue.queue.elements.length = state.queue.queue.tailIndex
  fits : ∀ thread method point, state.queue.places thread = some (method, point) →
    point.Fits traits.toTraits state.queue.queue method
  separate : state.queue.Separate
  recycled : state.queue.Recycled traits.toTraits
  kept : ∃ shift number, state.index.Kept traits shift number
  coupled : state.Coupled traits

namespace Consistent

variable [Fintype ι] {traits : IndexTraits} {state : ImplicitProducer ι α B}

/-- Different numbers stand for different blocks. -/
theorem stands_apart (consistent : state.Consistent traits) {one other : Nat} {block : B}
    (here : state.Stands one) (there : state.Stands other)
    (first : state.index.blockFor one = some block)
    (second : state.index.blockFor other = some block) : one = other := by
  obtain ⟨shift, number, kept⟩ := consistent.kept
  have coupled := consistent.coupled
  have atHand {last : Nat} {entry : Nat} {found : B}
      (storing : state.index.producer = .storeValue entry found)
      (ahead : last + 1 = state.index.inserted) : state.index.blockFor last = some found := by
    simp only [BlockIndex.Sharing.blockFor, storing, if_pos ahead]
  rcases here with used | ⟨entry, found, storing, ahead⟩
  · rw [kept.blockFor_used used] at first
    rcases there with used' | ⟨entry, found, storing, ahead⟩
    · rw [kept.blockFor_used used'] at second
      exact coupled.apart used used' (first.trans second.symm)
    · rw [atHand storing ahead] at second
      exact absurd (first.trans second.symm) (coupled.fresh storing used)
  · rw [atHand storing ahead] at first
    rcases there with used | ⟨_, _, _, ahead'⟩
    · rw [kept.blockFor_used used] at second
      exact absurd (second.trans first.symm) (coupled.fresh storing used)
    · exact Nat.succ.inj (ahead.trans ahead'.symm)

/-- The producer constructs elements in blocks that stand. -/
theorem stands_built (consistent : state.Consistent traits) (provided : state.Provided traits)
    {index : Nat} (low : state.queue.queue.tailIndex ≤ index) (high : index < state.newTailIndex) :
    state.Stands (index / traits.blockSize) := by
  have nonzero : 0 < traits.blockSize := Nat.lt_trans Nat.one_pos traits.large
  have below : index / traits.blockSize < state.index.inserted :=
    (Nat.div_lt_iff_lt_mul nonzero).mpr (high.trans_le provided.1)
  have free : index / traits.blockSize ∉ state.queue.queue.freed := by
    intro put
    have behind := consistent.recycled.freed_behind put
    have before := Nat.lt_div_mul_add (a := index) nonzero
    have head := consistent.head
    omega
  have live (published : index / traits.blockSize < state.index.committed) :
      state.index.Live (index / traits.blockSize) := by
    apply And.intro published
    cases freed : state.index.freed (index / traits.blockSize) with
    | false => rfl
    | true => exact absurd ((consistent.coupled.freed _).mp freed) free
  rcases Nat.lt_or_ge (index / traits.blockSize) state.index.committed with published | pending
  · exact .inl (.inr (live published))
  rcases provided.2 with ready | ⟨entry, block, storing, _⟩
  · left
    left
    rw [ready]
    exact ⟨pending, below⟩
  · rcases Nat.lt_or_ge (index / traits.blockSize + 1) state.index.inserted with early | last
    · left
      left
      rw [storing]
      exact ⟨pending, early⟩
    · exact .inr ⟨entry, block, storing, Nat.le_antisymm below last⟩

/-- What was published and is there still is in a live block. -/
theorem live_published (consistent : state.Consistent traits) {index : Nat}
    (alive : state.Alive index) (published : index < state.queue.queue.tailIndex) :
    state.index.Live (index / traits.blockSize) := by
  have nonzero : 0 < traits.blockSize := Nat.lt_trans Nat.one_pos traits.large
  have coupled := consistent.coupled
  have begins := Nat.div_mul_le_self index traits.blockSize
  have before := Nat.lt_div_mul_add (a := index) nonzero
  rcases alive.2 with unclaimed | ⟨thread, method, point, here, left⟩
  · constructor
    · exact Nat.lt_of_mul_lt_mul_right ((begins.trans_lt published).trans_le coupled.tail)
    · cases freed : state.index.freed (index / traits.blockSize) with
      | false => rfl
      | true =>
          have behind := consistent.recycled.freed_behind ((coupled.freed _).mp freed)
          omega
  · have fits := consistent.fits thread method point here
    have wanted {run : SubQueue.Run} (within : point.run = some run) (start : run.start ≤ index)
        (last : index < run.last)
        (others : index / traits.blockSize = run.block traits.toTraits →
          point.frees traits.toTraits = []) :
        state.index.Live (index / traits.blockSize) :=
      coupled.wanted consistent.recycled consistent.head here fits within
        (Nat.div_le_div_right start) (begins.trans_lt last) others
    cases point with
    | move run removed =>
        exact wanted rfl (fits.1.begun.trans left.1) left.2 fun _ => rfl
    | setEmpty run removed =>
        exact wanted rfl (fits.1.some.le.trans left.1) left.2 fun _ => rfl
    | free run removed =>
        refine wanted rfl (fits.1.some.le.trans left.1) left.2 fun own => ?_
        -- the run ends with its block, and the element is behind it
        have behind := fits.1.ends.resolve_left (left.1.trans_lt left.2).ne
        rw [SubQueue.Run.block] at own
        rw [← own] at behind
        have past : run.endIndex ≤ index := left.1
        omega
    | _ => exact left.elim

/-- An element that is not published was constructed where there are blocks. -/
theorem provided_of_unpublished (consistent : state.Consistent traits) {index : Nat}
    (alive : state.Alive index) (unpublished : state.queue.queue.tailIndex ≤ index) :
    state.Provided traits ∧ state.nextIndex ≤ state.newTailIndex := by
  rcases consistent.coupled.built with nothing | built
  · have before := alive.1
    rw [nextIndex, nothing] at before
    exact absurd before (Nat.not_lt.mpr unpublished)
  · exact built

/-- What is there is in a block that stands. -/
theorem stands (consistent : state.Consistent traits) {index : Nat} (alive : state.Alive index) :
    state.Stands (index / traits.blockSize) := by
  rcases Nat.lt_or_ge index state.queue.queue.tailIndex with published | unpublished
  · exact .inl (.inr (consistent.live_published alive published))
  · obtain ⟨provided, within⟩ := consistent.provided_of_unpublished alive unpublished
    exact consistent.stands_built provided unpublished (alive.1.trans_le within)

/-- The producer constructs the next element in the block that stands there. -/
theorem tailBlock_eq (consistent : state.Consistent traits) (provided : state.Provided traits)
    (more : state.nextIndex < state.newTailIndex) :
    state.tailBlock traits =
      state.index.blockFor (state.nextIndex / traits.blockSize) := by
  have nonzero : 0 < traits.blockSize := Nat.lt_trans Nat.one_pos traits.large
  unfold tailBlock
  rcases provided with ⟨enough, ready | ⟨entry, block, storing, single⟩⟩
  · simp only [BlockIndex.Sharing.blockFor, ready]
  · -- the one element of the method is the first one of its block
    have needed := consistent.coupled.needed
    rw [storing] at needed
    have first : (state.index.inserted - 1) * traits.blockSize < state.newTailIndex := needed
    have least : state.queue.queue.tailIndex ≤ state.nextIndex := Nat.le_add_right ..
    have next : state.nextIndex = state.queue.queue.tailIndex := by omega
    have below : state.nextIndex / traits.blockSize < state.index.inserted :=
      (Nat.div_lt_iff_lt_mul nonzero).mpr (more.trans_le enough)
    have above : state.index.inserted - 1 ≤ state.nextIndex / traits.blockSize :=
      (Nat.le_div_iff_mul_le nonzero).mpr (by omega)
    have last : state.nextIndex / traits.blockSize + 1 = state.index.inserted := by omega
    simp only [BlockIndex.Sharing.blockFor, storing, if_pos last]

/-- No two elements are in one place. -/
theorem separate_holds (consistent : state.Consistent traits) :
    Separate (state.Holds traits.toTraits) := by
  rintro one other cell first second ⟨here, _, block, place⟩ ⟨there, _, block', place'⟩
  have same := consistent.stands_apart (consistent.stands here) (consistent.stands there)
    block block'
  rw [← Nat.div_add_mod one traits.blockSize, same, place, ← place', Nat.div_add_mod]

/-- There is a block for it. -/
theorem stands_some (consistent : state.Consistent traits) {number : Nat}
    (stands : state.Stands number) : ∃ block, state.index.blockFor number = some block := by
  obtain ⟨shift, known, kept⟩ := consistent.kept
  rcases stands with used | ⟨entry, block, storing, ahead⟩
  · obtain ⟨_, block, _, _, put⟩ := kept.stored number used
    exact ⟨block, (kept.blockFor_used used).trans put⟩
  · use block
    simp only [BlockIndex.Sharing.blockFor, storing, if_pos ahead]

/-- The place where the producer constructs the next element is empty. -/
theorem vacant (consistent : state.Consistent traits) {block : B}
    (provided : state.Provided traits) (more : state.nextIndex < state.newTailIndex)
    (there : state.tailBlock traits = some block) (other : Nat) (found : α) :
    ¬ state.Holds traits.toTraits other (block, state.nextIndex % traits.blockSize) found := by
  rintro ⟨alive, _, same, offset⟩
  have least : state.queue.queue.tailIndex ≤ state.nextIndex := Nat.le_add_right ..
  have own := consistent.stands_built provided least more
  rw [consistent.tailBlock_eq provided more] at there
  have number := consistent.stands_apart (consistent.stands alive) own same there
  have index : other = state.nextIndex := by
    rw [← Nat.div_add_mod other traits.blockSize, number, offset, Nat.div_add_mod]
  exact alive.1.ne index

/-- A thread inside a block of its run finds there the element it comes to. -/
theorem holds_inside (consistent : state.Consistent traits) {thread : ι} {lookup : Lookup B}
    {header position : Nat} {found : Option B} {method : SubQueue.Method} {run : SubQueue.Run}
    {removed : List α} (inside : state.Inside thread lookup header position found)
    (here : state.queue.places thread = some (method, .move run removed))
    (more : run.index ≠ run.endIndex) :
    ∃ block element, found = some block ∧
      state.queue.queue.elements[run.index]? = some element ∧
      state.Holds traits.toTraits run.index (block, run.index % traits.blockSize) element := by
  obtain ⟨shift, number, kept⟩ := consistent.kept
  obtain ⟨there, point⟩ := inside
  obtain ⟨_, _, _, placed, within, covers⟩ := consistent.coupled.places thread lookup there
  obtain ⟨⟩ := here.symm.trans placed
  obtain ⟨⟩ := within
  obtain ⟨some, live, known⟩ := kept.knows thread lookup there
  rw [point] at known
  have wanted := live _ ⟨Nat.le_refl _, Nat.lt_add_of_pos_right some⟩
  obtain ⟨entry, block, _, _, put⟩ := kept.stored _ (.inr wanted)
  -- the element is the next one of the run, which lies in this block
  have fits := (consistent.fits thread method _ here).1
  have begun := fits.begun
  have inside := fits.inside
  have upTo := fits.upTo
  have claimed := fits.claimed
  have ends := fits.block
  have low := Nat.div_mul_le_self run.start traits.blockSize
  have own : run.index / traits.blockSize = lookup.block := by
    rw [covers.block, SubQueue.Run.block]
    apply Nat.div_eq_of_lt_le (low.trans begun)
    rw [Nat.add_mul, Nat.one_mul]
    omega
  have before : run.index < state.queue.queue.elements.length := by
    have head := consistent.head
    rw [consistent.stored]
    omega
  have content := List.getElem?_eq_getElem before
  refine ⟨block, _, known.2.2.trans put, content, ⟨?_, ?_⟩, ?_, ?_, rfl⟩
  · rw [consistent.stored] at before
    exact before.trans_le (Nat.le_add_right ..)
  · exact .inr ⟨thread, method, _, here, Nat.le_refl _, by omega⟩
  · rw [List.getElem?_append_left before]
    exact content
  · rw [own, kept.blockFor_published wanted.1]
    exact put

end Consistent

section Steps

variable {traits : IndexTraits} {state : ImplicitProducer ι α B}

/-- The places hold what they held, where the same elements are there and have the same
blocks. -/
theorem represents_same (next : ImplicitProducer ι α B)
    (represents : Represents state.cells (state.Holds traits.toTraits))
    (cells : next.cells = state.cells) (alive : ∀ index, next.Alive index ↔ state.Alive index)
    (elements : next.queue.queue.elements ++ next.queue.queue.constructed =
      state.queue.queue.elements ++ state.queue.queue.constructed)
    (blocks : ∀ index, state.Alive index → next.index.blockFor (index / traits.blockSize) =
      state.index.blockFor (index / traits.blockSize)) :
    Represents next.cells (next.Holds traits.toTraits) := by
  rw [cells]
  apply represents.congr
  intro index cell element
  unfold Holds
  rw [alive, elements]
  exact and_congr_right fun here => by rw [blocks index here]

/-- An element comes to its place. -/
theorem Consistent.represents_construct [Fintype ι] [DecidableEq B]
    (consistent : state.Consistent traits)
    (represents : Represents state.cells (state.Holds traits.toTraits)) {block : B}
    (element : α) (provided : state.Provided traits) (more : state.nextIndex < state.newTailIndex)
    (there : state.tailBlock traits = some block) :
    Represents
      (Function.update state.cells (block, state.nextIndex % traits.blockSize) (some element))
      (Holds traits.toTraits { state with
        queue := { state.queue with queue := state.queue.queue.construct element }
        cells := Function.update state.cells (block, state.nextIndex % traits.blockSize)
          (some element) }) := by
  have least : state.queue.queue.tailIndex ≤ state.nextIndex := Nat.le_add_right ..
  have own := consistent.tailBlock_eq provided more
  rw [there] at own
  have length : (state.queue.queue.elements ++ state.queue.queue.constructed).length =
      state.nextIndex := by
    rw [List.length_append, consistent.stored]
    rfl
  have adds : ∀ other place found, Holds traits.toTraits { state with
        queue := { state.queue with queue := state.queue.queue.construct element }
        cells := Function.update state.cells (block, state.nextIndex % traits.blockSize)
          (some element) } other place found ↔
      state.Holds traits.toTraits other place found ∨ other = state.nextIndex ∧
        place = (block, state.nextIndex % traits.blockSize) ∧ found = element := by
    intro other place found
    unfold Holds Alive nextIndex
    change (other < state.queue.queue.tailIndex +
        (state.queue.queue.constructed ++ [element]).length ∧
      (state.queue.queue.headIndex ≤ other ∨ _)) ∧
      (state.queue.queue.elements ++ (state.queue.queue.constructed ++ [element]))[other]? =
        some found ∧ state.index.blockFor _ = _ ∧ _ ↔ _
    rw [List.length_append, ← List.append_assoc]
    change (other < state.nextIndex + 1 ∧ _) ∧ _ ↔ (other < state.nextIndex ∧ _) ∧ _ ∨
      other = state.nextIndex ∧ place = (block, state.nextIndex % traits.blockSize) ∧ _
    rcases Nat.lt_trichotomy other state.nextIndex with before | rfl | behind
    · rw [List.getElem?_append_left (length ▸ before)]
      simp only [before, Nat.lt_succ_of_lt before, before.ne, true_and, false_and, or_false]
    · have last : (state.queue.queue.elements ++ state.queue.queue.constructed ++
          [element])[state.nextIndex]? = some element := by
        rw [← length]
        exact List.getElem?_concat_length
      have unclaimed := consistent.head.trans least
      simp only [last, ← own, unclaimed, Nat.lt_succ_self, Nat.lt_irrefl, true_and, true_or,
        false_and, false_or, Option.some.injEq, Prod.ext_iff]
      exact ⟨fun ⟨content, same, offset⟩ => ⟨⟨same.symm, offset.symm⟩, content.symm⟩,
        fun ⟨⟨same, offset⟩, content⟩ => ⟨content.symm, same.symm, offset.symm⟩⟩
    · have beyond : ¬ other < state.nextIndex + 1 := by omega
      simp only [beyond, behind.ne', behind.not_gt, false_and, or_false]
  exact represents.put (consistent.vacant provided more there) adds

variable [DecidableEq ι]

/-- Where one thread moves, the same elements are there, if it comes to those it has
left, and claims those the head moves over. -/
theorem alive_dequeuing {thread : ι} {queue : SubQueue α}
    {place : Option (SubQueue.Method × SubQueue.Point α)}
    (tail : queue.tailIndex = state.queue.queue.tailIndex)
    (constructed : queue.constructed = state.queue.queue.constructed)
    (same : ∀ index, (queue.headIndex ≤ index ∨ ∃ method point,
        place = some (method, point) ∧ point.Left index) ↔
      (state.queue.queue.headIndex ≤ index ∨ ∃ method point,
        state.queue.places thread = some (method, point) ∧ point.Left index)) (index : Nat) :
    (state.dequeuing queue thread place).Alive index ↔ state.Alive index := by
  unfold Alive nextIndex
  change index < queue.tailIndex + queue.constructed.length ∧ (queue.headIndex ≤ index ∨
    ∃ other method point, state.queue.move thread place other = some (method, point) ∧
      point.Left index) ↔ _
  rw [tail, constructed]
  apply and_congr_right
  intro _
  constructor
  · rintro (unclaimed | ⟨other, method, point, here, left⟩)
    · exact ((same index).mp (.inl unclaimed)).imp id fun own => ⟨thread, own⟩
    · rcases state.queue.move_cases here with ⟨rfl, moved⟩ | ⟨_, before⟩
      · exact ((same index).mp (.inr ⟨method, point, moved, left⟩)).imp id fun own => ⟨_, own⟩
      · exact .inr ⟨other, method, point, before, left⟩
  · have moved := Function.update_self thread place state.queue.places
    rintro (unclaimed | ⟨other, method, point, here, left⟩)
    · refine ((same index).mpr (.inl unclaimed)).imp id ?_
      rintro ⟨method, point, now, left⟩
      exact ⟨thread, method, point, moved.trans now, left⟩
    · rcases eq_or_ne other thread with rfl | elsewhere
      · refine ((same index).mpr (.inr ⟨method, point, here, left⟩)).imp id ?_
        rintro ⟨method, point, now, left⟩
        exact ⟨other, method, point, moved.trans now, left⟩
      · exact .inr ⟨other, method, point, (Function.update_of_ne elsewhere ..).trans here, left⟩

/-- A thread goes on and takes nothing out. -/
theorem alive_advance {thread : ι} {method : SubQueue.Method} {point after : SubQueue.Point α}
    {queue : SubQueue α} (here : state.queue.places thread = some (method, point))
    (fits : point.Fits traits.toTraits state.queue.queue method)
    (moves : state.queue.queue.advance traits.toTraits method point = some (queue, after))
    (still : ∀ run removed, point = .move run removed → run.index = run.endIndex) (index : Nat) :
    (state.dequeuing queue thread (some (method, after))).Alive index ↔ state.Alive index := by
  obtain ⟨_, tail, _, constructed⟩ := SubQueue.advance_grows moves
  have at_point {other : SubQueue.Point α} {index : Nat} : (∃ another point,
      some (method, other) = some (another, point) ∧ point.Left index) ↔ other.Left index := by
    constructor
    · rintro ⟨_, _, ⟨⟩, left⟩
      exact left
    · exact fun left => ⟨method, other, rfl, left⟩
  apply alive_dequeuing tail constructed
  intro index
  rw [here, at_point, at_point, SubQueue.advance_left_iff fits moves index]
  exact and_iff_left fun run removed moving unended => absurd (still run removed moving) unended

/-- A thread takes an element out. -/
theorem alive_take (apart : state.queue.Separate) {thread : ι} {method : SubQueue.Method}
    {run : SubQueue.Run} {removed : List α}
    (here : state.queue.places thread = some (method, .move run removed))
    (fits : run.Fits traits.toTraits state.queue.queue.headIndex) (element : α)
    (more : run.index ≠ run.endIndex) (index : Nat) :
    (state.dequeuing state.queue.queue thread (some (method,
        .move { run with index := run.index + 1 } (removed ++ [element])))).Alive index ↔
      state.Alive index ∧ index ≠ run.index := by
  have inside := fits.inside
  have upTo := fits.upTo
  have claimed := fits.claimed
  have last : run.index < run.last := by omega
  unfold Alive
  rw [and_assoc]
  apply and_congr_right
  intro _
  constructor
  · rintro (unclaimed | ⟨other, another, point, there, left⟩)
    · change state.queue.queue.headIndex ≤ index at unclaimed
      exact ⟨.inl unclaimed, by omega⟩
    · rcases state.queue.move_cases there with ⟨rfl, moved⟩ | ⟨elsewhere, before⟩
      · obtain ⟨⟩ := moved
        have behind : run.index + 1 ≤ index := left.1
        exact ⟨.inr ⟨_, _, _, here, by omega, left.2⟩, by omega⟩
      · refine ⟨.inr ⟨other, another, point, before, left⟩, ?_⟩
        rintro rfl
        exact apart.apart elsewhere before here left ⟨Nat.le_refl _, last⟩
  · rintro ⟨unclaimed | ⟨other, another, point, there, left⟩, distinct⟩
    · exact .inl unclaimed
    · rcases eq_or_ne other thread with rfl | elsewhere
      · obtain ⟨⟩ := here.symm.trans there
        have from_here : run.index ≤ index := left.1
        refine .inr ⟨other, method, _, Function.update_self .., ?_, left.2⟩
        change run.index + 1 ≤ index
        omega
      · exact .inr ⟨other, another, point, (Function.update_of_ne elsewhere ..).trans there, left⟩

section Kept

variable [Fintype ι] {index : BlockIndex.Sharing ι B} {event : BlockIndex.Event ι B}

/-- The producer's steps on the index leave elements in their places. -/
theorem Consistent.represents_produce (consistent : state.Consistent traits)
    (represents : Represents state.cells (state.Holds traits.toTraits))
    (allowed : state.Produces traits event)
    (moves : BlockIndex.Sharing.Step traits state.index event index) :
    Represents state.cells (Holds traits.toTraits { state with index }) := by
  obtain ⟨shift, number, kept⟩ := consistent.kept
  refine represents_same { state with index } represents rfl (fun _ => Iff.rfl) rfl
    fun place alive => ?_
  apply kept.blockFor_step moves allowed.internal
  rcases Nat.lt_or_ge place state.queue.queue.tailIndex with published | unpublished
  · exact .inl (consistent.live_published alive published).1
  · obtain ⟨⟨_, stage⟩, _⟩ := consistent.provided_of_unpublished alive unpublished
    refine .inr ⟨?_, fun entry here => ?_⟩
    · rintro rfl
      exact allowed
    · rcases stage with ready | ⟨_, _, storing, _⟩
      · cases ready.symm.trans here
      · cases storing.symm.trans here

variable [DecidableEq B]

/-- Where a method fails, the elements it constructed leave their places. -/
theorem Consistent.represents_fail (consistent : state.Consistent traits)
    (represents : Represents state.cells (state.Holds traits.toTraits))
    (fails : state.Fails event)
    (moves : BlockIndex.Sharing.Step traits state.index event index) :
    Represents (state.destroyed traits) (Holds traits.toTraits
      { queue := { state.queue with queue := state.queue.queue.discard }
        index
        newTailIndex := state.queue.queue.tailIndex
        cells := state.destroyed traits }) := by
  obtain ⟨shift, number, kept⟩ := consistent.kept
  have stored := consistent.stored
  have head := consistent.head
  -- the elements that go are in blocks which were put in
  have putIn {place : Nat} (unpublished : state.queue.queue.tailIndex ≤ place)
      (alive : state.Alive place) : state.index.blockFor (place / traits.blockSize) =
        state.index.put (place / traits.blockSize) := by
    apply BlockIndex.Sharing.blockFor_eq_put
    intro entry block storing
    have quiet : event = .throw := by
      cases moves with
      | throw => rfl
      | refuse here | exhausted here | revert here => cases here.symm.trans storing
      | _ => exact fails.elim
    subst quiet
    have nothing : state.queue.queue.constructed = [] := fails
    have before := alive.1
    rw [nextIndex, nothing] at before
    exact absurd before (Nat.not_lt.mpr unpublished)
  refine represents.clear consistent.separate_holds
    (fun {place cell element} (gone : state.queue.queue.tailIndex ≤ place) here => ?_)
    (fun {cell} still => ?_) (fun place cell element => ?_)
  · obtain ⟨alive, _, block, offset⟩ := here
    refine if_pos ⟨place - state.queue.queue.tailIndex, ?_, ?_⟩
    · have before := alive.1
      unfold nextIndex at before
      omega
    · rw [Nat.add_sub_cancel' gone, ← putIn gone alive]
      exact ⟨block, offset⟩
  · apply if_neg
    rintro ⟨count, before, put, offset⟩
    have later := Nat.le_add_right state.queue.queue.tailIndex count
    have alive : state.Alive (state.queue.queue.tailIndex + count) :=
      ⟨Nat.add_lt_add_left before _, .inl (head.trans later)⟩
    refine still _ state.queue.queue.constructed[count] later ⟨alive, ?_, ?_, offset⟩
    · rw [← stored, List.getElem?_append_right (Nat.le_add_right ..), Nat.add_sub_cancel_left]
      exact List.getElem?_eq_getElem before
    · rw [putIn later alive]
      exact put
  · have first (published : place < state.queue.queue.tailIndex) :
        (state.queue.queue.elements ++ state.queue.queue.constructed)[place]? =
          (state.queue.queue.elements ++ [])[place]? := by
      rw [List.append_nil, List.getElem?_append_left (stored ▸ published)]
    have block (published : place < state.queue.queue.tailIndex) (alive : state.Alive place) :
        index.blockFor (place / traits.blockSize) =
          state.index.blockFor (place / traits.blockSize) :=
      kept.blockFor_step moves fails.internal
        (.inl (consistent.live_published alive published).1)
    constructor
    · rintro ⟨⟨published, there⟩, content, same, offset⟩
      change place < state.queue.queue.tailIndex at published
      have alive : state.Alive place := ⟨published.trans_le (Nat.le_add_right ..), there⟩
      refine ⟨⟨alive, ?_, ?_, offset⟩, Nat.not_le.mpr published⟩
      · exact (first published).trans content
      · exact (block published alive).symm.trans same
    · rintro ⟨⟨alive, content, same, offset⟩, still⟩
      have published := Nat.not_le.mp still
      refine ⟨⟨published, alive.2⟩, ?_, ?_, offset⟩
      · exact (first published).symm.trans content
      · exact (block published alive).trans same

/-- An element leaves its place. -/
theorem Consistent.represents_take (consistent : state.Consistent traits)
    (represents : Represents state.cells (state.Holds traits.toTraits)) {thread : ι}
    {method : SubQueue.Method} {run : SubQueue.Run} {removed : List α} {lookup : Lookup B}
    {header position : Nat} {block : B} {element : α}
    (here : state.queue.places thread = some (method, .move run removed))
    (inside : state.Inside thread lookup header position (some block))
    (more : run.index ≠ run.endIndex) :
    Represents (Function.update state.cells (block, run.index % traits.blockSize) none)
      (Holds traits.toTraits
        { state.dequeuing state.queue.queue thread
            (some (method, .move { run with index := run.index + 1 } (removed ++ [element]))) with
          cells := Function.update state.cells (block, run.index % traits.blockSize) none }) := by
  obtain ⟨_, found, ⟨⟩, _, holds⟩ := consistent.holds_inside inside here more
  refine represents.remove consistent.separate_holds holds ?_ fun other place value => ?_
  · rintro place value ⟨_, _, same, offset⟩
    exact Prod.ext (Option.some.inj (same.symm.trans holds.2.2.1)) offset.symm
  · have fits := (consistent.fits thread method _ here).1
    have alive := alive_take consistent.separate here fits element more other
    unfold Holds
    change Alive (state.dequeuing _ thread _) other ∧ _ ↔ _
    rw [alive, and_assoc, and_assoc, and_comm (a := other ≠ run.index)]
    simp only [and_assoc]
    rfl

/-- Whatever happens, elements stay in their places until they are taken out. -/
theorem Consistent.represents_step (consistent : state.Consistent traits)
    (represents : Represents state.cells (state.Holds traits.toTraits))
    {next : ImplicitProducer ι α B} {event : Event ι α B}
    (transition : Step traits state event next) :
    Represents next.cells (next.Holds traits.toTraits) := by
  have stays {thread : ι} {method : SubQueue.Method} {point after : SubQueue.Point α}
      {queue : SubQueue α} (index : BlockIndex.Sharing ι B)
      (here : state.queue.places thread = some (method, point))
      (moves : state.queue.queue.advance traits.toTraits method point = some (queue, after))
      (still : ∀ run removed, point = .move run removed → run.index = run.endIndex)
      (blocks : ∀ number, index.blockFor number = state.index.blockFor number) :
      Represents state.cells (Holds traits.toTraits
        { state.dequeuing queue thread (some (method, after)) with index }) := by
    obtain ⟨_, _, elements, constructed⟩ := SubQueue.advance_grows moves
    have fits := consistent.fits thread method point here
    refine represents_same { state.dequeuing queue thread (some (method, after)) with index }
      represents rfl (alive_advance here fits moves still) ?_ fun _ _ => blocks _
    change queue.elements ++ queue.constructed = _
    rw [elements, constructed]
  cases transition with
  | enqueue => exact represents_same _ represents rfl (fun _ => Iff.rfl) rfl fun _ _ => rfl
  | produce allowed moves => exact consistent.represents_produce represents allowed moves
  | fail fails moves => exact consistent.represents_fail represents fails moves
  | construct element provided more there =>
      exact consistent.represents_construct represents element provided more there
  | publish provided ready all =>
      refine represents_same _ represents rfl (fun place => ?_) ?_ fun _ _ => ?_
      · unfold Alive nextIndex
        rfl
      · exact List.append_nil _
      · simp only [BlockIndex.Sharing.blockFor, ready]
  | @call thread method idle =>
      refine represents_same _ represents rfl (alive_dequeuing rfl rfl fun place => ?_) rfl
        fun _ _ => rfl
      rw [idle]
      apply or_congr_right
      constructor
      · rintro ⟨_, _, ⟨⟩, left⟩
        exact left.elim
      · rintro ⟨_, _, none, _⟩
        cases none
  | advance here outside moves =>
      refine stays state.index here moves ?_ fun _ => rfl
      rintro run removed rfl
      cases outside
  | lookup => exact represents_same _ represents rfl (fun _ => Iff.rfl) rfl fun _ _ => rfl
  | look => exact represents_same _ represents rfl (fun _ => Iff.rfl) rfl fun _ _ => rfl
  | take here inside more => exact consistent.represents_take represents here inside more
  | @ended thread method run removed _ _ _ _ here _ all =>
      have moves : state.queue.queue.advance traits.toTraits method (.move run removed) =
          some (state.queue.queue, .setEmpty run removed) := if_pos all
      refine stays state.index here moves ?_ fun _ => rfl
      rintro _ _ ⟨⟩
      exact all
  | last here _ moves => exact stays state.index here moves nofun fun _ => rfl
  | leave here _ moves => exact stays _ here moves nofun fun _ => rfl
  | free here _ moves => exact stays _ here moves nofun fun _ => rfl
  | @finish thread method removed here =>
      refine represents_same _ represents rfl (alive_dequeuing rfl rfl fun place => ?_) rfl
        fun _ _ => rfl
      rw [here]
      apply or_congr_right
      constructor
      · rintro ⟨_, _, none, _⟩
        cases none
      · rintro ⟨_, _, ⟨⟩, left⟩
        exact left.elim

end Kept

end Steps

end ImplicitProducer

end Traft.Moodycamel
