import Traft.ConcurrentQueue.BlockIndex
import Traft.Semantics.Circular
import Mathlib.Data.Nat.ModEq
import Mathlib.Tactic.LinearCombination

/-!
# Which entry is whose

Each entry of the block index is for one block at a time, and its position in a
header tells the block's number up to multiples of the capacity, in the latest
header as well as in those before. What the producer inserts or takes back changes
nothing of this, and of no entry that is in use.
-/

namespace Traft.Moodycamel.BlockIndex

open Traft.Semantics

/-- The base of a block differs from its first index by whole rounds of a word. -/
theorem base_congr (traits : Traits) (block : Nat) :
    (2 ^ 64 : Int) ∣ traits.base block - block * traits.blockSize := by
  refine ⟨-(block * traits.blockSize / 2 ^ 64 : Nat), ?_⟩
  have division := Nat.mod_add_div (block * traits.blockSize) (2 ^ 64)
  rw [Traits.base, ← Nat.cast_mul]
  omega

/-- The number of blocks between two, as computed from their bases, is right up to
multiples of the capacity, if those words are told apart that the index can hold. -/
theorem offset_congr {traits : Traits} {capacity : Nat} (block known : Nat)
    (range : capacity * traits.blockSize ∣ 2 ^ 64) :
    (capacity : Int) ∣ ((traits.base block - traits.base known : Int).bmod (2 ^ 64)).tdiv
      traits.blockSize - (block - known) := by
  have size : (traits.blockSize : Int) ≠ 0 := by
    have large := traits.large
    omega
  obtain ⟨rounds, whole⟩ := range
  have whole : (2 ^ 64 : Int) = capacity * traits.blockSize * rounds := by exact_mod_cast whole
  have signed : (2 ^ 64 : Int) ∣
      (traits.base block - traits.base known : Int).bmod (2 ^ 64) -
        (traits.base block - traits.base known) := Int.dvd_bmod_sub_self
  obtain ⟨times, apart⟩ := Int.dvd_add signed
    (Int.dvd_sub (base_congr traits block) (base_congr traits known))
  have exact : (traits.base block - traits.base known : Int).bmod (2 ^ 64) =
      traits.blockSize * (block - known + capacity * (rounds * times)) := by
    rw [whole] at apart
    linear_combination apart
  rw [exact, Int.mul_tdiv_cancel_left _ size]
  exact ⟨rounds * times, add_sub_cancel_left _ _⟩

/-- So the position computed for a block is its own. -/
theorem position_belongs {traits : Traits} {capacity tail : Nat} {shift : Int} (block known : Nat)
    (some : 0 < capacity) (range : capacity * traits.blockSize ∣ 2 ^ 64)
    (here : Belongs capacity shift tail known) :
    Belongs capacity shift
      (position traits capacity tail (traits.base known) (traits.base block)) block := by
  have found := here.seek some (block - known) (offset_congr block known range)
  rwa [show (known + (block - known) : Int) = block by omega] at found

/-- It is one of the index. -/
theorem position_lt (traits : Traits) {capacity : Nat} (some : 0 < capacity)
    (tail tailBase base : Nat) : position traits capacity tail tailBase base < capacity := by
  have positive : (0 : Int) < capacity := Int.natCast_pos.mpr some
  rw [position, Int.toNat_lt (Int.emod_nonneg _ positive.ne')]
  exact Int.emod_lt_of_pos _ positive

variable {B : Type}

/-- The headers: each has twice the capacity of the one before, and the entries of
all are those of the latest, where their positions belong to no other numbers. -/
structure Shaped (traits : IndexTraits) (index : BlockIndex B) (shift : Nat → Int) : Prop where
  capacity : ∀ header ≤ index.blockIndex,
    (index.header header).capacity = traits.initialIndexSize * 2 ^ header
  next : index.nextBlockIndexCapacity = 2 * index.current.capacity
  tail : ∀ header ≤ index.blockIndex, (index.header header).tail < (index.header header).capacity
  allocated : ∀ position < index.current.capacity,
    index.current.index position < index.entryCount
  distinct : ∀ position < index.current.capacity, ∀ other < index.current.capacity,
    index.current.index position = index.current.index other → position = other
  carried : ∀ header ≤ index.blockIndex, ∀ position < (index.header header).capacity,
    ∃ here < index.current.capacity,
      index.current.index here = (index.header header).index position ∧
      ∀ number, Belongs index.current.capacity (shift index.blockIndex) here number →
        Belongs (index.header header).capacity (shift header) position number

/-- Which block each entry is for: its key is the base of that block, or invalid,
and the number belongs to its position. -/
structure Numbered (traits : IndexTraits) (index : BlockIndex B) (shift : Nat → Int)
    (number : Nat → Option Nat) : Prop where
  keys : ∀ entry, index.key entry = (number entry).elim invalidBlockBase traits.base
  unused : ∀ entry, number entry = none → index.value entry = none
  fresh : ∀ entry, index.entryCount ≤ entry → number entry = none
  belongs : ∀ position < index.current.capacity, ∀ block,
    number (index.current.index position) = some block →
      Belongs index.current.capacity (shift index.blockIndex) position block

/-- The latest header has an entry for a block. -/
structure Has (index : BlockIndex B) (number : Nat → Option Nat) (entry block : Nat) : Prop where
  number : number entry = some block
  listed : ∃ position < index.current.capacity, index.current.index position = entry

/-- What the latest header holds, where `inserted` blocks are. None of them is more
than the capacity behind; those ahead were taken back, all up to them, and have no
values, except for those that are still to be taken back; from the first one on the
array is filled up to its tail, and so is that of each header before. -/
structure Windowed (index : BlockIndex B) (shift : Nat → Int) (number : Nat → Option Nat)
    (inserted : Nat) (undoing : Nat → Prop) : Prop where
  tail : Belongs index.current.capacity (shift index.blockIndex) index.current.tail
    (inserted - 1 : Int)
  recent : ∀ {entry block}, index.Has number entry block →
    inserted ≤ block + index.current.capacity
  ahead : ∀ {entry block}, index.Has number entry block → ∀ other, inserted ≤ other →
    other ≤ block → ∃ there, index.Has number there other ∧
      (index.value there = none ∨ undoing other)
  filled : ∀ {entry block}, index.Has number entry block → ∀ other, block ≤ other →
    other < inserted → ∃ position < index.current.capacity,
      Belongs index.current.capacity (shift index.blockIndex) position other ∧
        ∃ last, number (index.current.index position) = some last
  before : ∀ header < index.blockIndex, ∃ last,
    number ((index.header header).index (index.header header).tail) = some last

namespace Shaped

variable {traits : IndexTraits} {index : BlockIndex B} {shift : Nat → Int}

/-- No header is empty. -/
theorem capacity_pos (shaped : index.Shaped traits shift) {header : Nat}
    (before : header ≤ index.blockIndex) : 0 < (index.header header).capacity := by
  rw [shaped.capacity header before]
  exact Nat.mul_pos (Nat.lt_trans Nat.one_pos traits.initialLarge) (Nat.two_pow_pos header)

/-- The capacities of earlier headers divide that of the latest. -/
theorem capacity_dvd (shaped : index.Shaped traits shift) {header : Nat}
    (before : header ≤ index.blockIndex) :
    (index.header header).capacity ∣ index.current.capacity := by
  rw [current, shaped.capacity header before, shaped.capacity _ (Nat.le_refl _)]
  exact Nat.mul_dvd_mul_left _ (Nat.pow_dvd_pow 2 before)

end Shaped

section Headers

variable (index : BlockIndex B) (tail header : Nat)

/-- A set tail is that of the latest header. -/
@[simp] theorem setTail_current :
    (index.setTail tail).current = { index.current with tail } :=
  Function.update_self ..

/-- The entries of a header stay when a tail is set. -/
@[simp] theorem setTail_index :
    ((index.setTail tail).header header).index = (index.header header).index := by
  simp only [setTail, current, Function.update_apply]
  split
  · rename_i latest
    rw [latest]
  · rfl

/-- So does its capacity. -/
@[simp] theorem setTail_capacity :
    ((index.setTail tail).header header).capacity = (index.header header).capacity := by
  simp only [setTail, current, Function.update_apply]
  split
  · rename_i latest
    rw [latest]
  · rfl

/-- The tails of the other headers stay. -/
theorem setTail_before (before : header < index.blockIndex) :
    (index.setTail tail).header header = index.header header :=
  Function.update_of_ne before.ne ..

/-- A built header is the latest one. -/
@[simp] theorem newBlockIndex_current : index.newBlockIndex.current = index.newHeader :=
  Function.update_self ..

/-- The headers before are kept. -/
theorem newBlockIndex_before (before : header ≤ index.blockIndex) :
    index.newBlockIndex.header header = index.header header :=
  Function.update_of_ne (Nat.lt_succ_of_le before).ne ..

end Headers

section Operations

variable {traits : IndexTraits} {index : BlockIndex B} {shift : Nat → Int}
  {number : Nat → Option Nat} {inserted : Nat} {undoing : Nat → Prop}

/-- The tail of the latest header may be set within it. -/
theorem Shaped.setTail (shaped : index.Shaped traits shift) {tail : Nat}
    (inside : tail < index.current.capacity) : (index.setTail tail).Shaped traits shift where
  capacity header before := by
    rw [setTail_capacity]
    exact shaped.capacity header before
  next := by
    rw [setTail_current]
    exact shaped.next
  tail header before := by
    rw [setTail_capacity]
    rcases Nat.lt_or_eq_of_le before with earlier | rfl
    · rw [setTail_before index tail header earlier]
      exact shaped.tail header before
    · rw [← current, setTail_current]
      exact inside
  allocated := by
    rw [setTail_current]
    exact shaped.allocated
  distinct := by
    rw [setTail_current]
    exact shaped.distinct
  carried header before := by
    rw [setTail_capacity, setTail_index, setTail_current]
    exact shaped.carried header before

/-- Bases are never invalid. -/
theorem base_ne_invalid (traits : Traits) (block : Nat) : traits.base block ≠ invalidBlockBase := by
  have even : 2 ∣ traits.base block := by
    obtain ⟨exponent, power⟩ := traits.power
    have large := traits.large
    rw [power] at large
    have positive : exponent ≠ 0 := by
      rintro rfl
      exact Nat.lt_irrefl 1 large
    rw [Traits.base, power]
    apply (Nat.dvd_mod_iff (by decide)).mpr
    exact Nat.dvd_mul_left_of_dvd (dvd_pow_self 2 positive) block
  intro invalid
  rw [invalid] at even
  exact absurd even (by decide)

/-- An entry whose key is invalid or whose value is cleared has no value. -/
theorem Numbered.free (numbered : index.Numbered traits shift number) {entry : Nat}
    (free : index.key entry = invalidBlockBase ∨ index.value entry = none) :
    index.value entry = none := by
  rcases free with invalid | cleared
  · apply numbered.unused
    cases known : number entry with
    | none => rfl
    | some block =>
        rw [numbered.keys, known] at invalid
        exact absurd invalid (base_ne_invalid _ block)
  · exact cleared

/-- So the entries are for the same blocks. -/
theorem Numbered.setTail (numbered : index.Numbered traits shift number) (tail : Nat) :
    (index.setTail tail).Numbered traits shift number where
  keys := numbered.keys
  unused := numbered.unused
  fresh := numbered.fresh
  belongs := by
    rw [setTail_current]
    exact numbered.belongs

/-- The latest header has an entry for a block whatever its tail is. -/
theorem has_setTail {tail entry block : Nat} :
    (index.setTail tail).Has number entry block ↔ index.Has number entry block := by
  constructor
  · rintro ⟨known, listed⟩
    rw [setTail_current] at listed
    exact ⟨known, listed⟩
  · rintro ⟨known, listed⟩
    refine ⟨known, ?_⟩
    rw [setTail_current]
    exact listed

/-- A position of the latest header has one entry, and a block one position. -/
theorem Has.unique (numbered : index.Numbered traits shift number) {entry other block : Nat}
    (here : index.Has number entry block) (there : index.Has number other block) :
    entry = other := by
  obtain ⟨known, position, inside, rfl⟩ := here
  obtain ⟨again, elsewhere, within, rfl⟩ := there
  have same := (numbered.belongs position inside block known).unique
    (numbered.belongs elsewhere within block again) inside within
  rw [same]

/-- The entry for a block is at the position for it. -/
theorem Has.index_eq (numbered : index.Numbered traits shift number)
    {entry block position : Nat} (has : index.Has number entry block)
    (inside : position < index.current.capacity)
    (belongs : Belongs index.current.capacity (shift index.blockIndex) position block) :
    index.current.index position = entry := by
  obtain ⟨known, there, within, rfl⟩ := has
  rw [belongs.unique (numbered.belongs there within block known) inside within]

/-- Behind the tail is the position of the next block. -/
theorem Windowed.newTail_belongs (windowed : index.Windowed shift number inserted undoing) :
    Belongs index.current.capacity (shift index.blockIndex) index.current.newTail inserted := by
  have next := windowed.tail.succ
  rwa [Int.sub_add_cancel] at next

/-- It is one of the index. -/
theorem Shaped.newTail_lt (shaped : index.Shaped traits shift) :
    index.current.newTail < index.current.capacity :=
  Nat.mod_lt _ (shaped.capacity_pos (Nat.le_refl _))

/-- An entry that is not in use may be given the next block's base. -/
theorem Numbered.setKey (numbered : index.Numbered traits shift number)
    (shaped : index.Shaped traits shift)
    (windowed : index.Windowed shift number inserted undoing) :
    (index.setKey (index.current.index index.current.newTail) (traits.base inserted)).Numbered
      traits shift
      (Function.update number (index.current.index index.current.newTail) (some inserted)) where
  keys entry := by
    by_cases same : entry = index.current.index index.current.newTail
    · subst same
      rw [Function.update_self]
      exact Function.update_self ..
    · rw [Function.update_of_ne same]
      exact (Function.update_of_ne same ..).trans (numbered.keys entry)
  unused entry none := by
    by_cases same : entry = index.current.index index.current.newTail
    · subst same
      rw [Function.update_self] at none
      cases none
    · rw [Function.update_of_ne same] at none
      exact numbered.unused entry none
  fresh entry behind := by
    have allocated := shaped.allocated _ shaped.newTail_lt
    have other : entry ≠ index.current.index index.current.newTail := by
      rintro rfl
      exact Nat.not_lt.mpr behind allocated
    rw [Function.update_of_ne other]
    exact numbered.fresh entry behind
  belongs position inside block known := by
    by_cases same : position = index.current.newTail
    · subst same
      change Function.update number (index.current.index index.current.newTail) (some inserted)
        (index.current.index index.current.newTail) = some block at known
      rw [Function.update_self] at known
      obtain rfl := Option.some.inj known
      exact windowed.newTail_belongs
    · have other : index.current.index position ≠ index.current.index index.current.newTail :=
        fun equal => same (shaped.distinct position inside _ shaped.newTail_lt equal)
      have before : number (index.current.index position) = some block :=
        (Function.update_of_ne other ..).symm.trans known
      exact numbered.belongs position inside block before

/-- The entry with the new base is for the next block, the others are for what they
were. -/
theorem has_setKey (shaped : index.Shaped traits shift) {entry block key : Nat} :
    (index.setKey (index.current.index index.current.newTail) key).Has
        (Function.update number (index.current.index index.current.newTail) (some inserted))
        entry block ↔
      entry = index.current.index index.current.newTail ∧ block = inserted ∨
        entry ≠ index.current.index index.current.newTail ∧ index.Has number entry block := by
  constructor
  · rintro ⟨known, listed⟩
    by_cases same : entry = index.current.index index.current.newTail
    · subst same
      rw [Function.update_self] at known
      exact .inl ⟨rfl, (Option.some.inj known).symm⟩
    · rw [Function.update_of_ne same] at known
      exact .inr ⟨same, known, listed⟩
  · rintro (⟨rfl, rfl⟩ | ⟨other, known, listed⟩)
    · exact ⟨Function.update_self .., _, shaped.newTail_lt, rfl⟩
    · exact ⟨(Function.update_of_ne other ..).trans known, listed⟩

/-- A value may go, or be put into an entry that is for a block. -/
theorem Numbered.setValue (numbered : index.Numbered traits shift number) {entry : Nat}
    {value : Option B} (known : value = none ∨ number entry ≠ none) :
    (index.setValue entry value).Numbered traits shift number where
  keys := numbered.keys
  unused other unknown := by
    by_cases same : other = entry
    · subst same
      exact (Function.update_self ..).trans (known.resolve_right (absurd unknown))
    · exact (Function.update_of_ne same ..).trans (numbered.unused other unknown)
  fresh := numbered.fresh
  belongs := numbered.belongs

/-- The headers stay when a value is set. -/
theorem Shaped.setValue (shaped : index.Shaped traits shift) (entry : Nat) (value : Option B) :
    (index.setValue entry value).Shaped traits shift :=
  ⟨shaped.capacity, shaped.next, shaped.tail, shaped.allocated, shaped.distinct, shaped.carried⟩

/-- So they do when a key is set. -/
theorem Shaped.setKey (shaped : index.Shaped traits shift) (entry key : Nat) :
    (index.setKey entry key).Shaped traits shift :=
  ⟨shaped.capacity, shaped.next, shaped.tail, shaped.allocated, shaped.distinct, shaped.carried⟩

/-- The latest header has its entries whatever their values are. -/
theorem has_setValue {entry : Nat} {value : Option B} {there block : Nat} :
    (index.setValue entry value).Has number there block ↔ index.Has number there block :=
  ⟨fun has => ⟨has.number, has.listed⟩, fun has => ⟨has.number, has.listed⟩⟩

/-- What the header holds is as before, with the next block ahead. -/
theorem Windowed.setKey (windowed : index.Windowed shift number inserted undoing)
    (shaped : index.Shaped traits shift) (numbered : index.Numbered traits shift number)
    (free : index.value (index.current.index index.current.newTail) = none) (key : Nat) :
    (index.setKey (index.current.index index.current.newTail) key).Windowed shift
      (Function.update number (index.current.index index.current.newTail) (some inserted))
      inserted undoing where
  tail := windowed.tail
  recent has := by
    rcases (has_setKey shaped).mp has with ⟨_, rfl⟩ | ⟨_, before⟩
    · exact Nat.le_add_right ..
    · exact windowed.recent before
  ahead has other low high := by
    have next : ∃ there, (index.setKey (index.current.index index.current.newTail) key).Has
        (Function.update number (index.current.index index.current.newTail) (some inserted))
        there inserted ∧ (index.value there = none ∨ undoing inserted) :=
      ⟨_, (has_setKey shaped).mpr (.inl ⟨rfl, rfl⟩), .inl free⟩
    rcases (has_setKey shaped).mp has with ⟨_, rfl⟩ | ⟨_, before⟩
    · obtain rfl := Nat.le_antisymm high low
      exact next
    · obtain ⟨there, found, clear⟩ := windowed.ahead before other low high
      by_cases same : there = index.current.index index.current.newTail
      · -- the entry behind the tail was for the next block already
        obtain ⟨first, again, _⟩ := windowed.ahead before inserted (Nat.le_refl _) (low.trans high)
        have here := again.index_eq numbered shaped.newTail_lt windowed.newTail_belongs
        obtain rfl : other = inserted := by
          have known := found.number
          rw [same, here, again.number] at known
          exact (Option.some.inj known).symm
        exact next
      · exact ⟨there, (has_setKey shaped).mpr (.inr ⟨same, found⟩), clear⟩
  filled has other low high := by
    rcases (has_setKey shaped).mp has with ⟨_, rfl⟩ | ⟨_, before⟩
    · omega
    · obtain ⟨position, inside, belongs, last, known⟩ := windowed.filled before other low high
      refine ⟨position, inside, belongs, ?_⟩
      by_cases same : index.current.index position = index.current.index index.current.newTail
      · exact ⟨inserted, (congrArg _ same).trans (Function.update_self ..)⟩
      · exact ⟨last, (Function.update_of_ne same ..).trans known⟩
  before header earlier := by
    obtain ⟨last, known⟩ := windowed.before header earlier
    by_cases same : (index.header header).index (index.header header).tail =
        index.current.index index.current.newTail
    · exact ⟨inserted, (congrArg _ same).trans (Function.update_self ..)⟩
    · exact ⟨last, (Function.update_of_ne same ..).trans known⟩

/-- The tail moves over the next block, which has its entry. -/
theorem Windowed.storeTail (windowed : index.Windowed shift number inserted undoing)
    (shaped : index.Shaped traits shift) (numbered : index.Numbered traits shift number)
    (known : number (index.current.index index.current.newTail) = some inserted) :
    (index.setTail index.current.newTail).Windowed shift number (inserted + 1) undoing where
  tail := by
    rw [setTail_current]
    have next := windowed.newTail_belongs
    rwa [show ((inserted + 1 : Nat) - 1 : Int) = inserted by omega]
  recent {entry block} has := by
    rw [has_setTail] at has
    rw [setTail_current]
    change inserted + 1 ≤ block + index.current.capacity
    rcases Nat.lt_or_eq_of_le (windowed.recent has) with less | behind
    · exact less
    · -- the block that far behind had the position of the next one
      obtain ⟨own, position, inside, rfl⟩ := has
      have round : (index.current.capacity : Int) ∣ inserted - block := ⟨1, by omega⟩
      have belongs := (numbered.belongs position inside block own).of_dvd_sub round
      have same := belongs.unique windowed.newTail_belongs inside shaped.newTail_lt
      rw [same, known] at own
      obtain rfl := Option.some.inj own
      exact absurd (shaped.capacity_pos (Nat.le_refl _)) (by rw [← current]; omega)
  ahead has other low high := by
    rw [has_setTail] at has
    obtain ⟨there, found, clear⟩ := windowed.ahead has other (by omega) high
    exact ⟨there, has_setTail.mpr found, clear⟩
  filled has other low high := by
    rw [has_setTail] at has
    rw [setTail_current]
    rcases Nat.lt_or_eq_of_le (Nat.le_of_lt_succ high) with less | rfl
    · exact windowed.filled has other low less
    · exact ⟨_, shaped.newTail_lt, windowed.newTail_belongs, other, known⟩
  before header earlier := by
    rw [setTail_before index _ header earlier]
    exact windowed.before header earlier

/-- The tail moves back over a block which is taken back. -/
theorem Windowed.rewindTail (windowed : index.Windowed shift number inserted undoing)
    (shaped : index.Shaped traits shift) (some : 0 < inserted) {entry : Nat}
    (has : index.Has number entry (inserted - 1))
    (clear : index.value entry = none ∨ undoing (inserted - 1)) :
    index.rewindTail.Windowed shift number (inserted - 1) undoing where
  tail := by
    rw [BlockIndex.rewindTail, setTail_current]
    have before := windowed.tail.pred (shaped.tail _ (Nat.le_refl _))
    rwa [show ((inserted - 1 : Nat) - 1 : Int) = inserted - 1 - 1 by omega]
  recent {entry block} has := by
    rw [BlockIndex.rewindTail, has_setTail] at has
    have recent := windowed.recent has
    rw [BlockIndex.rewindTail, setTail_current]
    change inserted - 1 ≤ block + index.current.capacity
    omega
  ahead {last block} ahead other low high := by
    rw [BlockIndex.rewindTail, has_setTail] at ahead
    rcases Nat.lt_or_eq_of_le low with less | rfl
    · obtain ⟨there, found, clear⟩ := windowed.ahead ahead other (by omega) high
      exact ⟨there, has_setTail.mpr found, clear⟩
    · exact ⟨entry, has_setTail.mpr has, clear⟩
  filled has other low high := by
    rw [BlockIndex.rewindTail, has_setTail] at has
    rw [BlockIndex.rewindTail, setTail_current]
    exact windowed.filled has other low (by omega)
  before header earlier := by
    rw [BlockIndex.rewindTail, setTail_before index _ header earlier]
    exact windowed.before header earlier

/-- More blocks may still be to be taken back. -/
theorem Windowed.imp (windowed : index.Windowed shift number inserted undoing)
    {others : Nat → Prop} (still : ∀ block, undoing block → others block) :
    index.Windowed shift number inserted others where
  tail := windowed.tail
  recent := windowed.recent
  ahead has other low high := by
    obtain ⟨there, found, clear⟩ := windowed.ahead has other low high
    exact ⟨there, found, clear.imp id (still other)⟩
  filled := windowed.filled
  before := windowed.before

/-- The value of an entry behind the tail may change, and any value may go. -/
theorem Windowed.setValue (windowed : index.Windowed shift number inserted undoing)
    {entry : Nat} {value : Option B} {others : Nat → Prop}
    (kept : value = none ∨ ∀ block, index.Has number entry block → block < inserted)
    (still : ∀ {there block}, index.Has number there block → undoing block →
      others block ∨ there = entry ∧ value = none) :
    (index.setValue entry value).Windowed shift number inserted others where
  tail := windowed.tail
  recent has := windowed.recent ⟨has.number, has.listed⟩
  ahead has other low high := by
    obtain ⟨there, found, clear⟩ := windowed.ahead ⟨has.number, has.listed⟩ other low high
    refine ⟨there, ⟨found.number, found.listed⟩, ?_⟩
    by_cases same : there = entry
    · subst same
      rcases kept with none | behind
      · exact .inl ((Function.update_self ..).trans none)
      · exact absurd (behind other found) (Nat.not_lt.mpr low)
    · rcases clear with none | undone
      · exact .inl ((Function.update_of_ne same ..).trans none)
      · rcases still found undone with undone | ⟨equal, _⟩
        · exact .inr undone
        · exact absurd equal same
  filled has other low high := windowed.filled ⟨has.number, has.listed⟩ other low high
  before := windowed.before

end Operations

section Growth

variable {traits : IndexTraits} {index : BlockIndex B} {shift : Nat → Int}
  {number : Nat → Option Nat} {inserted : Nat}

/-- The new header begins with the entries from behind the tail on. -/
theorem newHeader_index {position : Nat} (old : position < index.current.capacity) :
    index.newHeader.index position =
      index.current.index ((index.current.tail + 1 + position) % index.current.capacity) :=
  if_pos old

/-- Those behind them are new. -/
theorem newHeader_new {position : Nat} (new : index.current.capacity ≤ position) :
    index.newHeader.index position = index.entryCount + (position - index.current.capacity) :=
  if_neg (Nat.not_lt.mpr new)

/-- It has twice as many. -/
theorem Shaped.newHeader_capacity (shaped : index.Shaped traits shift) :
    index.newHeader.capacity = 2 * index.current.capacity :=
  shaped.next

/-- Its tail is at the last entry of the one before. -/
theorem Shaped.newHeader_tail (shaped : index.Shaped traits shift) :
    index.newHeader.tail = index.current.capacity - 1 := by
  have some := shaped.capacity_pos (Nat.le_refl _)
  change 0 < index.current.capacity at some
  change (index.current.capacity - 1) % index.nextBlockIndexCapacity = _
  rw [shaped.next, Nat.mod_eq_of_lt (by omega)]

/-- Behind it are the new ones. -/
theorem Shaped.newHeader_newTail (shaped : index.Shaped traits shift) :
    index.newHeader.newTail = index.current.capacity := by
  have some := shaped.capacity_pos (Nat.le_refl _)
  change 0 < index.current.capacity at some
  rw [BlockIndexHeader.newTail, shaped.newHeader_tail, shaped.newHeader_capacity,
    Nat.sub_add_cancel some, Nat.mod_eq_of_lt (by omega)]

/-- The shifts, with that of the new header: its first entry is for the block which
is its old capacity behind. -/
def newShift (index : BlockIndex B) (shift : Nat → Int) (inserted : Nat) : Nat → Int :=
  Function.update shift (index.blockIndex + 1) (inserted - index.current.capacity)

/-- The shift of the new header. -/
theorem newShift_self : index.newShift shift inserted (index.blockIndex + 1) =
    inserted - index.current.capacity :=
  Function.update_self ..

/-- Those of the headers before. -/
theorem newShift_before {header : Nat} (before : header ≤ index.blockIndex) :
    index.newShift shift inserted header = shift header :=
  Function.update_of_ne (Nat.lt_succ_of_le before).ne ..

/-- Behind the tail come the positions of the next blocks. -/
theorem Windowed.behind_tail {undoing : Nat → Prop}
    (windowed : index.Windowed shift number inserted undoing) (count : Nat) :
    Belongs index.current.capacity (shift index.blockIndex)
      ((index.current.tail + 1 + count) % index.current.capacity) (inserted + count) := by
  have apart : (index.current.capacity : Int) ∣
      ((index.current.tail + 1 + count) % index.current.capacity : Nat) -
        index.current.tail - (1 + count) := by
    refine ⟨-((index.current.tail + 1 + count) / index.current.capacity : Nat), ?_⟩
    have division := Nat.mod_add_div (index.current.tail + 1 + count) index.current.capacity
    rw [mul_neg, ← Nat.cast_mul]
    omega
  have further := windowed.tail.move apart
  rwa [show (inserted - 1 + (1 + count) : Int) = inserted + count by omega] at further

/-- What a position of the new header belongs to, its place in the old one did. -/
theorem Windowed.belongs_before {undoing : Nat → Prop}
    (windowed : index.Windowed shift number inserted undoing) {position : Nat} {block : Int}
    (belongs : Belongs (2 * index.current.capacity) (inserted - index.current.capacity) position
      block) :
    Belongs index.current.capacity (shift index.blockIndex)
      ((index.current.tail + 1 + position) % index.current.capacity) block := by
  apply (windowed.behind_tail position).of_dvd_sub
  have halved := belongs.coarser (Nat.dvd_mul_left index.current.capacity 2)
  have apart := Int.dvd_sub halved (Int.dvd_refl _)
  rwa [show (block - position - (inserted - index.current.capacity) - index.current.capacity : Int)
    = block - (inserted + position) by omega] at apart

/-- If the next entry is in use, no block is ahead. -/
theorem Windowed.below (windowed : index.Windowed shift number inserted fun _ => False)
    (shaped : index.Shaped traits shift) (numbered : index.Numbered traits shift number)
    (full : index.value (index.current.index index.current.newTail) ≠ none) {entry block : Nat}
    (has : index.Has number entry block) : block < inserted := by
  by_contra ahead
  obtain ⟨there, found, none | undone⟩ :=
    windowed.ahead has inserted (Nat.le_refl _) (Nat.not_lt.mp ahead)
  · rw [found.index_eq numbered shaped.newTail_lt windowed.newTail_belongs] at full
    exact full none
  · exact undone

/-- The position in the new header of a block the old one has an entry for. -/
theorem Windowed.position_after {undoing : Nat → Prop}
    (windowed : index.Windowed shift number inserted undoing)
    (numbered : index.Numbered traits shift number) (shaped : index.Shaped traits shift)
    {entry block : Nat} (has : index.Has number entry block) (below : block < inserted) :
    ∃ position < index.current.capacity, index.newHeader.index position = entry ∧
      position + inserted = block + index.current.capacity := by
  have recent := windowed.recent has
  refine ⟨block + index.current.capacity - inserted, by omega, ?_, by omega⟩
  rw [newHeader_index (by omega)]
  apply has.index_eq numbered (Nat.mod_lt _ (shaped.capacity_pos (Nat.le_refl _)))
  apply (windowed.behind_tail _).of_dvd_sub
  exact ⟨-1, by omega⟩

/-- A place of the old header is one of the new. -/
theorem Shaped.place_after (shaped : index.Shaped traits shift) {position : Nat}
    (inside : position < index.current.capacity) : ∃ place < index.current.capacity,
      (index.current.tail + 1 + place) % index.current.capacity = position := by
  have tail := shaped.tail _ (Nat.le_refl _)
  change index.current.tail < index.current.capacity at tail
  rcases Nat.lt_or_ge index.current.tail position with behind | before
  · refine ⟨position - index.current.tail - 1, by omega, ?_⟩
    rw [show index.current.tail + 1 + (position - index.current.tail - 1) = position by omega]
    exact Nat.mod_eq_of_lt inside
  · refine ⟨position + index.current.capacity - index.current.tail - 1, by omega, ?_⟩
    rw [show index.current.tail + 1 +
      (position + index.current.capacity - index.current.tail - 1) =
        position + index.current.capacity by omega, Nat.add_mod_right]
    exact Nat.mod_eq_of_lt inside

/-- Two places of the new header which are one of the old are the same. -/
theorem place_unique {tail capacity place other : Nat} (inside : place < capacity)
    (within : other < capacity)
    (same : (tail + 1 + place) % capacity = (tail + 1 + other) % capacity) : place = other := by
  have apart := Nat.ModEq.add_left_cancel' (tail + 1) same
  rwa [Nat.ModEq, Nat.mod_eq_of_lt inside, Nat.mod_eq_of_lt within] at apart

/-- A header is built around the entries of the one before. -/
theorem Shaped.newBlockIndex {undoing : Nat → Prop} (shaped : index.Shaped traits shift)
    (windowed : index.Windowed shift number inserted undoing) :
    index.newBlockIndex.Shaped traits (index.newShift shift inserted) where
  capacity header before := by
    rcases Nat.lt_or_eq_of_le before with earlier | rfl
    · rw [newBlockIndex_before index header (Nat.le_of_lt_succ earlier)]
      exact shaped.capacity header (Nat.le_of_lt_succ earlier)
    · rw [← current, newBlockIndex_current, shaped.newHeader_capacity, current,
        shaped.capacity _ (Nat.le_refl _)]
      change _ = _ * 2 ^ (index.blockIndex + 1)
      rw [Nat.pow_succ', Nat.mul_left_comm]
  next := by
    rw [newBlockIndex_current]
    rfl
  tail header before := by
    rcases Nat.lt_or_eq_of_le before with earlier | rfl
    · rw [newBlockIndex_before index header (Nat.le_of_lt_succ earlier)]
      exact shaped.tail header (Nat.le_of_lt_succ earlier)
    · rw [← current, newBlockIndex_current]
      have some := shaped.capacity_pos (Nat.le_refl _)
      apply Nat.mod_lt
      rw [shaped.next]
      exact Nat.mul_pos Nat.two_pos some
  allocated position inside := by
    rw [newBlockIndex_current] at inside ⊢
    rw [shaped.newHeader_capacity] at inside
    change _ < index.entryCount + index.current.capacity
    rcases Nat.lt_or_ge position index.current.capacity with old | new
    · rw [newHeader_index old]
      have place := shaped.allocated _ (Nat.mod_lt (index.current.tail + 1 + position)
        (shaped.capacity_pos (Nat.le_refl _)))
      exact Nat.lt_add_right _ place
    · rw [newHeader_new new]
      omega
  distinct position inside other within same := by
    rw [newBlockIndex_current] at inside within same
    rw [shaped.newHeader_capacity] at inside within
    have some := shaped.capacity_pos (Nat.le_refl _)
    have place (one : Nat) :=
      shaped.allocated _ (Nat.mod_lt (index.current.tail + 1 + one) some)
    rcases Nat.lt_or_ge position index.current.capacity with old | new
    · rw [newHeader_index old] at same
      rcases Nat.lt_or_ge other index.current.capacity with old' | new'
      · rw [newHeader_index old'] at same
        exact place_unique old old'
          (shaped.distinct _ (Nat.mod_lt _ some) _ (Nat.mod_lt _ some) same)
      · rw [newHeader_new new'] at same
        have allocated := place position
        change index.current.index ((index.current.tail + 1 + position) %
          index.current.capacity) < _ at allocated
        omega
    · rw [newHeader_new new] at same
      rcases Nat.lt_or_ge other index.current.capacity with old' | new'
      · rw [newHeader_index old'] at same
        have allocated := place other
        change index.current.index ((index.current.tail + 1 + other) %
          index.current.capacity) < _ at allocated
        omega
      · rw [newHeader_new new'] at same
        omega
  carried header before position inside := by
    rw [newBlockIndex_current, shaped.newHeader_capacity]
    change ∃ here < _, _ ∧ ∀ block, Belongs _ (index.newShift shift inserted
      (index.blockIndex + 1)) _ block → _
    rw [newShift_self]
    rcases Nat.lt_or_eq_of_le before with earlier | rfl
    · have early := Nat.le_of_lt_succ earlier
      rw [newBlockIndex_before index header early] at inside ⊢
      rw [newShift_before early]
      obtain ⟨there, within, same, carries⟩ := shaped.carried header early position inside
      obtain ⟨place, old, after⟩ := shaped.place_after within
      refine ⟨place, by omega, ?_, fun block belongs => carries block ?_⟩
      · rw [newHeader_index old, after, same]
      · have belonged := windowed.belongs_before belongs
        rwa [after] at belonged
    · rw [← current, newBlockIndex_current, shaped.newHeader_capacity] at inside
      refine ⟨position, inside, ?_, fun block belongs => ?_⟩
      · rw [← current, newBlockIndex_current]
      · rw [← current, newBlockIndex_current, shaped.newHeader_capacity]
        change Belongs _ (index.newShift shift inserted (index.blockIndex + 1)) _ _
        rw [newShift_self]
        exact belongs

/-- The new entries are for nothing yet. -/
theorem Numbered.newBlockIndex (numbered : index.Numbered traits shift number)
    (shaped : index.Shaped traits shift)
    (windowed : index.Windowed shift number inserted fun _ => False)
    (below : ∀ {entry block}, index.Has number entry block → block < inserted) :
    index.newBlockIndex.Numbered traits (index.newShift shift inserted) number where
  keys entry := by
    change (if index.entryCount ≤ entry ∧ entry < index.entryCount + index.current.capacity
      then invalidBlockBase else index.key entry) = _
    split
    · rename_i new
      rw [numbered.fresh entry new.1]
      rfl
    · exact numbered.keys entry
  unused entry none := by
    change (if index.entryCount ≤ entry ∧ entry < index.entryCount + index.current.capacity
      then Option.none else index.value entry) = _
    split
    · rfl
    · exact numbered.unused entry none
  fresh entry behind := numbered.fresh entry (Nat.le_of_add_right_le behind)
  belongs position inside block known := by
    rw [newBlockIndex_current] at inside known ⊢
    rw [shaped.newHeader_capacity] at inside ⊢
    change Belongs _ (index.newShift shift inserted (index.blockIndex + 1)) _ _
    rw [newShift_self]
    rcases Nat.lt_or_ge position index.current.capacity with old | new
    · have has : index.Has number (index.newHeader.index position) block := by
        refine ⟨known, _, ?_, (newHeader_index old).symm⟩
        exact Nat.mod_lt _ (shaped.capacity_pos (Nat.le_refl _))
      obtain ⟨place, within, same, exact⟩ :=
        windowed.position_after numbered shaped has (below has)
      rw [newHeader_index old, newHeader_index within] at same
      have some := shaped.capacity_pos (Nat.le_refl _)
      obtain rfl := place_unique within old
        (shaped.distinct _ (Nat.mod_lt _ some) _ (Nat.mod_lt _ some) same)
      exact ⟨0, by omega⟩
    · rw [newHeader_new new, numbered.fresh _ (Nat.le_add_right ..)] at known
      cases known

/-- The new header has entries for the same blocks. -/
theorem has_newBlockIndex {undoing : Nat → Prop} (numbered : index.Numbered traits shift number)
    (shaped : index.Shaped traits shift)
    (windowed : index.Windowed shift number inserted undoing)
    (below : ∀ {entry block}, index.Has number entry block → block < inserted)
    {entry block : Nat} :
    index.newBlockIndex.Has number entry block ↔ index.Has number entry block := by
  constructor
  · rintro ⟨known, position, inside, same⟩
    rw [newBlockIndex_current] at inside same
    rcases Nat.lt_or_ge position index.current.capacity with old | new
    · refine ⟨known, _, ?_, (newHeader_index old).symm.trans same⟩
      exact Nat.mod_lt _ (shaped.capacity_pos (Nat.le_refl _))
    · rw [newHeader_new new] at same
      rw [← same, numbered.fresh _ (Nat.le_add_right ..)] at known
      cases known
  · intro has
    obtain ⟨place, within, same, _⟩ :=
      windowed.position_after numbered shaped has (below has)
    refine ⟨has.number, place, ?_, ?_⟩
    · rw [newBlockIndex_current, shaped.newHeader_capacity]
      omega
    · rw [newBlockIndex_current]
      exact same

/-- The header before is filled up to its tail, where it ends. -/
theorem Windowed.tail_filled {undoing : Nat → Prop}
    (windowed : index.Windowed shift number inserted undoing) (shaped : index.Shaped traits shift)
    {entry block : Nat} (has : index.Has number entry block) (below : block < inserted) :
    ∃ last, number (index.current.index index.current.tail) = some last := by
  obtain ⟨position, inside, belongs, filled⟩ :=
    windowed.filled has (inserted - 1) (by omega) (by omega)
  have tail := windowed.tail
  rw [show (inserted - 1 : Int) = (inserted - 1 : Nat) by omega] at tail
  rwa [tail.unique belongs (shaped.tail _ (Nat.le_refl _)) inside]

/-- What the new header holds: twice as many blocks may be behind. -/
theorem Windowed.newBlockIndex (windowed : index.Windowed shift number inserted fun _ => False)
    (shaped : index.Shaped traits shift) (numbered : index.Numbered traits shift number)
    (below : ∀ {entry block}, index.Has number entry block → block < inserted)
    (used : number (index.current.index index.current.newTail) ≠ none) :
    index.newBlockIndex.Windowed (index.newShift shift inserted) number inserted
      fun _ => False where
  tail := by
    have some := shaped.capacity_pos (Nat.le_refl _)
    change 0 < index.current.capacity at some
    rw [newBlockIndex_current, shaped.newHeader_capacity, shaped.newHeader_tail]
    change Belongs _ (index.newShift shift inserted (index.blockIndex + 1)) _ _
    rw [newShift_self]
    exact ⟨0, by omega⟩
  recent has := by
    rw [has_newBlockIndex numbered shaped windowed below] at has
    have recent := windowed.recent has
    rw [newBlockIndex_current, shaped.newHeader_capacity]
    omega
  ahead has other low high := by
    rw [has_newBlockIndex numbered shaped windowed below] at has
    have less := below has
    omega
  filled has other low high := by
    rw [has_newBlockIndex numbered shaped windowed below] at has
    have recent := windowed.recent has
    obtain ⟨position, inside, belongs, filled⟩ := windowed.filled has other low high
    rw [newBlockIndex_current, shaped.newHeader_capacity]
    refine ⟨other + index.current.capacity - inserted, by omega, ?_, ?_⟩
    · change Belongs _ (index.newShift shift inserted (index.blockIndex + 1)) _ _
      rw [newShift_self]
      exact ⟨0, by omega⟩
    · have round : (index.current.capacity : Int) ∣
          other - (inserted + (other + index.current.capacity - inserted : Nat)) :=
        ⟨-1, by omega⟩
      have place := (windowed.behind_tail _).of_dvd_sub round
      rw [newHeader_index (by omega), place.unique belongs
        (Nat.mod_lt _ (shaped.capacity_pos (Nat.le_refl _))) inside]
      exact filled
  before header earlier := by
    rw [newBlockIndex_before index header (Nat.le_of_lt_succ earlier)]
    rcases Nat.lt_or_eq_of_le (Nat.le_of_lt_succ earlier) with before | rfl
    · exact windowed.before header before
    · obtain ⟨block, known⟩ := Option.ne_none_iff_exists'.mp used
      have has : index.Has number _ block := ⟨known, _, shaped.newTail_lt, rfl⟩
      exact windowed.tail_filled shaped has (below has)

end Growth

end Traft.Moodycamel.BlockIndex
