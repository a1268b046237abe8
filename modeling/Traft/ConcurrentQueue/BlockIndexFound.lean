import Traft.ConcurrentQueue.BlockIndexRun

/-!
# Every lookup finds its block

What each thread knows stays right while it looks up one block after the other, so
the assertions of the source hold wherever it comes to them. The bases of the blocks
the index has room for must be different words.
-/

namespace Traft.Moodycamel.BlockIndex

open Traft.Semantics

namespace Sharing

variable {ι B : Type}

/-- The bases of as many blocks as the index has room for are different words. -/
def InRange (traits : IndexTraits) (state : Sharing ι B) : Prop :=
  state.index.current.capacity * traits.blockSize ≤ 2 ^ 64

namespace Kept

variable {traits : IndexTraits} {shift : Nat → Int} {number : Nat → Option Nat}
  {state : Sharing ι B}

/-- Then the number of elements in the blocks of any header divides that of words. -/
theorem range (kept : state.Kept traits shift number) (fits : state.InRange traits)
    {header : Nat} (before : header ≤ state.index.blockIndex) :
    (state.index.header header).capacity * traits.blockSize ∣ 2 ^ 64 := by
  apply (Nat.mul_dvd_mul_right (kept.shaped.capacity_dvd before) _).trans
  obtain ⟨first, initial⟩ := traits.initialPower
  obtain ⟨second, size⟩ := traits.power
  have latest := kept.shaped.capacity _ (Nat.le_refl _)
  rw [InRange] at fits
  rw [← current] at latest
  rw [latest, initial, size, ← Nat.pow_add, ← Nat.pow_add] at fits ⊢
  exact Nat.pow_dvd_pow 2 ((Nat.pow_le_pow_iff_right Nat.one_lt_two).mp fits)

/-- The position computed in a header from an entry of any block. -/
theorem seek (kept : state.Kept traits shift number) (fits : state.InRange traits)
    {header tail last : Nat} (before : header ≤ state.index.blockIndex)
    (inside : tail < (state.index.header header).capacity)
    (known : number ((state.index.header header).index tail) = some last) (block : Nat) :
    state.index.Aims shift header
      (position traits.toTraits (state.index.header header).capacity tail
        (state.index.key ((state.index.header header).index tail)) (traits.base block)) block := by
  have some := kept.shaped.capacity_pos before
  refine ⟨position_lt _ some .., ?_⟩
  rw [kept.numbered.keys, known]
  exact position_belongs block last some (kept.range fits before)
    (kept.entry before inside known).2

/-- The producer finds the entry of a block. -/
theorem entryFor_eq (kept : state.Kept traits shift number) (fits : state.InRange traits)
    {entry block last : Nat} (has : state.index.Has number entry block)
    (known : number (state.index.current.index state.index.current.tail) = some last) :
    state.index.entryFor traits.toTraits block = entry := by
  obtain ⟨inside, belongs⟩ := kept.seek fits (Nat.le_refl _)
    (kept.shaped.tail _ (Nat.le_refl _)) known block
  exact has.index_eq kept.numbered inside belongs

/-- A thread's position has the entry for its block. -/
theorem aimed (kept : state.Kept traits shift number) {header position : Nat}
    {lookup : Lookup B} (wanted : 0 < lookup.count)
    (listed : state.index.Listed number header lookup)
    (aims : state.index.Aims shift header position lookup.block) :
    number ((state.index.header header).index position) = some lookup.block := by
  obtain ⟨before, blocks⟩ := listed
  obtain ⟨there, inside, known⟩ :=
    blocks lookup.block ⟨Nat.le_refl _, Nat.lt_add_of_pos_right wanted⟩
  have belongs := (kept.entry before inside known).2
  rwa [belongs.unique aims.2 inside aims.1] at known

/-- The producer takes back the next of its blocks, and clears its entry. -/
theorem undo (kept : state.Kept traits shift number) (range : state.InRange traits)
    {first left : Nat} (here : state.producer = .undo first (left + 1)) :
    Kept traits shift number
      { state with
        index := state.index.setValue (state.index.entryFor traits.toTraits first) none
        producer := .undoRewind first left } := by
  have windowed := kept.windowed
  have fits := kept.fits
  have stored := kept.stored
  unfold InUse at stored
  rw [here] at windowed fits stored
  obtain ⟨low, count, undoing⟩ := fits
  obtain ⟨entry, has, _⟩ := undoing first low (by omega)
  obtain ⟨earliest, old, _⟩ := undoing state.committed (Nat.le_refl _) (by omega)
  obtain ⟨last, known⟩ := windowed.tail_filled kept.shaped old (by omega)
  rw [kept.entryFor_eq range has known]
  refine ⟨kept.shaped.setValue .., kept.numbered.setValue (.inl rfl),
    windowed.setValue (.inl rfl) ?_, ⟨low, count, ?_⟩, ?_, ?_⟩
  · rintro there block found ⟨behind, before⟩
    rcases Nat.lt_or_eq_of_le behind with more | rfl
    · exact .inl ⟨more, by omega⟩
    · exact .inr ⟨found.unique kept.numbered has, rfl⟩
  · intro block below above
    obtain ⟨there, found, clear⟩ := undoing block below (by omega)
    refine ⟨there, has_setValue.mpr found, ?_⟩
    rcases eq_or_ne there entry with rfl | other
    · exact .inl (Function.update_self ..)
    · rcases clear with none | behind
      · exact .inl ((Function.update_of_ne other ..).trans none)
      · rcases Nat.lt_or_eq_of_le behind with more | rfl
        · exact .inr more
        · exact absurd (found.unique kept.numbered has) other
  · intro block used
    have later : (Inserting.undo (B := B) first (left + 1)).Pending state.committed
        state.inserted block ∨ state.Live block := by
      rcases used with ⟨behind, before⟩ | live
      · exact .inl ⟨by omega, by omega⟩
      · exact .inr live
    obtain ⟨there, value, found, stored, put⟩ := stored block later
    have other : there ≠ entry := by
      rintro rfl
      obtain rfl := Option.some.inj (found.number.symm.trans has.number)
      rcases used with ⟨behind, _⟩ | live
      · omega
      · exact absurd live.1 (Nat.not_lt.mpr low)
    exact ⟨there, value, has_setValue.mpr found, (Function.update_of_ne other ..).trans stored, put⟩
  · exact kept.knows_produce rfl rfl (Nat.le_refl _) (Nat.le_refl _) (fun _ _ => ⟨rfl, rfl, rfl⟩)
      (fun _ last known => ⟨last, known⟩) (fun _ has => has.number) (fun _ => rfl)

/-- The blocks inserted are published. -/
theorem publish (kept : state.Kept traits shift number) (ready : state.producer = .ready) :
    Kept traits shift number { state with committed := state.inserted } := by
  have windowed := kept.windowed
  have stored := kept.stored
  unfold InUse at stored
  rw [ready] at windowed stored
  refine ⟨kept.shaped, kept.numbered, ?_, ?_, ?_, ?_⟩
  · change state.index.Windowed shift number state.inserted state.producer.Undoing
    rw [ready]
    exact windowed
  · change state.producer.Fits state.index number state.inserted state.inserted
    rw [ready]
    exact Nat.le_refl _
  · rintro block (put | ⟨below, free⟩)
    · change state.producer.Pending state.inserted state.inserted block at put
      rw [ready] at put
      exact absurd put.2 (Nat.not_lt.mpr put.1)
    · change block < state.inserted at below
      rcases Nat.lt_or_ge block state.committed with early | late
      · exact stored block (.inr ⟨early, free⟩)
      · exact stored block (.inl ⟨late, below⟩)
  · exact kept.knows_produce rfl rfl kept.committed_le (Nat.le_refl _)
      (fun _ _ => ⟨rfl, rfl, rfl⟩) (fun _ last known => ⟨last, known⟩) (fun _ has => has.number)
      (fun _ => rfl)

/-- Whatever the producer does next. -/
theorem operate (kept : state.Kept traits shift number) (range : state.InRange traits)
    {next : Sharing ι B} (moves : state.operate traits = some next) :
    ∃ number, next.Kept traits shift number := by
  rw [Sharing.operate] at moves
  cases here : state.producer with
  | ready | full | requisition =>
      rw [here] at moves
      cases moves
  | grown =>
      rw [here] at moves
      cases moves
      have windowed := kept.windowed
      have fits := kept.fits
      rw [here] at windowed fits
      refine ⟨number, kept.goes _ windowed ⟨fits.1, rfl, rfl, kept.numbered.unused _ fits.2⟩ ?_⟩
      rw [here]
      exact fun _ => id
  | storeKey entry newTail =>
      rw [here] at moves
      cases moves
      exact ⟨_, kept.storeKey here⟩
  | storeTail entry newTail =>
      rw [here] at moves
      cases moves
      exact ⟨_, kept.storeTail here⟩
  | storeValue entry block =>
      rw [here] at moves
      cases moves
      exact ⟨_, kept.storeValue here⟩
  | rewind entry =>
      rw [here] at moves
      cases moves
      exact ⟨_, kept.rewind here⟩
  | clear entry =>
      rw [here] at moves
      cases moves
      exact ⟨_, kept.clear here⟩
  | undo first left =>
      rw [here] at moves
      cases left with
      | zero =>
          cases moves
          exact ⟨_, kept.undone here⟩
      | succ left =>
          cases moves
          exact ⟨_, kept.undo range here⟩
  | undoRewind first left =>
      rw [here] at moves
      cases moves
      exact ⟨_, kept.undoRewind here⟩

/-- The next operation of a thread. -/
theorem advance (kept : state.Kept traits shift number) (range : state.InRange traits)
    {lookup after : Lookup B} (knows : state.Knows shift number lookup)
    (moves : lookup.advance traits state.index = some after) :
    state.Knows shift number after := by
  obtain ⟨wanted, live, knows⟩ := knows
  have first := live lookup.block ⟨Nat.le_refl _, Nat.lt_add_of_pos_right wanted⟩
  rw [Lookup.advance] at moves
  cases point : lookup.point with
  | loadHeader =>
      rw [point] at moves
      cases moves
      refine ⟨wanted, live, Nat.le_refl _, fun block wants => ?_⟩
      obtain ⟨entry, known, position, inside, same⟩ := kept.has_live (live block wants)
      exact ⟨position, inside, same.symm ▸ known⟩
  | loadTail header =>
      rw [point] at moves knows
      cases moves
      refine ⟨wanted, live, knows, kept.shaped.tail header knows.1, ?_⟩
      rcases Nat.lt_or_eq_of_le knows.1 with earlier | rfl
      · exact kept.windowed.before header earlier
      · exact kept.tail_filled first
  | loadKey header tail =>
      rw [point] at moves knows
      cases moves
      obtain ⟨listed, inside, last, known⟩ := knows
      exact ⟨wanted, live, listed, kept.seek range listed.1 inside known lookup.block⟩
  | loadValue header position =>
      rw [point] at moves knows
      cases moves
      obtain ⟨listed, aims⟩ := knows
      obtain ⟨value, stored, put⟩ :=
        kept.value listed.1 aims.1 (kept.aimed wanted listed aims) first
      exact ⟨wanted, live, listed, aims, stored.trans put.symm⟩
  | inside =>
      rw [point] at moves
      cases moves

/-- Behind a block a thread goes on with the next one. -/
theorem behind (kept : state.Kept traits shift number) {lookup next : Lookup B}
    {header position : Nat} {block : Option B} (knows : state.Knows shift number lookup)
    (inside : lookup.point = .inside header position block)
    (goes : lookup.behind state.index header position = some next) :
    state.Knows shift number next ∧ ∀ other, next.Wants other →
      lookup.Wants other ∧ other ≠ lookup.block := by
  obtain ⟨wanted, live, knows⟩ := knows
  rw [inside] at knows
  obtain ⟨⟨before, blocks⟩, aims, _⟩ := knows
  rw [Lookup.behind] at goes
  split at goes
  · cases goes
  · rename_i more
    cases goes
    have wants {other : Nat} (wants : lookup.block + 1 ≤ other ∧
        other < lookup.block + 1 + (lookup.count - 1)) : lookup.Wants other :=
      ⟨by omega, by omega⟩
    refine ⟨⟨Nat.sub_pos_of_lt (by omega), fun other next => live other (wants next), ⟨before,
      fun other next => blocks other (wants next)⟩, ?_, ?_⟩, fun other next => ⟨wants next, ?_⟩⟩
    · exact Nat.mod_lt _ (kept.shaped.capacity_pos before)
    · have next := aims.2.succ
      exact_mod_cast next
    · have later : lookup.block + 1 ≤ other := next.1
      omega

section Threads

variable [DecidableEq ι]

/-- One thread goes elsewhere, and nothing else changes. -/
theorem moves (kept : state.Kept traits shift number) {thread : ι} {place : Option (Lookup B)}
    (knows : ∀ lookup, place = some lookup → state.Knows shift number lookup) :
    Kept traits shift number { state with places := state.move thread place } where
  shaped := kept.shaped
  numbered := kept.numbered
  windowed := kept.windowed
  fits := kept.fits
  stored := kept.stored
  knows other lookup there := by
    change Function.update state.places thread place other = some lookup at there
    rcases eq_or_ne other thread with rfl | elsewhere
    · rw [Function.update_self] at there
      exact knows lookup there
    · rw [Function.update_of_ne elsewhere] at there
      exact kept.knows other lookup there

/-- A thread puts its block back, which nobody else looks for, and goes on with the
next one. -/
theorem free (kept : state.Kept traits shift number) {thread : ι} {lookup : Lookup B}
    {header position : Nat} {block : Option B} (here : state.places thread = some lookup)
    (inside : lookup.point = .inside header position block)
    (last : ∀ other another, other ≠ thread → state.places other = some another →
      ¬ another.Wants lookup.block) :
    Kept traits shift number (state.free thread lookup header position) := by
  have knows := kept.knows thread lookup here
  have own : number ((state.index.header header).index position) = some lookup.block := by
    obtain ⟨wanted, _, known⟩ := knows
    rw [inside] at known
    exact kept.aimed wanted known.1 known.2.1
  have early : lookup.block < state.committed :=
    (knows.2.1 _ ⟨Nat.le_refl _, Nat.lt_add_of_pos_right knows.1⟩).1
  have stays {other : Nat} (distinct : other ≠ lookup.block) (live : state.Live other) :
      other < state.committed ∧ Function.update state.freed lookup.block true other = false :=
    ⟨live.1, (Function.update_of_ne distinct ..).trans live.2⟩
  -- nothing that is known of an entry behind is changed by clearing one
  have cleared {entry : Nat} (none : state.index.value entry = none) :
      (state.index.setValue ((state.index.header header).index position) Option.none).value entry =
        Option.none := by
    rcases eq_or_ne entry ((state.index.header header).index position) with rfl | other
    · exact Function.update_self ..
    · exact (Function.update_of_ne other ..).trans none
  refine ⟨kept.shaped.setValue .., kept.numbered.setValue (.inl rfl),
    kept.windowed.setValue (.inl rfl) (fun _ => .inl), kept.fits.clears cleared, ?_, ?_⟩
  · intro other used
    have others : other ≠ lookup.block ∧ state.InUse other := by
      rcases used with pending | ⟨below, free⟩
      · have late := kept.fits.committed_le_of_pending pending
        exact ⟨by omega, .inl pending⟩
      · have distinct : other ≠ lookup.block := by
          rintro rfl
          change Function.update state.freed lookup.block true lookup.block = false at free
          rw [Function.update_self] at free
          cases free
        exact ⟨distinct, .inr ⟨below, (Function.update_of_ne distinct ..).symm.trans free⟩⟩
    obtain ⟨entry, value, has, stored, put⟩ := kept.stored other others.2
    refine ⟨entry, value, has_setValue.mpr has, ?_, put⟩
    have elsewhere : entry ≠ (state.index.header header).index position := by
      rintro rfl
      exact others.1 (Option.some.inj (has.number.symm.trans own))
    exact (Function.update_of_ne elsewhere ..).trans stored
  · intro other another there
    change Function.update state.places thread _ other = some another at there
    have mono {elsewhere : Lookup B} (known : state.Knows shift number elsewhere)
        (apart : ¬ elsewhere.Wants lookup.block) :
        (state.free thread lookup header position).Knows shift number elsewhere := by
      refine kept.knows_mono (Nat.le_refl _) (fun _ _ => ⟨rfl, rfl, rfl⟩)
        (fun _ last known => ⟨last, known⟩) (fun _ has => has.number) (fun _ => rfl) known ?_
      intro block wants
      apply stays _ (known.2.1 block wants)
      rintro rfl
      exact apart wants
    rcases eq_or_ne other thread with rfl | elsewhere
    · rw [Function.update_self] at there
      obtain ⟨known, apart⟩ := kept.behind knows inside there
      exact mono known fun wants => (apart _ wants).2 rfl
    · rw [Function.update_of_ne elsewhere] at there
      exact mono (kept.knows other another there) (last other another elsewhere there)

/-- Whatever happens next. -/
theorem step (kept : state.Kept traits shift number) (range : state.InRange traits)
    {event : Event ι B} {next : Sharing ι B} (transition : Step traits state event next) :
    ∃ shift number, next.Kept traits shift number := by
  cases transition with
  | insert ready => exact ⟨_, _, kept.insert ready⟩
  | allocate full => exact ⟨_, _, kept.allocate full⟩
  | refuse full =>
      have windowed := kept.windowed
      rw [full] at windowed
      refine ⟨_, _, kept.revert windowed kept.committed_le fun block low high => ?_⟩
      rw [full]
      exact ⟨low, high⟩
  | requisition block here =>
      have windowed := kept.windowed
      have fits := kept.fits
      rw [here] at windowed fits
      refine ⟨_, _, kept.goes _ windowed fits ?_⟩
      rw [here]
      exact fun _ => id
  | exhausted here =>
      have windowed := kept.windowed
      have fits := kept.fits
      rw [here] at windowed fits
      refine ⟨_, _, kept.goes _ windowed fits ?_⟩
      rw [here]
      exact fun _ => id
  | throw here =>
      have windowed := kept.windowed
      have fits := kept.fits
      rw [here] at windowed fits
      refine ⟨_, _, kept.goes _ windowed fits ?_⟩
      rw [here]
      exact fun _ => id
  | operate moves => exact ⟨_, kept.operate range moves⟩
  | publish ready => exact ⟨_, _, kept.publish ready⟩
  | revert ready =>
      have windowed := kept.windowed
      rw [ready] at windowed
      refine ⟨_, _, kept.revert windowed kept.committed_le fun block low high => ?_⟩
      rw [ready]
      exact ⟨low, high⟩
  | lookup block count idle wanted live =>
      refine ⟨_, _, kept.moves fun lookup same => ?_⟩
      cases same
      exact ⟨wanted, fun other wants => live other wants.1 wants.2, trivial⟩
  | advance here moves =>
      refine ⟨_, _, kept.moves fun lookup same => ?_⟩
      cases same
      exact kept.advance range (kept.knows _ _ here) moves
  | leave here inside =>
      exact ⟨_, _, kept.moves fun next goes =>
        (kept.behind (kept.knows _ _ here) inside goes).1⟩
  | free here inside last => exact ⟨_, _, kept.free here inside last⟩

end Threads

end Kept

/-- A constructed producer. -/
theorem kept_construct (traits : IndexTraits) :
    Kept (ι := ι) (B := B) traits (fun _ => 0) (fun _ => none)
      { index := construct traits
        producer := .ready
        inserted := 0
        committed := 0
        put := fun _ => none
        freed := fun _ => false
        places := fun _ => none } where
  shaped :=
    { capacity header before := by
        rw [Nat.le_zero.mp before]
        exact (Nat.mul_one _).symm
      next := rfl
      tail _ _ := Nat.sub_one_lt (Nat.ne_of_gt (Nat.zero_lt_of_lt traits.initialLarge))
      allocated _ inside := inside
      distinct _ _ _ _ := id
      carried header _ position inside := by
        exact ⟨position, inside, rfl, fun _ => id⟩ }
  numbered :=
    { keys _ := rfl
      unused _ _ := rfl
      fresh _ _ := rfl
      belongs _ _ _ known := by cases known }
  windowed :=
    { tail := by
        have large := traits.initialLarge
        change Belongs traits.initialIndexSize 0 (traits.initialIndexSize - 1) (0 - 1)
        exact ⟨-1, by omega⟩
      recent has := by cases has.number
      ahead has := by cases has.number
      filled has := by cases has.number
      before _ early := absurd early (Nat.not_lt_zero _) }
  fits := Nat.le_refl _
  stored block used := by
    rcases used with ⟨_, high⟩ | ⟨high, _⟩
    · exact absurd high (Nat.not_lt_zero _)
    · exact absurd high (Nat.not_lt_zero _)
  knows _ _ there := by cases there

/-- An entry is for a block, with what was put in for it. -/
def Answers (traits : IndexTraits) (state : Sharing ι B) (entry block : Nat) : Prop :=
  state.index.key entry = traits.base block ∧
    ∃ value, state.index.value entry = some value ∧ state.put block = some value

/-- What the source asserts, wherever threads and the producer are. Where a key is to
be loaded at a tail, it is valid; where a value is to be loaded, the entry is for the
wanted block; and a thread is inside the block that was put in. The producer finds the
next entry of a new index unused, and the entries of the blocks it takes back; and a
lookup by anybody, while nobody interferes, finds any block in use. -/
structure Found (traits : IndexTraits) (state : Sharing ι B) : Prop where
  key : ∀ thread block count header tail,
    state.places thread = some ⟨block, count, .loadKey header tail⟩ →
      state.index.key ((state.index.header header).index tail) ≠ invalidBlockBase
  value : ∀ thread block count header position,
    state.places thread = some ⟨block, count, .loadValue header position⟩ →
      state.Answers traits ((state.index.header header).index position) block
  inside : ∀ thread block count header position value,
    state.places thread = some ⟨block, count, .inside header position value⟩ →
      value = state.put block ∧ value.isSome
  grown : state.producer = .grown →
    state.index.key (state.index.current.index state.index.current.newTail) = invalidBlockBase
  undo : ∀ first left, state.producer = .undo first (left + 1) →
    state.Answers traits (state.index.entryFor traits.toTraits first) first
  live : ∀ block, state.Live block →
    state.Answers traits (state.index.entryFor traits.toTraits block) block

/-- Whatever is relied on implies it. -/
theorem Kept.found {traits : IndexTraits} {shift : Nat → Int} {number : Nat → Option Nat}
    {state : Sharing ι B} (kept : state.Kept traits shift number)
    (range : state.InRange traits) : state.Found traits where
  key thread block count header tail there := by
    obtain ⟨_, _, _, _, last, known⟩ := kept.knows _ _ there
    rw [kept.numbered.keys, known]
    exact base_ne_invalid traits.toTraits last
  value thread block count header position there := by
    obtain ⟨wanted, live, listed, aims⟩ := kept.knows _ _ there
    have known := kept.aimed wanted listed aims
    refine ⟨?_, kept.value listed.1 aims.1 known (live _ ⟨Nat.le_refl _, ?_⟩)⟩
    · rw [kept.numbered.keys, known]
      rfl
    · exact Nat.lt_add_of_pos_right wanted
  inside thread block count header position value there := by
    obtain ⟨wanted, live, _, _, same⟩ := kept.knows _ _ there
    obtain ⟨_, value, _, _, put⟩ :=
      kept.stored block (.inr (live _ ⟨Nat.le_refl _, Nat.lt_add_of_pos_right wanted⟩))
    refine ⟨same, ?_⟩
    rw [same, put]
    rfl
  grown here := by
    have fits := kept.fits
    rw [here] at fits
    rw [kept.numbered.keys, fits.2]
    rfl
  undo first left here := by
    have fits := kept.fits
    have stored := kept.stored
    unfold InUse at stored
    rw [here] at fits stored
    obtain ⟨low, count, undoing⟩ := fits
    obtain ⟨earliest, old, _⟩ := undoing state.committed (Nat.le_refl _) (by omega)
    obtain ⟨last, known⟩ := kept.windowed.tail_filled kept.shaped old (by omega)
    obtain ⟨entry, value, has, stored, put⟩ := stored first (.inl ⟨Nat.le_refl _, by omega⟩)
    rw [kept.entryFor_eq range has known]
    refine ⟨?_, value, stored, put⟩
    rw [kept.numbered.keys, has.number]
    rfl
  live block live := by
    obtain ⟨last, known⟩ := kept.tail_filled live
    obtain ⟨entry, value, has, stored, put⟩ := kept.stored block (.inr live)
    rw [kept.entryFor_eq range has known]
    refine ⟨?_, value, stored, put⟩
    rw [kept.numbered.keys, has.number]
    rfl

section Runs

variable [DecidableEq ι]

/-- The next index is no smaller than the latest, so that no step makes it smaller. -/
theorem Step.grows {traits : IndexTraits} {state next : Sharing ι B} {event : Event ι B}
    (transition : Step traits state event next)
    (sized : state.index.current.capacity ≤ state.index.nextBlockIndexCapacity) :
    next.index.current.capacity ≤ next.index.nextBlockIndexCapacity ∧
      state.index.current.capacity ≤ next.index.current.capacity := by
  have same := And.intro sized (Nat.le_refl state.index.current.capacity)
  cases transition with
  | allocate full =>
      rw [newBlockIndex_current]
      exact ⟨Nat.le_mul_of_pos_left _ Nat.two_pos, sized⟩
  | operate moves =>
      rw [Sharing.operate] at moves
      cases here : state.producer with
      | ready | full | requisition =>
          rw [here] at moves
          cases moves
      | grown | storeKey | storeValue | clear =>
          rw [here] at moves
          cases moves
          exact same
      | storeTail | rewind | undoRewind =>
          rw [here] at moves
          cases moves
          simp only [rewindTail, setTail_current]
          exact same
      | undo first left =>
          rw [here] at moves
          cases left with
          | zero =>
              cases moves
              exact same
          | succ =>
              cases moves
              exact same
  | insert | refuse | requisition | exhausted | throw | publish | revert | lookup | advance
  | leave | free => exact same

/-- What the producer does before it publishes blocks does not concern the threads. -/
theorem Step.frame {traits : IndexTraits} {state next : Sharing ι B} {event : Event ι B}
    (transition : Step traits state event next) (internal : event.Internal) :
    next.places = state.places ∧ next.committed = state.committed ∧ next.freed = state.freed := by
  cases transition with
  | operate moves =>
      rw [Sharing.operate] at moves
      cases here : state.producer with
      | ready | full | requisition =>
          rw [here] at moves
          cases moves
      | undo first left =>
          rw [here] at moves
          cases left with
          | zero =>
              cases moves
              exact ⟨rfl, rfl, rfl⟩
          | succ =>
              cases moves
              exact ⟨rfl, rfl, rfl⟩
      | grown | storeKey | storeTail | storeValue | rewind | clear | undoRewind =>
          rw [here] at moves
          cases moves
          exact ⟨rfl, rfl, rfl⟩
  | publish | lookup | advance | leave | free => exact internal.elim
  | insert | allocate | refuse | requisition | exhausted | throw | revert => exact ⟨rfl, rfl, rfl⟩

/-- A block is put in for the last number, and for no other. -/
theorem Step.put_cases {traits : IndexTraits} {state next : Sharing ι B} {event : Event ι B}
    (transition : Step traits state event next) (internal : event.Internal) :
    next.put = state.put ∧ (∀ entry block, state.producer = .storeValue entry block →
        event = .throw) ∨
      ∃ entry block, state.producer = .storeValue entry block ∧ next.producer = .ready ∧
        next.put = Function.update state.put (state.inserted - 1) (some block) := by
  cases transition with
  | operate moves =>
      rw [Sharing.operate] at moves
      cases here : state.producer with
      | ready | full | requisition =>
          rw [here] at moves
          cases moves
      | undo first left =>
          rw [here] at moves
          refine .inl ⟨?_, fun _ _ storing => by cases storing⟩
          cases left with
          | zero =>
              cases moves
              rfl
          | succ =>
              cases moves
              rfl
      | storeValue entry block =>
          rw [here] at moves
          cases moves
          exact .inr ⟨entry, block, rfl, rfl, rfl⟩
      | grown | storeKey | storeTail | rewind | clear | undoRewind =>
          rw [here] at moves
          cases moves
          exact .inl ⟨rfl, fun _ _ storing => by cases storing⟩
  | publish | lookup | advance | leave | free => exact internal.elim
  | throw => exact .inl ⟨rfl, fun _ _ _ => rfl⟩
  | insert here | allocate here | refuse here | requisition _ here | exhausted here
  | revert here => exact .inl ⟨rfl, fun _ _ storing => by cases here.symm.trans storing⟩

/-- A block that is about to be put in has just been given. -/
theorem Step.storeValue {traits : IndexTraits} {state next : Sharing ι B} {event : Event ι B}
    (transition : Step traits state event next) (internal : event.Internal) {entry : Nat}
    {block : B} (there : next.producer = .storeValue entry block) :
    event = .requisition (some block) := by
  cases transition with
  | insert =>
      unfold Sharing.insert at there
      simp only at there
      split at there
      · cases there
      · cases there
  | requisition =>
      cases there
      rfl
  | operate moves =>
      rw [Sharing.operate] at moves
      cases here : state.producer with
      | ready | full | requisition =>
          rw [here] at moves
          cases moves
      | undo first left =>
          rw [here] at moves
          cases left with
          | zero =>
              cases moves
              cases there
          | succ =>
              cases moves
              cases there
      | grown | storeKey | storeTail | storeValue | rewind | clear | undoRewind =>
          rw [here] at moves
          cases moves
          cases there
  | publish | lookup | advance | leave | free => exact internal.elim
  | allocate | refuse | exhausted | throw | revert => cases there

/-- A block that is in use behind a step was so before, and is the same one, or it has
just been put in. -/
theorem Kept.inUse {traits : IndexTraits} {shift : Nat → Int} {number : Nat → Option Nat}
    {state next : Sharing ι B} {event : Event ι B} (kept : state.Kept traits shift number)
    (transition : Step traits state event next) {block : Nat} (used : next.InUse block) :
    state.InUse block ∧ next.put block = state.put block ∨
      ∃ entry value, state.producer = .storeValue entry value ∧ block = state.inserted - 1 ∧
        next.put block = some value := by
  -- a producer which goes elsewhere keeps blocks or gives them up
  have goes {producer : Inserting B} {inserted : Nat}
      (used : producer.Pending state.committed inserted block ∨ state.Live block)
      (pending : producer.Pending state.committed inserted block →
        state.producer.Pending state.committed state.inserted block) :
      state.InUse block := used.imp pending id
  have reverts (used : state.revert.InUse block) (pending : state.committed ≤ block ∧
      block < state.inserted → state.producer.Pending state.committed state.inserted block) :
      state.InUse block := by
    have before := kept.committed_le
    refine used.imp (fun put => ?_) id
    have range : state.committed ≤ block ∧
      block < state.committed + (state.inserted - state.committed) := put
    exact pending ⟨range.1, by omega⟩
  cases transition with
  | insert ready =>
      refine .inl ⟨?_, rfl⟩
      unfold Sharing.insert at used
      simp only at used
      split at used
      · exact goes used fun put => ready ▸ put
      · exact goes used fun put => ready ▸ put
  | allocate full => exact .inl ⟨goes used fun put => full ▸ put, rfl⟩
  | refuse full => exact .inl ⟨reverts used fun put => full ▸ put, rfl⟩
  | requisition block here => exact .inl ⟨goes used fun put => here ▸ put, rfl⟩
  | exhausted here => exact .inl ⟨goes used fun put => here ▸ put, rfl⟩
  | throw here => exact .inl ⟨goes used fun put => here ▸ put, rfl⟩
  | publish ready =>
      refine .inl ⟨?_, rfl⟩
      rcases used with put | ⟨below, free⟩
      · change state.producer.Pending state.inserted state.inserted block at put
        rw [ready] at put
        exact absurd put.2 (Nat.not_lt.mpr put.1)
      · rcases Nat.lt_or_ge block state.committed with early | late
        · exact .inr ⟨early, free⟩
        · exact .inl (ready ▸ ⟨late, below⟩)
  | revert ready => exact .inl ⟨reverts used fun put => ready ▸ put, rfl⟩
  | lookup => exact .inl ⟨used, rfl⟩
  | advance => exact .inl ⟨used, rfl⟩
  | leave => exact .inl ⟨used, rfl⟩
  | @free thread lookup header position value here inside last =>
      refine .inl ⟨used.imp id fun live => ?_, rfl⟩
      have free : Function.update state.freed lookup.block true block = false := live.2
      have other : block ≠ lookup.block := by
        rintro rfl
        rw [Function.update_self] at free
        cases free
      exact ⟨live.1, (Function.update_of_ne other ..).symm.trans free⟩
  | operate moves =>
      rw [Sharing.operate] at moves
      cases here : state.producer with
      | ready | full | requisition =>
          rw [here] at moves
          cases moves
      | grown | storeKey | undoRewind =>
          rw [here] at moves
          cases moves
          exact .inl ⟨goes used fun put => here ▸ put, rfl⟩
      | storeTail entry newTail =>
          rw [here] at moves
          cases moves
          refine .inl ⟨goes used fun put => ?_, rfl⟩
          rw [here]
          exact ⟨put.1, Nat.lt_of_succ_lt_succ put.2⟩
      | rewind entry =>
          rw [here] at moves
          cases moves
          refine .inl ⟨goes used fun put => ?_, rfl⟩
          have range : state.committed ≤ block ∧ block < state.inserted - 1 := put
          rw [here]
          exact ⟨range.1, by omega⟩
      | clear entry =>
          rw [here] at moves
          cases moves
          exact .inl ⟨reverts used fun put => here ▸ put, rfl⟩
      | storeValue entry value =>
          rw [here] at moves
          cases moves
          rcases eq_or_ne block (state.inserted - 1) with rfl | before
          · exact .inr ⟨entry, value, rfl, rfl, Function.update_self ..⟩
          · refine .inl ⟨goes used fun put => ?_, Function.update_of_ne before ..⟩
            have range : state.committed ≤ block ∧ block < state.inserted := put
            rw [here]
            exact ⟨range.1, by omega⟩
      | undo first left =>
          have fits := kept.fits
          rw [here] at moves fits
          cases left with
          | zero =>
              cases moves
              have none : state.inserted = state.committed := fits.2.1
              refine .inl ⟨goes used fun put => ?_, rfl⟩
              have range : state.committed ≤ block ∧ block < state.inserted := put
              omega
          | succ left =>
              cases moves
              refine .inl ⟨goes used fun put => ?_, rfl⟩
              have range : first + 1 ≤ block ∧ block < first + 1 + left := put
              rw [here]
              exact ⟨by omega, by omega⟩

/-- While the bases of its blocks are different words, the index is in order. -/
def keeping (traits : IndexTraits) (ι B : Type) [DecidableEq ι] :
    (system traits ι B).Invariant where
  Holds _ state := state.index.current.capacity ≤ state.index.nextBlockIndexCapacity ∧
    (state.InRange traits → ∃ shift number, state.Kept traits shift number)
  initial := by
    rintro state rfl
    refine ⟨Nat.le_mul_of_pos_left _ Nat.two_pos, fun _ => ⟨_, _, kept_construct traits⟩⟩
  preserved := by
    rintro events state event next ⟨sized, held⟩ transition
    obtain ⟨still, larger⟩ := transition.grows sized
    refine ⟨still, fun range => ?_⟩
    have before : state.InRange traits := (Nat.mul_le_mul_right _ larger).trans range
    obtain ⟨shift, number, kept⟩ := held before
    exact kept.step before transition

/-- However the producer and the threads interleave, and however often the index has
grown meanwhile, every lookup finds its block. -/
theorem always_found (traits : IndexTraits) (ι B : Type) [DecidableEq ι]
    (events : List (Event ι B)) :
    (system traits ι B).Always (fun _ state => state.InRange traits → state.Found traits)
      events := by
  intro before state _ run range
  obtain ⟨shift, number, kept⟩ := ((keeping traits ι B).of_runs run).2 range
  exact kept.found range

end Runs

end Sharing

end Traft.Moodycamel.BlockIndex
