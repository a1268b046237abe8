import Traft.ConcurrentQueue.SubQueueElements

/-!
# Who puts a block back

Several threads take elements out of one block, and the one which takes the last
of them puts the block on the free list. Each claimed element of a block is either
counted as dequeued or owed by the thread that claimed it, so a block is put back
once, and not before the last thread is done with it.
-/

namespace Traft.Moodycamel.SubQueue

open Traft.Semantics

/-- How many of the elements from `first` up to `last` are in a block. -/
def overlap (traits : Traits) (first last block : Nat) : Nat :=
  min last (block * traits.blockSize + traits.blockSize) - max first (block * traits.blockSize)

section Overlap

variable (traits : Traits) (block : Nat)

/-- No more than the block has. -/
theorem overlap_le (first last : Nat) : overlap traits first last block ≤ traits.blockSize := by
  unfold overlap
  omega

/-- Nothing is nowhere. -/
@[simp] theorem overlap_self (index : Nat) : overlap traits index index block = 0 := by
  unfold overlap
  omega

/-- Elements are counted in turn. -/
theorem overlap_add {first middle last : Nat} (before : first ≤ middle) (behind : middle ≤ last) :
    overlap traits first last block =
      overlap traits first middle block + overlap traits middle last block := by
  unfold overlap
  omega

/-- A block that begins before the last element and ends behind the first has some. -/
theorem overlap_pos {first last : Nat} (some : first < last)
    (begins : block * traits.blockSize < last)
    (ends : first < block * traits.blockSize + traits.blockSize) :
    0 < overlap traits first last block := by
  have large := traits.large
  unfold overlap
  omega

/-- A block is full of elements before `last` if it ends before it. -/
theorem overlap_eq_blockSize_iff (last : Nat) : overlap traits 0 last block = traits.blockSize ↔
    block * traits.blockSize + traits.blockSize ≤ last := by
  have large := traits.large
  unfold overlap
  omega

end Overlap

/-- Blocks come one behind the other. -/
theorem block_le (traits : Traits) {block other : Nat} (before : block < other) :
    block * traits.blockSize + traits.blockSize ≤ other * traits.blockSize := by
  have next : (block + 1) * traits.blockSize ≤ other * traits.blockSize :=
    Nat.mul_le_mul_right _ before
  rwa [Nat.add_mul, Nat.one_mul] at next

/-- A run overlaps its own block and no other. -/
theorem Run.Fits.overlap_eq {traits : Traits} {head : Nat} {run : Run} (fits : run.Fits traits head)
    (block : Nat) : overlap traits run.start run.endIndex block =
      if block = run.block traits then run.endIndex - run.start else 0 := by
  have low := Nat.div_mul_le_self run.start traits.blockSize
  have inside := fits.block
  unfold overlap Run.block
  split
  · rename_i own
    subst own
    omega
  · rename_i foreign
    rcases Nat.lt_or_gt_of_ne foreign with before | behind
    · have apart := block_le traits before
      omega
    · have apart := block_le traits behind
      omega

namespace Point

variable {α : Type}

/-- The elements of a block a thread has claimed and not counted as dequeued. -/
def owes (traits : Traits) (block : Nat) : Point α → Int
  | .move run _ | .setEmpty run _ => overlap traits run.start run.last block
  | .free run _ => overlap traits run.endIndex run.last block
  | _ => 0

/-- Whether a thread is going to put a block back. -/
def freeing (traits : Traits) (block : Nat) : Point α → Int
  | .free run _ => if run.block traits = block then 1 else 0
  | _ => 0

/-- Nobody owes less than nothing. -/
theorem owes_nonneg (traits : Traits) (block : Nat) (point : Point α) :
    0 ≤ point.owes traits block := by
  cases point with
  | move run => exact Int.natCast_nonneg _
  | setEmpty run => exact Int.natCast_nonneg _
  | free run => exact Int.natCast_nonneg _
  | _ => exact Int.le_refl 0

/-- Nobody puts back less than nothing. -/
theorem freeing_nonneg (traits : Traits) (block : Nat) (point : Point α) :
    0 ≤ point.freeing traits block := by
  cases point with
  | free run =>
      simp only [freeing]
      split
      · exact Int.one_nonneg
      · exact Int.le_refl 0
  | _ => exact Int.le_refl 0

/-- The run a thread is in. -/
def run : Point α → Option Run
  | .move run _ | .setEmpty run _ | .free run _ => some run
  | _ => none

/-- The blocks a thread puts back with its next operation. -/
def frees (traits : Traits) : Point α → List Nat
  | .free run _ => [run.block traits]
  | _ => []

/-- Where a thread is in a run, that fits. -/
theorem Fits.run {traits : Traits} {queue : SubQueue α} {method : Method} {point : Point α}
    {run : Run} (fits : point.Fits traits queue method) (within : point.run = some run) :
    run.Fits traits queue.headIndex := by
  cases point with
  | move =>
      obtain ⟨⟩ := within
      exact fits.1
  | setEmpty =>
      obtain ⟨⟩ := within
      exact fits.1
  | free =>
      obtain ⟨⟩ := within
      exact fits.1
  | _ => cases within

/-- A thread owes elements of all blocks up to the end of its claim, except for one it
is about to put back. -/
theorem owes_pos {traits : Traits} {queue : SubQueue α} {method : Method} {point : Point α}
    {run : Run} (fits : point.Fits traits queue method) (within : point.run = some run)
    {block : Nat} (before : run.block traits ≤ block) (begins : block * traits.blockSize < run.last)
    (others : block = run.block traits → point.frees traits = []) :
    0 < point.owes traits block := by
  have high := Nat.lt_div_mul_add (a := run.start) (Nat.lt_trans Nat.one_pos traits.large)
  have further : run.block traits * traits.blockSize ≤ block * traits.blockSize :=
    Nat.mul_le_mul_right _ before
  have start : run.start < block * traits.blockSize + traits.blockSize :=
    high.trans_le (Nat.add_le_add_right further _)
  cases point with
  | move own removed =>
      obtain ⟨⟩ := within
      have some := fits.1.some.trans_le fits.1.upTo
      exact Int.natCast_pos.mpr (overlap_pos traits block some begins start)
  | setEmpty own removed =>
      obtain ⟨⟩ := within
      have some := fits.1.some.trans_le fits.1.upTo
      exact Int.natCast_pos.mpr (overlap_pos traits block some begins start)
  | free own removed =>
      obtain ⟨⟩ := within
      have behind : run.block traits < block := by
        apply Nat.lt_of_le_of_ne before
        rintro rfl
        exact List.cons_ne_nil _ _ (others rfl)
      have apart := (fits.1.block.trans (block_le traits behind)).trans_lt begins
      refine Int.natCast_pos.mpr (overlap_pos traits block apart begins ?_)
      exact (fits.1.block.trans (block_le traits behind)).trans_lt
        (Nat.lt_add_of_pos_right (Nat.lt_trans Nat.one_pos traits.large))
  | _ => cases within

/-- Behind a block a thread owes the rest, and does not put another one back. -/
theorem next_owes (traits : Traits) (block : Nat) (run : Run) (removed : List α) :
    (run.next traits removed).owes traits block = overlap traits run.endIndex run.last block ∧
      (run.next traits removed).freeing traits block = 0 := by
  unfold Run.next
  split
  · rename_i ended
    rw [ended, overlap_self]
    exact ⟨rfl, rfl⟩
  · exact ⟨rfl, rfl⟩

end Point

section Destruction

variable (traits : Traits) (block : Nat)

/-- Behind its first element, the loop of the destructor puts back each block it
leaves. -/
theorem destroyFrom_count (index left : Nat) :
    (destroyFrom traits (index + 1) (some (index / traits.blockSize)) left).count block =
      if index / traits.blockSize ≤ block ∧ block < (index + left) / traits.blockSize then 1
      else 0 := by
  induction left generalizing index with
  | zero =>
      rw [destroyFrom, List.count_nil, if_neg]
      rw [Nat.add_zero]
      omega
  | succ left inductionHypothesis =>
      have reached : index + (left + 1) = index + 1 + left := by omega
      have further : (index + 1) / traits.blockSize ≤ (index + 1 + left) / traits.blockSize :=
        Nat.div_le_div_right (Nat.le_add_right ..)
      rw [destroyFrom, reached]
      by_cases boundary : (index + 1) % traits.blockSize = 0
      · have next : (index + 1) / traits.blockSize = index / traits.blockSize + 1 :=
          Nat.succ_div_of_dvd (Nat.dvd_of_mod_eq_zero boundary)
        rw [if_pos (.inl boundary), Option.toList_some, List.singleton_append, List.count_cons,
          inductionHypothesis]
        simp only [beq_iff_eq]
        split <;> split <;> split <;> omega
      · have same : (index + 1) / traits.blockSize = index / traits.blockSize :=
          Nat.succ_div_of_not_dvd fun divides => boundary (Nat.mod_eq_zero_of_dvd divides)
        have inside : ¬((index + 1) % traits.blockSize = 0 ∨
            some (index / traits.blockSize) = none) := by
          rintro (ends | absent)
          · exact boundary ends
          · cases absent
        rw [if_neg inside, ← same, inductionHypothesis]

/-- A block begins before `last` if it is not behind the one of the last element. -/
theorem begins_before_iff {last : Nat} (some : 0 < last) :
    block * traits.blockSize < last ↔ block ≤ (last - 1) / traits.blockSize := by
  rw [Nat.le_div_iff_mul_le (Nat.lt_trans Nat.one_pos traits.large)]
  omega

/-- The destructor puts back the blocks from that of the head on. -/
theorem destroy_count {α : Type} (queue : SubQueue α) (behind : queue.headIndex ≤ queue.tailIndex) :
    (queue.destroy traits).count block =
      if queue.headIndex / traits.blockSize ≤ block ∧ block * traits.blockSize < queue.tailIndex
      then 1 else 0 := by
  have nonzero : 0 < traits.blockSize := Nat.lt_trans Nat.one_pos traits.large
  rcases behind.eq_or_lt with empty | some
  · rw [destroy, empty, Nat.sub_self, destroyFrom, List.nil_append]
    by_cases incomplete : queue.tailIndex % traits.blockSize = 0
    · have ends := Nat.div_mul_cancel (Nat.dvd_of_mod_eq_zero incomplete)
      rw [if_neg (fun remains => remains.elim (· rfl) (· incomplete)), List.count_nil, if_neg]
      rintro ⟨before, begun⟩
      have further := Nat.mul_le_mul_right traits.blockSize before
      omega
    · have positive : 0 < queue.tailIndex := by
        apply Nat.pos_of_ne_zero
        intro zero
        rw [zero, Nat.zero_mod] at incomplete
        exact incomplete rfl
      have last : (queue.tailIndex - 1 + 1) / traits.blockSize =
          (queue.tailIndex - 1) / traits.blockSize := by
        apply Nat.succ_div_of_not_dvd
        rw [Nat.sub_add_cancel positive]
        exact fun divides => incomplete (Nat.mod_eq_zero_of_dvd divides)
      rw [Nat.sub_add_cancel positive] at last
      have begins := begins_before_iff traits block positive
      rw [if_pos (.inr incomplete), tailBlock, if_neg positive.ne', Option.toList_some,
        List.count_singleton]
      simp only [beq_iff_eq]
      split <;> split <;> omega
  · obtain ⟨left, tail⟩ := Nat.exists_eq_add_of_lt some
    have positive : 0 < queue.tailIndex := by omega
    have before : queue.headIndex / traits.blockSize ≤ (queue.tailIndex - 1) / traits.blockSize :=
      Nat.div_le_div_right (by omega)
    have count : queue.tailIndex - queue.headIndex = left + 1 := by omega
    have reached : queue.headIndex + left = queue.tailIndex - 1 := by omega
    have begins := begins_before_iff traits block positive
    have remains : queue.headIndex ≠ queue.tailIndex ∨ queue.tailIndex % traits.blockSize ≠ 0 :=
      .inl some.ne
    rw [destroy, count, destroyFrom, if_pos (.inr rfl), Option.toList_none, List.nil_append,
      List.count_append, destroyFrom_count, reached, if_pos remains, tailBlock,
      if_neg positive.ne', Option.toList_some, List.count_singleton]
    simp only [beq_iff_eq]
    split <;> split <;> split <;> omega

end Destruction

/-- One for a block all of whose elements are counted as dequeued. -/
def full {α : Type} (traits : Traits) (queue : SubQueue α) (block : Nat) : Int :=
  if queue.elementsCompletelyDequeued block = traits.blockSize then 1 else 0

section Advance

variable {α : Type} {traits : Traits} {queue later : SubQueue α} {method : Method}
  {point after : Point α}

/-- What the head moves over is owed until it is counted. -/
theorem advance_owes (fits : point.Fits traits queue method)
    (moves : queue.advance traits method point = some (later, after)) (block : Nat) :
    (later.elementsCompletelyDequeued block : Int) + after.owes traits block =
      queue.elementsCompletelyDequeued block + point.owes traits block +
        overlap traits queue.headIndex later.headIndex block := by
  have still : (queue.elementsCompletelyDequeued block : Int) + 0 =
      queue.elementsCompletelyDequeued block + 0 +
        overlap traits queue.headIndex queue.headIndex block := by
    rw [overlap_self]
    rfl
  cases point with
  | loadTail => obtain ⟨⟩ := moves; exact still
  | loadOvercommit => obtain ⟨⟩ := moves; exact still
  | reserve => obtain ⟨⟩ := moves; exact still
  | loadOptimisticCount =>
      simp only [advance] at moves
      split at moves <;> (obtain ⟨⟩ := moves; exact still)
  | reloadTail =>
      simp only [advance] at moves
      split at moves <;> (obtain ⟨⟩ := moves; exact still)
  | giveBack =>
      obtain ⟨⟩ := moves
      split <;> exact still
  | claim actualCount =>
      obtain ⟨⟩ := moves
      simp only [Point.owes, Run.begin]
      omega
  | move run removed =>
      simp only [advance] at moves
      split at moves
      · obtain ⟨⟩ := moves
        simp only [Point.owes, overlap_self]
        omega
      · split at moves
        · obtain ⟨⟩ := moves
          simp only [Point.owes, overlap_self]
          omega
        · cases moves
  | setEmpty run removed =>
      have own := fits.1.overlap_eq block
      have cut := overlap_add traits block fits.1.some.le fits.1.upTo
      have counted : (Function.update queue.elementsCompletelyDequeued (run.block traits)
          (queue.elementsCompletelyDequeued (run.block traits) + (run.endIndex - run.start))
          block) = queue.elementsCompletelyDequeued block +
              overlap traits run.start run.endIndex block := by
        rw [own, Function.update_apply]
        split
        · rename_i same
          rw [same]
        · rfl
      simp only [advance] at moves
      split at moves
      · obtain ⟨⟩ := moves
        simp only [Point.owes, counted, overlap_self]
        omega
      · obtain ⟨⟩ := moves
        rw [(Point.next_owes traits block run removed).1]
        simp only [Point.owes, counted, overlap_self]
        omega
  | free run removed =>
      obtain ⟨⟩ := moves
      rw [(Point.next_owes traits block run removed).1]
      simp only [Point.owes, overlap_self]
      omega
  | done => cases moves

/-- A block is put back when it becomes full: by the thread that counts the last of
its elements. -/
theorem advance_frees (fits : point.Fits traits queue method)
    (counted : ∀ run removed, point = .setEmpty run removed →
      queue.elementsCompletelyDequeued (run.block traits) + (run.endIndex - run.start) ≤
        traits.blockSize)
    (moves : queue.advance traits method point = some (later, after)) (block : Nat) :
    (later.freed.count block : Int) + after.freeing traits block + queue.full traits block =
      queue.freed.count block + point.freeing traits block + later.full traits block := by
  cases point with
  | loadTail => obtain ⟨⟩ := moves; rfl
  | loadOvercommit => obtain ⟨⟩ := moves; rfl
  | reserve => obtain ⟨⟩ := moves; rfl
  | loadOptimisticCount =>
      simp only [advance] at moves
      split at moves <;> (obtain ⟨⟩ := moves; rfl)
  | reloadTail =>
      simp only [advance] at moves
      split at moves <;> (obtain ⟨⟩ := moves; rfl)
  | giveBack =>
      obtain ⟨⟩ := moves
      split <;> rfl
  | claim => obtain ⟨⟩ := moves; rfl
  | move =>
      simp only [advance] at moves
      split at moves
      · obtain ⟨⟩ := moves; rfl
      · split at moves
        · obtain ⟨⟩ := moves; rfl
        · cases moves
  | setEmpty run removed =>
      have some := fits.1.some
      have within := counted run removed rfl
      simp only [advance] at moves
      split at moves
      · rename_i last
        obtain ⟨⟩ := moves
        simp only [Point.freeing, full, Function.update_apply]
        by_cases own : block = run.block traits
        · subst own
          rw [if_pos rfl, if_neg (by omega), if_pos rfl, if_pos last]
          omega
        · rw [if_neg (Ne.symm own), if_neg own]
      · rename_i more
        obtain ⟨⟩ := moves
        rw [(Point.next_owes traits block run removed).2]
        simp only [Point.freeing, full, Function.update_apply]
        by_cases own : block = run.block traits
        · subst own
          rw [if_neg (by omega), if_pos rfl, if_neg more]
        · rw [if_neg own]
  | free run removed =>
      obtain ⟨⟩ := moves
      rw [(Point.next_owes traits block run removed).2, List.count_append, List.count_singleton]
      simp only [Point.freeing, full, beq_iff_eq]
      split <;> omega
  | done => cases moves

/-- Blocks are put back by this operation and no other. -/
theorem advance_freed (moves : queue.advance traits method point = some (later, after)) :
    later.freed = queue.freed ++ point.frees traits := by
  have still : queue.freed = queue.freed ++ [] := (List.append_nil _).symm
  cases point with
  | loadOptimisticCount =>
      simp only [advance] at moves
      split at moves <;> (obtain ⟨⟩ := moves; exact still)
  | reloadTail =>
      simp only [advance] at moves
      split at moves <;> (obtain ⟨⟩ := moves; exact still)
  | move =>
      simp only [advance] at moves
      split at moves
      · obtain ⟨⟩ := moves
        exact still
      · split at moves
        · obtain ⟨⟩ := moves
          exact still
        · cases moves
  | setEmpty =>
      simp only [advance] at moves
      split at moves <;> (obtain ⟨⟩ := moves; exact still)
  | free =>
      obtain ⟨⟩ := moves
      rfl
  | done => cases moves
  | _ =>
      obtain ⟨⟩ := moves
      exact still

end Advance

namespace Sharing

section Accounts

variable {ι α : Type} [Fintype ι]

/-- Every claimed element of a block is counted or owed, and a full block is put
back or about to be. -/
structure Recycled (traits : Traits) (state : Sharing ι α) : Prop where
  dequeued : ∀ block, (state.queue.elementsCompletelyDequeued block : Int) +
    total (weigh (Point.owes traits block)) state.places =
      overlap traits 0 state.queue.headIndex block
  freed : ∀ block, (state.queue.freed.count block : Int) +
    total (weigh (Point.freeing traits block)) state.places = state.queue.full traits block

namespace Recycled

variable {traits : Traits} {state : Sharing ι α}

/-- A thread owes no more of a block than there is left to count. -/
theorem owes_le (recycled : state.Recycled traits) (thread : ι) (block : Nat) :
    (state.queue.elementsCompletelyDequeued block : Int) +
      weigh (Point.owes traits block) (state.places thread) ≤ traits.blockSize := by
  have own := weight_le_total
    (fun other => weigh_nonneg (Point.owes_nonneg traits block) (state.places other)) thread
  have dequeued := recycled.dequeued block
  have within := overlap_le traits block 0 state.queue.headIndex
  omega

/-- No block counts more elements than it has. -/
theorem counted_le (recycled : state.Recycled traits) (block : Nat) :
    state.queue.elementsCompletelyDequeued block ≤ traits.blockSize := by
  have others : 0 ≤ total (weigh (Point.owes traits block)) state.places :=
    total_nonneg fun other => weigh_nonneg (Point.owes_nonneg traits block) (state.places other)
  have dequeued := recycled.dequeued block
  have within := overlap_le traits block 0 state.queue.headIndex
  omega

/-- A block which counts less than it has is not put back. -/
theorem not_freed (recycled : state.Recycled traits) {block : Nat}
    (less : state.queue.elementsCompletelyDequeued block < traits.blockSize) :
    block ∉ state.queue.freed := by
  have freeing : 0 ≤ total (weigh (Point.freeing traits block)) state.places :=
    total_nonneg fun other => weigh_nonneg (Point.freeing_nonneg traits block) (state.places other)
  have freed := recycled.freed block
  rw [full, if_neg less.ne] at freed
  intro present
  have positive := List.count_pos_iff.mpr present
  omega

/-- A block is put back once, if at all. -/
theorem freed_once (recycled : state.Recycled traits) : state.queue.freed.Nodup := by
  rw [List.nodup_iff_count_le_one]
  intro block
  have freeing : 0 ≤ total (weigh (Point.freeing traits block)) state.places :=
    total_nonneg fun other => weigh_nonneg (Point.freeing_nonneg traits block) (state.places other)
  have freed := recycled.freed block
  unfold full at freed
  split at freed <;> omega

/-- A thread that takes elements out of a block has all of it left. -/
theorem in_use (recycled : state.Recycled traits) {thread : ι} {method : Method} {point : Point α}
    (here : state.places thread = some (method, point)) {run : Run}
    (fits : run.Fits traits state.queue.headIndex)
    (owes : point.owes traits (run.block traits) =
      overlap traits run.start run.last (run.block traits)) :
    state.queue.elementsCompletelyDequeued (run.block traits) + (run.endIndex - run.start) ≤
        traits.blockSize ∧ run.block traits ∉ state.queue.freed := by
  have within := recycled.owes_le thread (run.block traits)
  have own := fits.overlap_eq (run.block traits)
  have cut := overlap_add traits (run.block traits) fits.some.le fits.upTo
  have some := fits.some
  rw [here] at within
  change _ + point.owes traits (run.block traits) ≤ _ at within
  rw [owes] at within
  rw [if_pos rfl] at own
  exact ⟨by omega, recycled.not_freed (by omega)⟩

/-- The block a thread is in is not put back before it does so itself. -/
theorem run_not_freed (recycled : state.Recycled traits) {thread : ι} {method : Method}
    {point : Point α} (here : state.places thread = some (method, point))
    (fits : point.Fits traits state.queue method) {run : Run} (within : point.run = some run) :
    run.block traits ∉ state.queue.freed := by
  cases point with
  | move own removed =>
      obtain ⟨⟩ := within
      exact (recycled.in_use here fits.1 rfl).2
  | setEmpty own removed =>
      obtain ⟨⟩ := within
      exact (recycled.in_use here fits.1 rfl).2
  | free own removed =>
      obtain ⟨⟩ := within
      have share := weight_le_total (fun other =>
        weigh_nonneg (Point.freeing_nonneg traits (run.block traits)) (state.places other)) thread
      rw [here] at share
      simp only [weigh, Point.freeing, if_true] at share
      have freed := recycled.freed (run.block traits)
      intro present
      have positive := List.count_pos_iff.mpr present
      unfold full at freed
      split at freed <;> omega
  | _ => cases within

/-- A block of which a thread owes elements is in use, and nobody else is about to put
it back. -/
theorem owed_in_use (recycled : state.Recycled traits) {thread : ι} {method : Method}
    {point : Point α} (here : state.places thread = some (method, point)) {block : Nat}
    (owes : 0 < point.owes traits block) : block ∉ state.queue.freed ∧
      total (weigh (Point.freeing traits block)) state.places = 0 := by
  have within := recycled.owes_le thread block
  rw [here] at within
  change _ + point.owes traits block ≤ _ at within
  have less : state.queue.elementsCompletelyDequeued block < traits.blockSize := by omega
  refine ⟨recycled.not_freed less, ?_⟩
  have freeing : 0 ≤ total (weigh (Point.freeing traits block)) state.places :=
    total_nonneg fun other => weigh_nonneg (Point.freeing_nonneg traits block) (state.places other)
  have freed := recycled.freed block
  rw [full, if_neg less.ne] at freed
  omega

/-- A block that was put back is behind the head. -/
theorem freed_behind (recycled : state.Recycled traits) {block : Nat}
    (freed : block ∈ state.queue.freed) :
    block * traits.blockSize + traits.blockSize ≤ state.queue.headIndex := by
  rw [← overlap_eq_blockSize_iff]
  have others : 0 ≤ total (weigh (Point.owes traits block)) state.places :=
    total_nonneg fun other => weigh_nonneg (Point.owes_nonneg traits block) (state.places other)
  have dequeued := recycled.dequeued block
  have within := overlap_le traits block 0 state.queue.headIndex
  have all := Nat.le_of_not_lt fun less => recycled.not_freed less freed
  omega

/-- With no thread inside, the blocks before that of the head are put back. -/
theorem freed_idle (recycled : state.Recycled traits)
    (idle : ∀ thread, state.places thread = none) (block : Nat) :
    state.queue.freed.count block =
      if block < state.queue.headIndex / traits.blockSize then 1 else 0 := by
  obtain places : state.places = fun _ => none := funext idle
  have dequeued := recycled.dequeued block
  have freed := recycled.freed block
  rw [places, total_idle] at dequeued freed
  have ends : block < state.queue.headIndex / traits.blockSize ↔
      state.queue.elementsCompletelyDequeued block = traits.blockSize := by
    rw [← Nat.succ_le_iff, Nat.le_div_iff_mul_le (Nat.lt_trans Nat.one_pos traits.large),
      Nat.succ_mul, ← overlap_eq_blockSize_iff]
    omega
  unfold full at freed
  split at freed <;> split <;> omega

end Recycled

/-- What the source asserts of a block's counter, and what it relies on for the
free list: a block is put back once, behind the last of its elements, and nobody
reads or writes it afterwards. -/
structure BlocksSafe (traits : Traits) (state : Sharing ι α) : Prop where
  once : state.queue.freed.Nodup
  counted : ∀ block, state.queue.elementsCompletelyDequeued block ≤ traits.blockSize
  counts : ∀ thread method run removed,
    state.places thread = some (method, .setEmpty run removed) →
      state.queue.elementsCompletelyDequeued (run.block traits) + (run.endIndex - run.start) ≤
        traits.blockSize
  behind : ∀ block ∈ state.queue.freed,
    block * traits.blockSize + traits.blockSize ≤ state.queue.headIndex
  dequeuing : ∀ thread method point run, state.places thread = some (method, point) →
    point.run = some run → run.block traits ∉ state.queue.freed
  enqueuing : ∀ index, state.queue.tailIndex ≤ index →
    index / traits.blockSize ∉ state.queue.freed

end Accounts

variable {ι α : Type} [Fintype ι] [DecidableEq ι]

/-- A step loses no element of a block, and no block. -/
theorem Recycled.step {traits : Traits} {events : List (Event ι α)} {state next : Sharing ι α}
    {event : Event ι α} (recycled : state.Recycled traits) (handed : state.Handed traits events)
    (step : Step traits state event next) : next.Recycled traits := by
  cases step with
  | construct => exact ⟨recycled.dequeued, recycled.freed⟩
  | publish => exact ⟨recycled.dequeued, recycled.freed⟩
  | discard => exact ⟨recycled.dequeued, recycled.freed⟩
  | call method idle =>
      constructor
      · intro block
        rw [← recycled.dequeued block, move, total_moved idle]
        simp only [weigh, Point.owes]
        omega
      · intro block
        rw [← recycled.freed block, move, total_moved idle]
        simp only [weigh, Point.freeing]
        omega
  | @advance thread method point queue after here moves =>
      have fits := handed.fits thread method point here
      obtain ⟨head, _⟩ := advance_head moves
      constructor
      · intro block
        have owes := advance_owes fits moves block
        have dequeued := recycled.dequeued block
        have grown := overlap_add traits block (Nat.zero_le _) head
        rw [move, total_moved here]
        simp only [weigh]
        omega
      · intro block
        have frees := advance_frees fits ?_ moves block
        · have freed := recycled.freed block
          rw [move, total_moved here]
          simp only [weigh]
          omega
        · rintro run removed rfl
          exact (recycled.in_use here fits.1 rfl).1
  | finish here =>
      constructor
      · intro block
        rw [← recycled.dequeued block, move, total_moved here]
        simp only [weigh, Point.owes]
        omega
      · intro block
        rw [← recycled.freed block, move, total_moved here]
        simp only [weigh, Point.freeing]
        omega

/-- Threads keep the blocks. -/
def recycles (traits : Traits) (ι α : Type) [Fintype ι] [DecidableEq ι] :
    (system traits ι α).Invariant :=
  (handsOut traits ι α).beside InRange (fun _ state => state.Recycled traits)
    (by
      rintro _ rfl
      have large := traits.large
      constructor
      · intro block
        rw [total_idle, overlap_self]
        rfl
      · intro block
        rw [total_idle, full, if_neg (by change 0 ≠ traits.blockSize; omega)]
        rfl)
    Step.inRange (fun held small recycled step => recycled.step (held.2 small) step)

/-- However threads interleave, no block is put back twice, too early, or while
anybody uses it. -/
theorem always_blocks_safe (traits : Traits) (ι α : Type) [Fintype ι] [DecidableEq ι]
    (events : List (Event ι α)) :
    (system traits ι α).Always (fun _ state =>
      state.InRange → state.BlocksSafe traits) events := by
  intro before state _ run small
  obtain ⟨⟨held, hands⟩, keeps⟩ := (recycles traits ι α).of_runs run
  obtain ⟨log, reserved⟩ := held small
  have handed := hands small
  have recycled := keeps small
  refine ⟨recycled.freed_once, recycled.counted_le, ?_, fun _ => recycled.freed_behind, ?_, ?_⟩
  · intro thread method run removed here
    exact (recycled.in_use here (handed.fits thread method _ here).1 rfl).1
  · intro thread method point run here within
    exact recycled.run_not_freed here (handed.fits thread method point here) within
  · intro index further freed
    have behind := recycled.freed_behind freed
    have high := Nat.lt_div_mul_add (a := index) (Nat.lt_trans Nat.one_pos traits.large)
    have bounds := reserved.inBounds.head
    omega

/-- Whatever threads have done, when they are all done the destructor puts back the
blocks that are left: each block that was ever used is put back exactly once. -/
theorem always_destroyed (traits : Traits) (ι α : Type) [Fintype ι] [DecidableEq ι]
    (events : List (Event ι α)) :
    (system traits ι α).Always (fun _ state => state.InRange →
      (∀ thread, state.places thread = none) → ∀ block,
        (state.queue.freed ++ state.queue.destroy traits).count block =
          if block * traits.blockSize < state.queue.tailIndex then 1 else 0) events := by
  intro before state _ run small idle block
  obtain ⟨⟨held, _⟩, keeps⟩ := (recycles traits ι α).of_runs run
  obtain ⟨log, reserved⟩ := held small
  have recycled := keeps small
  have bounds := reserved.inBounds.head
  have low : block < state.queue.headIndex / traits.blockSize →
      block * traits.blockSize < state.queue.tailIndex := by
    intro before
    have ends := Nat.div_mul_le_self state.queue.headIndex traits.blockSize
    have apart := block_le traits before
    have large := traits.large
    omega
  rw [List.count_append, recycled.freed_idle idle, destroy_count traits block _ bounds]
  split <;> split <;> split <;> omega

end Sharing

end Traft.Moodycamel.SubQueue
