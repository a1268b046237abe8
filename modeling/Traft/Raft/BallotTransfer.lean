import Traft.Raft.BallotBox

/-!
# Moving ballots out of the waiting queue

`BeginVotingBallots_` moves ballots through a temporary vector for which it only
reserves storage. The ballots arrive as they should, but the vector stays empty,
and every ballot moved is written and read beyond its size.
-/

namespace Traft.Raft

open Traft.Memory

/-- `reserve` returns: the vector may be so large, and there is storage for it. -/
def Reservable (allocator : Allocator) (count : Nat) : Prop :=
  count ≤ kMaxBallots ∧ (count = 0 ∨ allocator.has count = true)

instance (allocator : Allocator) (count : Nat) : Decidable (Reservable allocator count) :=
  inferInstanceAs (Decidable (_ ∧ _))

/-- Where `reserve` returns it returns the storage asked for. -/
theorem reserveBallots_ok {allocator : Allocator} {count : Nat}
    (reservable : Reservable allocator count) :
    reserveBallots allocator count = .ok (Reserved.reserve count) := by
  obtain ⟨fits, granted⟩ := reservable
  have stored : ¬ (count > 0 ∧ allocator.has count = false) := by
    rintro ⟨positive, refused⟩
    rcases granted with rfl | granted
    · exact absurd positive (Nat.lt_irrefl 0)
    · exact Bool.false_ne_true (refused.symm.trans granted)
  rw [reserveBallots, if_neg (Nat.not_lt_of_le fits), if_neg stored]

/-- Where it does not return it throws. -/
theorem reserveBallots_throws {allocator : Allocator} {count : Nat}
    (refused : ¬ Reservable allocator count) :
    ∃ fault, fault.thrown = true ∧ reserveBallots allocator count = .error fault := by
  unfold reserveBallots
  by_cases huge : count > kMaxBallots
  · exact ⟨.lengthError, rfl, if_pos huge⟩
  · have missing : count > 0 ∧ allocator.has count = false := by
      rw [Reservable, not_and_or, not_or, Bool.not_eq_true] at refused
      rcases refused with huger | ⟨positive, missing⟩
      · exact absurd (Nat.lt_of_not_le huger) huge
      · exact ⟨Nat.pos_of_ne_zero positive, missing⟩
    exact ⟨.badAlloc, rfl, by rw [if_neg huge, if_pos missing]⟩

namespace BallotBox

/-- `BeginVotingBallots_` moves as many ballots as it was asked for or as there
are, reports a shortfall, and leaves its temporary vector with size zero. -/
theorem beginVotingBallots_ok {allocator : Allocator} (box : BallotBox) {need : Nat}
    (reservable : Reservable allocator need) :
    ∃ tempBallots, box.beginVotingBallots allocator need = .ok {
        box := { box with
          votingQueue := box.votingQueue ++ box.waitingQueue.take need
          waitingQueue := box.waitingQueue.drop need }
        complete := decide (need ≤ box.waitingQueue.length)
        tempBallots } ∧
      tempBallots.size = 0 ∧
      tempBallots.touched = List.range (min need box.waitingQueue.length) ++
        List.range (min need box.waitingQueue.length) := by
  have room : (box.waitingQueue.take need).length ≤ need := List.length_take_le _ _
  obtain ⟨written, final, wrote, read, size, touched⟩ :=
    Reserved.reserve_write_read need (box.waitingQueue.take need) room
  refine ⟨final, ?_, size, by simpa using touched⟩
  have complete : ((box.waitingQueue.take need).length == need) =
      decide (need ≤ box.waitingQueue.length) := by
    rw [Bool.eq_iff_iff, beq_iff_eq, decide_eq_true_iff, List.length_take]
    omega
  refine bind_ok.mpr ⟨_, reserveBallots_ok reservable, ?_⟩
  simp only [ConcurrentQueue.tryDequeueBulk]
  rw [wrote]
  simp only [access, read, complete, bind, Except.bind, pure, Except.pure]

/-- Without the storage it asks for it throws. -/
theorem beginVotingBallots_throws {allocator : Allocator} (box : BallotBox) {need : Nat}
    (refused : ¬ Reservable allocator need) :
    ∃ fault, fault.thrown = true ∧ box.beginVotingBallots allocator need = .error fault := by
  obtain ⟨fault, thrown, threw⟩ := reserveBallots_throws refused
  exact ⟨fault, thrown, bind_error.mpr (.inl threw)⟩

/-- `BeginVotingBallots_` moves the first ballots waiting, as many as it is asked
for or as there are, reports whether these are enough, and stays within its
temporary vector. -/
def TransfersExactly (allocator : Allocator) (box : BallotBox) (need : Nat) : Prop :=
  ∃ transfer, box.beginVotingBallots allocator need = .ok transfer ∧
    transfer.box = { box with
      votingQueue := box.votingQueue ++ box.waitingQueue.take (min need box.waitingQueue.length)
      waitingQueue := box.waitingQueue.drop (min need box.waitingQueue.length) } ∧
    (transfer.complete = true ↔ need ≤ box.waitingQueue.length) ∧
    transfer.tempBallots.WithinSize

/-- A transfer is exact where the vector may be as large as asked for, there is
storage for it, and there is nothing to move. -/
theorem transfersExactly_iff (allocator : Allocator) (box : BallotBox) (need : Nat) :
    box.TransfersExactly allocator need ↔ need ≤ kMaxBallots ∧
      (need = 0 ∨ (allocator.has need = true ∧ box.waitingQueue = [])) := by
  by_cases reservable : Reservable allocator need
  · obtain ⟨tempBallots, began, size, touched⟩ := box.beginVotingBallots_ok reservable
    obtain ⟨fits, granted⟩ := reservable
    have within : tempBallots.WithinSize ↔ min need box.waitingQueue.length = 0 := by
      rw [Reserved.withinSize_iff_untouched size, touched, List.append_eq_nil_iff, and_self,
        List.range_eq_nil]
    have nothing : min need box.waitingQueue.length = 0 ↔
        need = 0 ∨ (allocator.has need = true ∧ box.waitingQueue = []) := by
      rw [Nat.min_eq_zero_iff, List.length_eq_zero_iff]
      rcases granted with none | granted
      · exact iff_of_true (.inl none) (.inl none)
      · rw [granted, eq_self, true_and]
    rw [← nothing, ← within]
    constructor
    · rintro ⟨transfer, returned, _, _, inside⟩
      rw [began] at returned
      obtain rfl := Except.ok.inj returned
      exact ⟨fits, inside⟩
    · rintro ⟨_, inside⟩
      refine ⟨_, began, ?_, decide_eq_true_iff, inside⟩
      rw [← List.take_eq_take_min, ← List.drop_eq_drop_min]
  · obtain ⟨fault, _, threw⟩ := box.beginVotingBallots_throws reservable
    refine iff_of_false ?_ fun ⟨fits, granted⟩ => reservable ⟨fits, granted.imp_right And.left⟩
    rintro ⟨transfer, returned, _⟩
    rw [threw] at returned
    cases returned

/-- One ballot waits and one is asked for. -/
theorem not_transfersExactly_one : ¬ BallotBox.TransfersExactly .ample
    { waitingQueue := [Ballot.construct (Configuration.ofVoters 1 [replica 1]) {}] } 1 := by
  rintro ⟨transfer, returned, _, _, inside⟩
  obtain rfl := Except.ok.inj returned
  exact absurd (inside 0 (by decide)) (by decide)

end BallotBox

end Traft.Raft
