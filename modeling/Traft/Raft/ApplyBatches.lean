import Traft.Raft.Node
import Traft.Semantics.Batching

/-!
# How the cut into batches shows

`running_` is cleared inside a batch and tested only between batches. A log is
let through behind a `QuitEntry` when it shares that entry's batch, so the cut
shows exactly when such a log stands within a batch's reach.
-/

namespace Traft.Raft

open Traft.Semantics

namespace RaftNode

/-- The loop over a splitting of a queue: the logs afterwards and the number of
ballots launched. -/
def applyBatches (build : Build) (node : RaftNode) (batches : List (List UserLog)) :
    Except Fault (List UserLog × Nat) := do
  let (after, userLogs) ← node.executeApplyUserLog build emptySlots batches
  return (userLogs,
    after.ballotBox.waitingQueue.length - node.ballotBox.waitingQueue.length)

/-- All splittings of a queue into batches the array can take stamp the same logs
and launch the same number of ballots. -/
def Agrees (build : Build) (node : RaftNode) (userLogs : List UserLog) : Prop :=
  ∀ batches others, Splits kRaftApplyBatch batches userLogs →
    Splits kRaftApplyBatch others userLogs →
    node.applyBatches build batches = node.applyBatches build others

/-- The outcome when the first `count` logs are applied. -/
def outcome (node : RaftNode) (userLogs : List UserLog) (count : Nat) : List UserLog × Nat :=
  ((userLogs.take count).map (UserLog.stamped node.currentTerm) ++ userLogs.drop count,
    (userLogs.take count).countP (·.Expects node.currentTerm))

/-- The filled part of the array is the batch. -/
theorem take_fill (slots dequeued : List UserLog) :
    (fill slots dequeued).take dequeued.length = dequeued :=
  List.take_left

/-- A node that has stopped leaves every log alone. -/
theorem executeApplyUserLog_stopped (build : Build) {node : RaftNode}
    (stopped : node.running = false) (slots : List UserLog) (batches : List (List UserLog)) :
    node.executeApplyUserLog build slots batches = .ok (node, batches.flatten) := by
  cases batches <;> simp [executeApplyUserLog, stopped, pure, Except.pure]

/-- The loop applies what it is handed and leaves the other logs alone. -/
theorem executeApplyUserLog_userLogs (build : Build) {node : RaftNode}
    (running : node.running = true) (slots : List UserLog) {batches : List (List UserLog)}
    (user : ∀ userLog ∈ batches.flatten, userLog.log.entry.isUser = true) :
    node.executeApplyUserLog build slots batches =
      .ok (node.applied (handedOver (UserLog.Quits node.currentTerm) batches),
        (handedOver (UserLog.Quits node.currentTerm) batches).map
            (UserLog.stamped node.currentTerm) ++
          batches.flatten.drop
            (handedOver (UserLog.Quits node.currentTerm) batches).length) := by
  induction batches generalizing node slots with
  | nil => simp [executeApplyUserLog, handedOver, applied, pure, Except.pure]
  | cons batch rest inductionHypothesis =>
      have userBatch : ∀ userLog ∈ batch, userLog.log.entry.isUser = true :=
        fun userLog present => user userLog (List.mem_append_left _ present)
      have userRest : ∀ userLog ∈ rest.flatten, userLog.log.entry.isUser = true :=
        fun userLog present => user userLog (List.mem_append_right _ present)
      rw [executeApplyUserLog, if_pos running, handedOver]
      dsimp only
      by_cases empty : batch.length = 0
      · obtain rfl := List.length_eq_zero_iff.mp empty
        rw [if_pos empty, inductionHypothesis running _ userRest]
        simp
      rw [if_neg empty, take_fill, node.doApply_userLogs build userBatch]
      by_cases stopping : batch.any (UserLog.Quits node.currentTerm) = true
      · have stopped : (node.applied batch).running = false := by
          simp [applied, stopping]
        simp only [bind, Except.bind, executeApplyUserLog_stopped build stopped, stopping,
          if_true, pure, Except.pure, List.flatten_cons, List.drop_left]
      · have stillRunning : (node.applied batch).running = true := by
          simp [applied, running, stopping]
        have later := inductionHypothesis stillRunning
          (batch.map (UserLog.stamped node.currentTerm) ++ (fill slots batch).drop batch.length)
          userRest
        rw [applied_append, applied_currentTerm] at later
        simp only [bind, Except.bind, later, stopping, pure, Except.pure]
        simp [List.drop_length_add_append]

/-- The outcome over batches of user logs, in terms of what is handed over. -/
theorem applyBatches_userLogs (build : Build) {node : RaftNode} (running : node.running = true)
    {userLogs : List UserLog} (user : ∀ userLog ∈ userLogs, userLog.log.entry.isUser = true)
    {batches : List (List UserLog)} (splits : Splits kRaftApplyBatch batches userLogs) :
    node.applyBatches build batches =
      .ok ((handedOver (UserLog.Quits node.currentTerm) batches).map
            (UserLog.stamped node.currentTerm) ++
          userLogs.drop (handedOver (UserLog.Quits node.currentTerm) batches).length,
        (handedOver (UserLog.Quits node.currentTerm) batches).countP
          (·.Expects node.currentTerm)) := by
  obtain rfl := splits.whole
  rw [applyBatches, executeApplyUserLog_userLogs build running emptySlots user]
  simp [applied, bind, Except.bind, pure, Except.pure]

/-- Every splitting applies the logs up to and including the first `QuitEntry` let
through, and fewer than a batch behind it. All splittings agree exactly if none
of the logs that may share a batch with that entry is let through. -/
theorem agrees_iff (build : Build) {node : RaftNode} (running : node.running = true)
    {userLogs : List UserLog} (user : ∀ userLog ∈ userLogs, userLog.log.entry.isUser = true) :
    (∀ batches, Splits kRaftApplyBatch batches userLogs → ∃ extra < kRaftApplyBatch,
      node.applyBatches build batches = .ok (node.outcome userLogs
        (userLogs.findIdx (UserLog.Quits node.currentTerm) + 1 + extra))) ∧
    (node.Agrees build userLogs ↔
      Quiet (UserLog.Quits node.currentTerm) (·.Expects node.currentTerm) kRaftApplyBatch
        userLogs) := by
  have positive : 0 < kRaftApplyBatch := by decide
  refine ⟨fun batches splits => ?_, fun agrees => ?_, fun quiet batches others splits splits' => ?_⟩
  · obtain ⟨extra, bound, handed⟩ :=
      handedOver_eq_take (UserLog.Quits node.currentTerm) positive splits
    refine ⟨extra, bound, ?_⟩
    have behind : userLogs.drop (userLogs.take
          (userLogs.findIdx (UserLog.Quits node.currentTerm) + 1 + extra)).length =
        userLogs.drop (userLogs.findIdx (UserLog.Quits node.currentTerm) + 1 + extra) :=
      drop_length_take userLogs _
    rw [applyBatches_userLogs build running user splits, handed, behind, outcome]
  · rw [← countP_handedOver_eq_iff _ _ positive]
    intro batches others splits splits'
    have same := agrees batches others splits splits'
    rw [applyBatches_userLogs build running user splits,
      applyBatches_userLogs build running user splits'] at same
    exact congrArg Prod.snd (Except.ok.inj same)
  · have idle : ∀ userLog : UserLog, userLog.Expects node.currentTerm = false →
        userLog.stamped node.currentTerm = userLog := by
      intro userLog filtered
      simp [UserLog.stamped, filtered]
    rw [applyBatches_userLogs build running user splits,
      applyBatches_userLogs build running user splits',
      quiet.map_handedOver positive idle splits, quiet.map_handedOver positive idle splits',
      (countP_handedOver_eq_iff _ _ positive userLogs).mpr quiet batches others splits splits']

/-- A quit followed by a log for another term: no splitting shows. -/
theorem agrees_iff_filtered :
    (∀ batches, Splits kRaftApplyBatch batches
        [{ log := { entry := .quit } }, { log := .ofData {}, expectedTerm := 4 }] →
      ∃ extra < kRaftApplyBatch,
        ({ running := true, currentTerm := 3 } : RaftNode).applyBatches .debug batches =
          .ok (({ running := true, currentTerm := 3 } : RaftNode).outcome
            [{ log := { entry := .quit } }, { log := .ofData {}, expectedTerm := 4 }]
            (0 + 1 + extra))) ∧
    (({ running := true, currentTerm := 3 } : RaftNode).Agrees .debug
        [{ log := { entry := .quit } }, { log := .ofData {}, expectedTerm := 4 }] ↔
      Quiet (UserLog.Quits 3) (·.Expects 3) kRaftApplyBatch
        [{ log := { entry := .quit } }, { log := .ofData {}, expectedTerm := 4 }]) :=
  agrees_iff .debug rfl (by decide)

/-- A quit and a data entry: in one batch both launch ballots, in two only the
first does. -/
theorem batches_disagree :
    (¬ ({ running := true } : RaftNode).Agrees .debug
      [{ log := { entry := .quit } }, { log := .ofData {} }]) ∧
    ¬ ({ running := true } : RaftNode).Agrees .release
      [{ log := { entry := .quit } }, { log := .ofData {} }] := by
  have together : Splits kRaftApplyBatch
      [[({ log := { entry := .quit } } : UserLog), { log := .ofData {} }]]
      [{ log := { entry := .quit } }, { log := .ofData {} }] :=
    ⟨rfl, by decide⟩
  have apart : Splits kRaftApplyBatch
      [[({ log := { entry := .quit } } : UserLog)], [{ log := .ofData {} }]]
      [{ log := { entry := .quit } }, { log := .ofData {} }] :=
    ⟨rfl, by decide⟩
  have fails : ∀ build, ¬ ({ running := true } : RaftNode).Agrees build
      [{ log := { entry := .quit } }, { log := .ofData {} }] := by
    intro build agrees
    have same := congrArg (Except.map Prod.snd) (agrees _ _ together apart)
    have differ : Except.ok 2 = (Except.ok 1 : Except Fault Nat) := by
      cases build <;> exact same
    cases differ
  exact ⟨fails .debug, fails .release⟩

end RaftNode

end Traft.Raft
