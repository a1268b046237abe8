import Traft.Raft.BallotBox
import Traft.Raft.LogEntry

/-!
# The apply path of a node

Clients hand tasks to `Apply`. The loop of `ExecuteApplyUserLog_` draws them into
a fixed array, batch by batch, and gives the filled part of it to `DoApply_`.
`doApply_userLogs` says what one batch does when it holds the entries a user may
send; later modules take their cases from it.
-/

namespace Traft.Raft

/-- `kRaftApplyBatch`: the number of slots of the array. -/
def kRaftApplyBatch : Nat := 32

/-- `UserLog`. -/
structure UserLog where
  log : LogEntry := {}
  expectedTerm : Int := kInvalidIndex

/-- `UserLog::UserLog(Task &)`. -/
def UserLog.ofTask (task : Task) : UserLog where
  log := .ofData task.data
  expectedTerm := task.expectedTerm

/-- The members of `RaftNode` which the apply path uses. -/
structure RaftNode where
  applyQueue : List UserLog := []
  confCtx : ConfigurationCtx := {}
  currentTerm : Int := 0
  ballotBox : BallotBox := {}
  running : Bool := false

/-- `LogVisitor` on one entry: `running_` afterwards. -/
def logVisitor (build : Build) (running : Bool) : Entry → Except Fault Bool
  | .quit => .ok false
  | .data _ => .ok running
  | .configuration .. | .noOp =>
      match build with
      | .debug => .error .assertionFailed
      | .release => .ok running

namespace RaftNode

/-- `Apply`. `enqueued` is the answer of the queue, which refuses a task when it
cannot allocate. -/
def apply (node : RaftNode) (task : Task) (enqueued : Bool) : ErrorCode × RaftNode :=
  if enqueued then
    (.ok, { node with
      applyQueue := ConcurrentQueue.enqueue node.applyQueue (UserLog.ofTask task) })
  else
    (.nodeAppendLogFailed, node)

/-- The loop body of `DoApply_`. -/
def applyLog (build : Build) (node : RaftNode) (userLog : UserLog) :
    Except Fault (RaftNode × UserLog) := do
  if userLog.expectedTerm ≠ kInvalidIndex ∧ userLog.expectedTerm ≠ node.currentTerm then
    return (node, userLog)
  let running ← logVisitor build node.running userLog.log.entry
  return (
    { node with
      running
      ballotBox := node.ballotBox.launchBallot node.confCtx.conf node.confCtx.oldConf },
    { userLog with log := userLog.log.setTerm node.currentTerm })

/-- `DoApply_`: the node and the logs of the span afterwards. -/
def doApply (build : Build) (node : RaftNode) :
    List UserLog → Except Fault (RaftNode × List UserLog)
  | [] => return (node, [])
  | userLog :: rest => do
      let (node, userLog) ← node.applyLog build userLog
      let (node, rest) ← node.doApply build rest
      return (node, userLog :: rest)

end RaftNode

/-- The array of `ExecuteApplyUserLog_`, default constructed. -/
def emptySlots : List UserLog := List.replicate kRaftApplyBatch {}

/-- The array after a dequeue has written its first slots. -/
def fill (slots dequeued : List UserLog) : List UserLog :=
  dequeued ++ slots.drop dequeued.length

/-- `ExecuteApplyUserLog_` over the batches its dequeues return: the node and all
the logs afterwards. Those still queued when the loop ends are as they were. -/
def RaftNode.executeApplyUserLog (build : Build) (node : RaftNode) (slots : List UserLog) :
    List (List UserLog) → Except Fault (RaftNode × List UserLog)
  | [] => return (node, [])
  | dequeued :: rest =>
      if node.running then
        let slots := fill slots dequeued
        let size := dequeued.length
        if size = 0 then
          node.executeApplyUserLog build slots rest
        else do
          let (node, applying) ← node.doApply build (slots.take size)
          let slots := applying ++ slots.drop size
          let (node, others) ← node.executeApplyUserLog build slots rest
          return (node, applying ++ others)
      else
        return (node, (dequeued :: rest).flatten)

/-- The term filter of `DoApply_` lets a log through. -/
def UserLog.Expects (userLog : UserLog) (term : Int) : Bool :=
  userLog.expectedTerm == kInvalidIndex || userLog.expectedTerm == term

/-- An entry that `LogVisitor` accepts. -/
def Entry.isUser : Entry → Bool
  | .data _ | .quit => true
  | _ => false

def Entry.isQuit : Entry → Bool
  | .quit => true
  | _ => false

/-- `DoApply_` clears `running_` for a log. -/
def UserLog.Quits (term : Int) (userLog : UserLog) : Bool :=
  userLog.Expects term && userLog.log.entry.isQuit

/-- A log with the current term where the filter lets it through. -/
def UserLog.stamped (term : Int) (userLog : UserLog) : UserLog :=
  if userLog.Expects term then
    { userLog with log := userLog.log.setTerm term }
  else
    userLog

namespace RaftNode

/-- The node after a batch: it has stopped if a log quit, and each log let through
has launched a ballot. -/
def applied (node : RaftNode) (userLogs : List UserLog) : RaftNode :=
  { node with
    running := node.running && !userLogs.any (UserLog.Quits node.currentTerm)
    ballotBox := { node.ballotBox with
      waitingQueue := node.ballotBox.waitingQueue ++
        List.replicate (userLogs.countP (·.Expects node.currentTerm))
          (Ballot.construct node.confCtx.conf node.confCtx.oldConf) } }

@[simp] theorem applied_currentTerm (node : RaftNode) (userLogs : List UserLog) :
    (node.applied userLogs).currentTerm = node.currentTerm := rfl

/-- One user log returns, stamps what it lets through and launches its ballot. -/
theorem applyLog_userLog (build : Build) (node : RaftNode) {userLog : UserLog}
    (user : userLog.log.entry.isUser = true) :
    node.applyLog build userLog =
      .ok (node.applied [userLog], userLog.stamped node.currentTerm) := by
  by_cases expected : userLog.Expects node.currentTerm = true
  · have passes : ¬ (userLog.expectedTerm ≠ kInvalidIndex ∧
        userLog.expectedTerm ≠ node.currentTerm) := by
      rintro ⟨valid, other⟩
      simp [UserLog.Expects, other] at expected
      exact valid expected
    have visited : logVisitor build node.running userLog.log.entry =
        .ok (node.running && !userLog.Quits node.currentTerm) := by
      rw [UserLog.Quits, expected]
      cases entry : userLog.log.entry <;>
        simp [entry, logVisitor, Entry.isQuit, Entry.isUser] at user ⊢
    rw [applyLog, if_neg passes, visited]
    simp [applied, UserLog.stamped, expected, BallotBox.launchBallot, ConcurrentQueue.enqueue,
      bind, Except.bind, pure, Except.pure]
  · have filtered : userLog.expectedTerm ≠ kInvalidIndex ∧
        userLog.expectedTerm ≠ node.currentTerm := by
      simpa [UserLog.Expects] using expected
    rw [applyLog, if_pos filtered]
    simp [applied, UserLog.stamped, UserLog.Quits, expected, pure, Except.pure]

/-- Batches applied in turn have the effect of their concatenation. -/
theorem applied_append (node : RaftNode) (first second : List UserLog) :
    (node.applied first).applied second = node.applied (first ++ second) := by
  simp [applied, List.append_assoc, List.replicate_append_replicate, Bool.and_assoc]

/-- A batch of user logs returns, and its effect is that of its logs. -/
theorem doApply_userLogs (build : Build) (node : RaftNode) {userLogs : List UserLog}
    (user : ∀ userLog ∈ userLogs, userLog.log.entry.isUser = true) :
    node.doApply build userLogs =
      .ok (node.applied userLogs, userLogs.map (UserLog.stamped node.currentTerm)) := by
  induction userLogs generalizing node with
  | nil => simp [doApply, applied, pure, Except.pure]
  | cons userLog rest inductionHypothesis =>
      have first := node.applyLog_userLog build (user userLog List.mem_cons_self)
      have others := inductionHypothesis (node.applied [userLog])
        fun other present => user other (List.mem_cons_of_mem _ present)
      rw [applied_append] at others
      simp only [doApply, first, others, bind, Except.bind, pure, Except.pure]
      rfl

end RaftNode

end Traft.Raft
