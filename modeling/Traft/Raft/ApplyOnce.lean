import Traft.Raft.Node
import Traft.Semantics.Run

/-!
# Each accepted task is applied once

Clients call `Apply` at any time. The loop draws a batch into its array, which
still holds what earlier batches left there, and then runs `DoApply_` on the part
just filled. The tasks accepted are accounted for by the queue, the batch in hand
and the batches `DoApply_` has taken. Where the loop as one function returns, its
steps come to the same node.
-/

namespace Traft.Raft

open Traft.Semantics

/-- A node with its apply loop: the array and the number of slots the last dequeue
filled for `DoApply_`, with the tasks accepted and the logs handed over so far. -/
structure Applying where
  node : RaftNode
  slots : List UserLog := emptySlots
  size : Nat := 0
  accepted : List Task := []
  handed : List UserLog := []

/-- What clients and the loop do. -/
inductive ApplyEvent where
  | apply (task : Task) (enqueued : Bool)
  | dequeue (dequeued rest : List UserLog)
  | doApply

namespace Applying

/-- The span `{logs.begin(), size}`. It is empty whenever the loop tests `running_`. -/
def inHand (state : Applying) : List UserLog := state.slots.take state.size

/-- One step of a client or of the loop. The queue hands out any of its elements,
as many as there are slots at the most, and keeps the others; a dequeue of
none is the `continue` of the loop. -/
inductive Step (build : Build) : Applying → ApplyEvent → Applying → Prop where
  | apply {state} (task enqueued) :
      Step build state (.apply task enqueued) { state with
        node := (state.node.apply task enqueued).2
        accepted :=
          if (state.node.apply task enqueued).1 = .ok then state.accepted ++ [task]
          else state.accepted }
  | dequeue {state dequeued rest} (running : state.node.running = true) (idle : state.size = 0)
      (room : dequeued.length ≤ kRaftApplyBatch)
      (hands : state.node.applyQueue.Perm (dequeued ++ rest)) :
      Step build state (.dequeue dequeued rest) { state with
        node := { state.node with applyQueue := rest }
        slots := fill state.slots dequeued
        size := dequeued.length }
  | doApply {state node applying} (pending : state.size ≠ 0)
      (returned : state.node.doApply build state.inHand = .ok (node, applying)) :
      Step build state .doApply { state with
        node
        slots := applying ++ state.slots.drop state.size
        size := 0
        handed := state.handed ++ state.inHand }

/-- The runs of a node whose apply queue starts empty. -/
def system (build : Build) (start : RaftNode) : StepSystem ApplyEvent where
  State := Applying
  Initial state := state = { node := { start with applyQueue := [] } }
  Step := Step build

/-- Every accepted task is queued, in hand or handed over, and is so once; each log
handed over has launched a ballot if the term filter let it through; and the span
in hand takes `DoApply_` to no assertion. -/
structure ExactlyOnce (start : RaftNode) (state : Applying) : Prop where
  accounted : (state.accepted.map UserLog.ofTask).Perm
    (state.node.applyQueue ++ (state.inHand ++ state.handed))
  launched : state.node.ballotBox.waitingQueue.length = start.ballotBox.waitingQueue.length +
    state.handed.countP (·.Expects state.node.currentTerm)
  unasserted : ∃ after, state.node.doApply .debug state.inHand = .ok after

/-- Accounted logs come from tasks, so their entries are data entries. -/
theorem isUser_of_accounted {state : Applying}
    (accounted : (state.accepted.map UserLog.ofTask).Perm
      (state.node.applyQueue ++ (state.inHand ++ state.handed))) :
    ∀ userLog ∈ state.inHand, userLog.log.entry.isUser = true := by
  intro userLog present
  have accepted : userLog ∈ state.accepted.map UserLog.ofTask :=
    accounted.mem_iff.mpr (List.mem_append_right _ (List.mem_append_left _ present))
  obtain ⟨task, _, rfl⟩ := List.mem_map.mp accepted
  rfl

/-- A state that accounts for its tasks and ballots applies them exactly once. -/
theorem ExactlyOnce.of_accounted {start : RaftNode} {state : Applying}
    (accounted : (state.accepted.map UserLog.ofTask).Perm
      (state.node.applyQueue ++ (state.inHand ++ state.handed)))
    (launched : state.node.ballotBox.waitingQueue.length =
      start.ballotBox.waitingQueue.length +
        state.handed.countP (·.Expects state.node.currentTerm)) :
    state.ExactlyOnce start :=
  ⟨accounted, launched,
    _, state.node.doApply_userLogs .debug (isUser_of_accounted accounted)⟩

/-- An accepted task joins the queue, a refused one changes nothing. -/
theorem ExactlyOnce.apply {start : RaftNode} {state next : Applying} {build : Build}
    {task : Task} {enqueued : Bool} (once : state.ExactlyOnce start)
    (step : Step build state (.apply task enqueued) next) : next.ExactlyOnce start := by
  cases step with
  | apply =>
      cases enqueued with
      | false => exact .of_accounted once.accounted once.launched
      | true =>
          refine .of_accounted ?_ once.launched
          have grown := once.accounted.append_right [UserLog.ofTask task]
          have queued : (state.inHand ++ state.handed ++ [UserLog.ofTask task]).Perm
              ([UserLog.ofTask task] ++ (state.inHand ++ state.handed)) :=
            List.perm_append_comm
          have placed := queued.append_left state.node.applyQueue
          simp only [List.append_assoc] at grown placed
          simpa [RaftNode.apply, ConcurrentQueue.enqueue, inHand] using grown.trans placed

/-- A dequeue moves logs from the queue into the span. -/
theorem ExactlyOnce.dequeue {start : RaftNode} {state next : Applying} {build : Build}
    {dequeued rest : List UserLog} (once : state.ExactlyOnce start)
    (step : Step build state (.dequeue dequeued rest) next) : next.ExactlyOnce start := by
  cases step with
  | dequeue running idle room hands =>
      refine .of_accounted ?_ once.launched
      have empty : state.inHand = [] := by rw [inHand, idle, List.take_zero]
      have filled : (fill state.slots dequeued).take dequeued.length = dequeued := List.take_left
      have drawn := hands.append_right state.handed
      have moved : (dequeued ++ rest ++ state.handed).Perm
          (rest ++ (dequeued ++ state.handed)) := by
        rw [← List.append_assoc]
        exact List.perm_append_comm.append_right state.handed
      have accounted := once.accounted
      rw [empty, List.nil_append] at accounted
      change (state.accepted.map UserLog.ofTask).Perm
        (rest ++ ((fill state.slots dequeued).take dequeued.length ++ state.handed))
      rw [filled]
      exact accounted.trans (drawn.trans moved)

/-- `DoApply_` takes the span over and launches the ballots of its logs. -/
theorem ExactlyOnce.doApply {start : RaftNode} {state next : Applying} {build : Build}
    (once : state.ExactlyOnce start) (step : Step build state .doApply next) :
    next.ExactlyOnce start := by
  cases step with
  | doApply pending returned =>
      rw [state.node.doApply_userLogs build (isUser_of_accounted once.accounted)] at returned
      obtain ⟨rfl, rfl⟩ := Prod.mk.inj (Except.ok.inj returned)
      refine .of_accounted ?_ ?_
      · have handedOver : (state.inHand ++ state.handed).Perm (state.handed ++ state.inHand) :=
          List.perm_append_comm
        exact once.accounted.trans (handedOver.append_left state.node.applyQueue)
      · simp [RaftNode.applied, once.launched, List.countP_append, Nat.add_assoc]

/-- Clients and the loop keep applying exactly once. -/
def applies (build : Build) (start : RaftNode) : (system build start).Invariant where
  Holds _ state := state.ExactlyOnce start
  initial := by
    rintro _ rfl
    exact .of_accounted (.refl _) rfl
  preserved := by
    rintro _ state event next once step
    cases event with
    | apply task enqueued => exact once.apply step
    | dequeue dequeued rest => exact once.dequeue step
    | doApply => exact once.doApply step

/-- In every run of clients and the loop, from any configurations, term and ballot
box, every state applies exactly once. -/
theorem exactlyOnce (build : Build) (start : RaftNode) (events : List ApplyEvent) :
    (system build start).Always (fun _ state => state.ExactlyOnce start) events :=
  fun _ run => (applies build start).of_runs run

/-- Applying a log has nothing to do with what is still queued. -/
theorem applyLog_queued {build : Build} {node after : RaftNode} {userLog applied : UserLog}
    (returned : node.applyLog build userLog = .ok (after, applied)) (queue : List UserLog) :
    ({ node with applyQueue := queue } : RaftNode).applyLog build userLog =
      .ok ({ after with applyQueue := queue }, applied) := by
  unfold RaftNode.applyLog at returned ⊢
  split at returned
  · rename_i filtered
    obtain ⟨rfl, rfl⟩ := Prod.mk.inj (Except.ok.inj returned)
    exact if_pos filtered
  · rename_i passes
    obtain ⟨running, visited, returned⟩ := bind_ok.mp returned
    obtain ⟨rfl, rfl⟩ := Prod.mk.inj (Except.ok.inj returned)
    rw [if_neg passes]
    exact bind_ok.mpr ⟨running, visited, rfl⟩

/-- Nor has applying a span of logs. -/
theorem doApply_queued {build : Build} {node after : RaftNode} {userLogs applying : List UserLog}
    (returned : node.doApply build userLogs = .ok (after, applying)) (queue : List UserLog) :
    ({ node with applyQueue := queue } : RaftNode).doApply build userLogs =
      .ok ({ after with applyQueue := queue }, applying) := by
  induction userLogs generalizing node applying with
  | nil =>
      obtain ⟨rfl, rfl⟩ := Prod.mk.inj (Except.ok.inj returned)
      rfl
  | cons userLog rest inductionHypothesis =>
      obtain ⟨⟨next, first⟩, applied, returned⟩ := bind_ok.mp returned
      obtain ⟨⟨last, others⟩, remaining, returned⟩ := bind_ok.mp returned
      obtain ⟨rfl, rfl⟩ := Prod.mk.inj (Except.ok.inj returned)
      exact bind_ok.mpr ⟨_, applyLog_queued applied queue,
        bind_ok.mpr ⟨_, inductionHypothesis remaining, rfl⟩⟩

/-- Nor has the loop over batches already drawn. -/
theorem executeApplyUserLog_queued {build : Build} {node after : RaftNode}
    {slots userLogs : List UserLog} {batches : List (List UserLog)}
    (returned : node.executeApplyUserLog build slots batches = .ok (after, userLogs))
    (queue : List UserLog) :
    ({ node with applyQueue := queue } : RaftNode).executeApplyUserLog build slots batches =
      .ok ({ after with applyQueue := queue }, userLogs) := by
  induction batches generalizing node slots userLogs with
  | nil =>
      obtain ⟨rfl, rfl⟩ := Prod.mk.inj (Except.ok.inj returned)
      rfl
  | cons batch rest inductionHypothesis =>
      unfold RaftNode.executeApplyUserLog at returned ⊢
      by_cases running : node.running = true
      · rw [if_pos running] at returned ⊢
        dsimp only at returned ⊢
        by_cases empty : batch.length = 0
        · rw [if_pos empty] at returned ⊢
          exact inductionHypothesis returned
        · rw [if_neg empty] at returned ⊢
          obtain ⟨⟨next, applying⟩, applied, returned⟩ := bind_ok.mp returned
          obtain ⟨⟨last, others⟩, remaining, returned⟩ := bind_ok.mp returned
          obtain ⟨rfl, rfl⟩ := Prod.mk.inj (Except.ok.inj returned)
          exact bind_ok.mpr ⟨_, doApply_queued applied queue,
            bind_ok.mpr ⟨_, inductionHypothesis remaining, rfl⟩⟩
      · rw [if_neg running] at returned ⊢
        obtain ⟨rfl, rfl⟩ := Prod.mk.inj (Except.ok.inj returned)
        rfl

/-- The loop as one function is a run of its steps: where its dequeues return the
batches of a queue, the steps come to the node the function returns, and the logs it
leaves alone are those still queued. -/
theorem runs_executeApplyUserLog {build : Build} {start node : RaftNode}
    {events : List ApplyEvent} {state : Applying} {batches : List (List UserLog)}
    {userLogs : List UserLog} (run : (system build start).Runs events state)
    (idle : state.size = 0) (queued : state.node.applyQueue = batches.flatten)
    (room : ∀ batch ∈ batches, batch.length ≤ kRaftApplyBatch)
    (returned : state.node.executeApplyUserLog build state.slots batches = .ok (node, userLogs)) :
    ∃ more applying, ∃ final : Applying, (system build start).Runs (events ++ more) final ∧
      final.size = 0 ∧ final.node = { node with applyQueue := final.node.applyQueue } ∧
      userLogs = applying ++ final.node.applyQueue := by
  induction batches generalizing events state node userLogs with
  | nil =>
      obtain ⟨rfl, rfl⟩ := Prod.mk.inj (Except.ok.inj returned)
      refine ⟨[], [], state, by rwa [List.append_nil], idle, rfl, ?_⟩
      rw [queued]
      rfl
  | cons batch rest inductionHypothesis =>
      have others : ∀ other ∈ rest, other.length ≤ kRaftApplyBatch :=
        fun other present => room other (List.mem_cons_of_mem _ present)
      unfold RaftNode.executeApplyUserLog at returned
      by_cases running : state.node.running = true
      · rw [if_pos running] at returned
        dsimp only at returned
        have hands : state.node.applyQueue.Perm (batch ++ rest.flatten) := .of_eq queued
        have drawn := StepSystem.Runs.step run
          (Step.dequeue running idle (room batch List.mem_cons_self) hands)
        by_cases empty : batch.length = 0
        · rw [if_pos empty] at returned
          have remaining := executeApplyUserLog_queued returned rest.flatten
          obtain ⟨more, applying, final, ran, ends, same, parts⟩ :=
            inductionHypothesis drawn empty rfl others remaining
          rw [List.append_assoc] at ran
          exact ⟨_, applying, final, ran, ends, same, parts⟩
        · rw [if_neg empty] at returned
          obtain ⟨⟨next, applying⟩, applied, returned⟩ := bind_ok.mp returned
          obtain ⟨⟨last, later⟩, remaining, returned⟩ := bind_ok.mp returned
          obtain ⟨rfl, rfl⟩ := Prod.mk.inj (Except.ok.inj returned)
          have handedOver := StepSystem.Runs.step drawn
            (Step.doApply empty (doApply_queued applied rest.flatten))
          obtain ⟨more, stamped, final, ran, ends, same, parts⟩ :=
            inductionHypothesis handedOver rfl rfl others
              (executeApplyUserLog_queued remaining rest.flatten)
          rw [List.append_assoc, List.append_assoc] at ran
          refine ⟨_, applying ++ stamped, final, ran, ends, same, ?_⟩
          rw [parts, List.append_assoc]
      · rw [if_neg running] at returned
        obtain ⟨rfl, rfl⟩ := Prod.mk.inj (Except.ok.inj returned)
        refine ⟨[], [], state, by rwa [List.append_nil], idle, rfl, ?_⟩
        rw [queued]
        rfl

/-- A running node with one task accepted. -/
def oneAccepted : Applying where
  node := (({ running := true } : RaftNode).apply { data := {} } true).2
  accepted := [{ data := {} }]

/-- The loop that draws the one task of a node is two steps. -/
theorem runs_executeApplyUserLog_oneAccepted :
    ∃ more applying, ∃ final : Applying,
      (system .debug { running := true }).Runs ([.apply { data := {} } true] ++ more) final ∧
      final.size = 0 ∧
      final.node = { oneAccepted.node.applied [.ofTask { data := {} }] with
        applyQueue := final.node.applyQueue } ∧
      [(UserLog.ofTask { data := {} }).stamped 0] = applying ++ final.node.applyQueue := by
  have start : (system .debug { running := true }).Runs []
      ({ node := { running := true } } : Applying) := .initial rfl
  have accepts : Step .debug { node := { running := true } } (.apply { data := {} } true)
      oneAccepted := Step.apply { data := {} } true
  have returned : oneAccepted.node.executeApplyUserLog .debug oneAccepted.slots
      [[.ofTask { data := {} }]] =
      .ok (oneAccepted.node.applied [.ofTask { data := {} }],
        [(UserLog.ofTask { data := {} }).stamped 0]) := rfl
  exact runs_executeApplyUserLog (.step start accepts) rfl rfl (by decide) returned

end Applying

end Traft.Raft
