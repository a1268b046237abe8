import Traft.Raft.History
import Traft.Raft.PositionHint

/-!
# Whose votes the ballots of a box hold

An `Audit` is a box together with the peers that have visited each ballot of its
voting queue. Its runs are the runs of the box. The box threads one hint through
all its calls, so a position cached for one peer is there for the next.
-/

namespace Traft.Raft

open Traft.Memory Traft.Semantics

/-- A box with the visitors of each of its voting ballots, kept for reasoning. -/
structure Audit where
  box : BallotBox := {}
  visitors : List (List PeerId) := []

/-- `peer` visits the `count` ballots from position `first`. -/
def visit (peer : PeerId) (first count : Nat) (visitors : List (List PeerId)) :
    List (List PeerId) :=
  visitors.take first ++ ((visitors.drop first).take count).map (· ++ [peer]) ++
    visitors.drop (first + count)

/-- The visitors after a call. Ballots new to the voting queue have had none; a
returned `CommitRange` visits its range and drops what it popped. -/
def Audit.record (build : Build) (audit : Audit) : Call → List (List PeerId)
  | .commitRange startIndex endIndex peer allocator =>
      match audit.box.commitRange build allocator startIndex endIndex peer with
      | .ok commit =>
          let available := (audit.box.available build endIndex).length
          let visitors := audit.visitors ++ List.replicate (available - audit.visitors.length) []
          (visit peer (audit.box.firstVisited startIndex)
            (audit.box.visitCount startIndex endIndex) visitors).drop
              (available - commit.box.votingQueue.length)
      | .error _ => audit.visitors
  | .close => []
  | _ => audit.visitors

/-- The runs of a box, with the visitors recorded. -/
def audited (build : Build) : StepSystem Call where
  State := Audit
  Initial audit := audit = {}
  Step audit call next :=
    BallotBox.Step build audit.box call next.box ∧ next.visitors = audit.record build call

/-- Every voting ballot is marked for exactly its visitors. -/
def Audit.Credited (audit : Audit) : Prop :=
  List.Forall₂ Ballot.Credited audit.box.votingQueue audit.visitors

/-- The hint a box holds before a call guides the call's peer through the ballots
of its range, unless the call throws. -/
def BallotBox.GuidesCall (build : Build) (box : BallotBox) : Call → Prop
  | .commitRange startIndex endIndex peer allocator =>
      ¬ Reservable allocator (box.moved build endIndex) ∨
        box.hint.GuidesAll peer (box.visited build startIndex endIndex)
  | _ => True

/-- What a returned call did to the queues and the hint, whichever way it ended. -/
theorem BallotBox.commitRange_visits {build : Build} {allocator : Allocator} {box : BallotBox}
    {startIndex endIndex : Int} {peer : PeerId} {commit : Commit} (poppable : box.Poppable build)
    (returned : box.commitRange build allocator startIndex endIndex peer = .ok commit) :
    ∃ ballots hint, box.Visits build allocator startIndex endIndex peer ballots hint ∧
      commit.box.votingQueue = (box.voted build startIndex endIndex ballots hint).votingQueue ∧
      commit.box.waitingQueue = box.waitingQueue.drop (box.moved build endIndex) := by
  obtain ⟨ballots, hint, visits, ⟨_, rfl⟩ | ⟨_, _, rfl⟩⟩ :=
    commitRange_ok (poppable endIndex) returned
  · exact ⟨ballots, hint, visits, rfl, rfl⟩
  · exact ⟨ballots, hint, visits, rfl, rfl⟩

/-- A visit leaves one list of visitors for each ballot. -/
theorem length_visit (peer : PeerId) (first count : Nat) (visitors : List (List PeerId)) :
    (visit peer first count visitors).length = visitors.length := by
  simp only [visit, List.length_append, List.length_map, List.length_take, List.length_drop]
  omega

/-- Concatenations of equally long parts are related part by part. -/
theorem forall₂_append_iff {α β : Type*} {R : α → β → Prop} {front back : List α}
    {front' back' : List β} (same : front.length = front'.length) :
    List.Forall₂ R (front ++ back) (front' ++ back') ↔
      List.Forall₂ R front front' ∧ List.Forall₂ R back back' := by
  constructor
  · intro related
    have first := List.forall₂_take front.length related
    have second := List.forall₂_drop front.length related
    exact ⟨by simpa [same] using first, by simpa [same] using second⟩
  · rintro ⟨first, second⟩
    exact List.rel_append first second

namespace Audit

/-- What an audited step can do. -/
inductive Effect (build : Build) (audit : Audit) : Call → Audit → Prop where
  | visited {startIndex endIndex peer allocator ballots hint next}
      (visits : audit.box.Visits build allocator startIndex endIndex peer ballots hint)
      (voting : next.box.votingQueue =
        (audit.box.voted build startIndex endIndex ballots hint).votingQueue)
      (waiting : next.box.waitingQueue =
        audit.box.waitingQueue.drop (audit.box.moved build endIndex))
      (recorded : next.visitors =
        visit peer (audit.box.firstVisited startIndex) (audit.box.visitCount startIndex endIndex)
          (audit.visitors ++ List.replicate (audit.box.moved build endIndex) [])) :
      Effect build audit (.commitRange startIndex endIndex peer allocator) next
  | closed {next} (voting : next.box.votingQueue = []) (waiting : next.box.waitingQueue = [])
      (recorded : next.visitors = []) : Effect build audit .close next
  | other {call next} (guided : audit.box.GuidesCall build call)
      (voting : next.box.votingQueue = audit.box.votingQueue)
      (waiting : ∀ ballot ∈ next.box.waitingQueue, ballot ∈ audit.box.waitingQueue ∨
        ∃ conf oldConf, ballot = Ballot.construct conf oldConf)
      (recorded : next.visitors = audit.visitors) : Effect build audit call next

/-- A `CommitRange` that returns visits its range, and one that throws does
nothing. -/
theorem effect_commitRange {build : Build} {audit next : Audit} {startIndex endIndex : Int}
    {peer : PeerId} {allocator : Allocator} (poppable : audit.box.Poppable build)
    (aligned : audit.visitors.length = audit.box.votingQueue.length)
    (step : (audited build).Step audit (.commitRange startIndex endIndex peer allocator) next) :
    Effect build audit (.commitRange startIndex endIndex peer allocator) next := by
  obtain ⟨step, recorded⟩ := step
  rcases step.commitRange with ⟨commit, returned, same⟩ | ⟨⟨fault, thrown, threw⟩, same⟩
  · obtain ⟨ballots, hint, visits, voting, waiting⟩ :=
      BallotBox.commitRange_visits poppable returned
    have kept := BallotBox.length_voted visits
    have moves : (audit.box.available build endIndex).length - audit.visitors.length =
        audit.box.moved build endIndex := by
      rw [BallotBox.available, List.length_append, List.length_take, aligned,
        Nat.min_eq_left visits.complete]
      omega
    refine .visited visits (same ▸ voting) (same ▸ waiting) ?_
    simpa [record, returned, voting, kept, moves] using recorded
  · refine .other (.inl (BallotBox.commitRange_thrown thrown threw)) (by rw [same])
      (fun ballot present => .inl (same ▸ present)) ?_
    simpa [record, threw] using recorded

/-- Every step of an audit whose visitors match its voting queue has one of the
listed effects. -/
theorem effect {build : Build} {audit next : Audit} {call : Call}
    (poppable : audit.box.Poppable build)
    (aligned : audit.visitors.length = audit.box.votingQueue.length)
    (step : (audited build).Step audit call next) : Effect build audit call next := by
  cases call with
  | commitRange startIndex endIndex peer allocator =>
      exact effect_commitRange poppable aligned step
  | close =>
      obtain ⟨returned | ⟨⟨fault, _, threw⟩, _⟩, recorded⟩ := step
      · have same := Except.ok.inj returned
        exact .closed (by rw [← same]; rfl) (by rw [← same]; rfl) recorded
      · cases threw
  | openAt votingIndex =>
      obtain ⟨step, recorded⟩ := step
      obtain ⟨after, visitors⟩ := next
      cases step.effect poppable with
      | opened above =>
          exact .other trivial rfl (fun _ present => absurd present List.not_mem_nil) recorded
  | launchBallot conf oldConf =>
      obtain ⟨step, recorded⟩ := step
      obtain ⟨after, visitors⟩ := next
      cases step.effect poppable with
      | launched =>
          refine .other trivial rfl (fun ballot present => ?_) recorded
          rcases List.mem_append.mp present with waiting | new
          · exact .inl waiting
          · exact .inr ⟨conf, oldConf, List.mem_singleton.mp new⟩
  | setLastCommittedIndex index =>
      obtain ⟨returned | ⟨⟨fault, _, threw⟩, _⟩, recorded⟩ := step
      · have same : audit.box.setLastCommittedIndex index = next.box := Except.ok.inj returned
        obtain ⟨voting, waiting⟩ : next.box.votingQueue = audit.box.votingQueue ∧
            next.box.waitingQueue = audit.box.waitingQueue := by
          obtain ⟨_, _, written⟩ := audit.box.setLastCommittedIndex_eq index
          rw [← same, written]
          exact ⟨rfl, rfl⟩
        exact .other trivial voting (fun _ present => .inl (waiting ▸ present)) recorded
      · cases threw

/-- The visitors match the voting queue, no ballot has two tickets for one
member, and nobody has visited a waiting ballot. -/
structure Accounted (build : Build) (audit : Audit) : Prop where
  regular : audit.box.Regular build
  aligned : audit.visitors.length = audit.box.votingQueue.length
  distinct : ∀ ballot ∈ audit.box.ballots, ballot.Distinct
  waiting : ∀ ballot ∈ audit.box.waitingQueue, ballot.Credited []

/-- Every audited run keeps its account. -/
def accounted (build : Build) : (audited build).Invariant where
  Holds _ audit := audit.Accounted build
  initial := by
    rintro _ rfl
    exact ⟨(BallotBox.regular build).initial _ rfl, rfl, nofun, nofun⟩
  preserved := by
    rintro calls audit call next account step
    have regular := account.regular.step step.1
    cases effect account.regular.poppable account.aligned step with
    | @visited startIndex endIndex peer allocator ballots hint _ visits voting waiting recorded =>
        have papers : next.box.ballots.map Ballot.paper = audit.box.ballots.map Ballot.paper := by
          rw [← BallotBox.paper_voted visits, BallotBox.ballots, voting, waiting]
          rfl
        refine ⟨regular, ?_, Ballot.distinct_of_papers papers account.distinct,
          fun ballot present => ?_⟩
        · rw [recorded, length_visit, voting, BallotBox.length_voted visits,
            List.length_append, List.length_replicate, account.aligned, BallotBox.available,
            List.length_append, List.length_take, Nat.min_eq_left visits.complete]
        · exact account.waiting ballot (List.mem_of_mem_drop (waiting ▸ present))
    | closed voting waiting recorded =>
        refine ⟨regular, by rw [recorded, voting]; rfl, fun ballot present => ?_,
          fun ballot present => ?_⟩
        · simp [BallotBox.ballots, voting, waiting] at present
        · simp [waiting] at present
    | other guided voting waiting recorded =>
        refine ⟨regular, by rw [recorded, voting, account.aligned], fun ballot present => ?_,
          fun ballot present => ?_⟩
        · rcases List.mem_append.mp present with queued | queued
          · exact account.distinct ballot (List.mem_append_left _ (voting ▸ queued))
          · rcases waiting ballot queued with before | ⟨conf, oldConf, rfl⟩
            · exact account.distinct ballot (List.mem_append_right _ before)
            · exact Ballot.distinct_construct conf oldConf
        · rcases waiting ballot present with before | ⟨conf, oldConf, rfl⟩
          · exact account.waiting ballot before
          · exact Ballot.credited_construct conf oldConf

/-- Ballots moved to the voting queue arrive without visitors. -/
theorem credited_available {build : Build} {allocator : Allocator} {audit : Audit}
    {startIndex endIndex : Int} {peer : PeerId} {ballots : List Ballot} {hint : VoterPositionHint}
    (account : audit.Accounted build) (credited : audit.Credited)
    (visits : audit.box.Visits build allocator startIndex endIndex peer ballots hint) :
    List.Forall₂ Ballot.Credited (audit.box.available build endIndex)
      (audit.visitors ++ List.replicate (audit.box.moved build endIndex) []) := by
  refine (forall₂_append_iff account.aligned.symm).mpr ⟨credited, ?_⟩
  refine List.forall₂_iff_get.mpr ⟨?_, fun index inside within => ?_⟩
  · rw [List.length_take, List.length_replicate, Nat.min_eq_left visits.complete]
  · simp only [List.get_eq_getElem, List.getElem_replicate]
    exact account.waiting _ (List.mem_of_mem_take (List.getElem_mem inside))

/-- A visit keeps the votes those of the visitors exactly if the hint guides the
visiting peer through the ballots of its range. -/
theorem credited_visit_iff {build : Build} {allocator : Allocator} {audit next : Audit}
    {startIndex endIndex : Int} {peer : PeerId} {ballots : List Ballot} {hint : VoterPositionHint}
    (account : audit.Accounted build) (credited : audit.Credited)
    (visits : audit.box.Visits build allocator startIndex endIndex peer ballots hint)
    (voting : next.box.votingQueue =
      (audit.box.voted build startIndex endIndex ballots hint).votingQueue)
    (recorded : next.visitors =
      visit peer (audit.box.firstVisited startIndex) (audit.box.visitCount startIndex endIndex)
        (audit.visitors ++ List.replicate (audit.box.moved build endIndex) [])) :
    next.Credited ↔
      audit.box.GuidesCall build (.commitRange startIndex endIndex peer allocator) := by
  have arrived := credited_available account credited visits
  have front := List.forall₂_take (audit.box.firstVisited startIndex) arrived
  have range := List.forall₂_take (audit.box.visitCount startIndex endIndex)
    (List.forall₂_drop (audit.box.firstVisited startIndex) arrived)
  have back := List.forall₂_drop
    (audit.box.firstVisited startIndex + audit.box.visitCount startIndex endIndex) arrived
  have distinct : ∀ ballot ∈ audit.box.visited build startIndex endIndex, ballot.Distinct := by
    intro ballot present
    have inQueue := List.mem_of_mem_drop (List.mem_of_mem_take present)
    refine account.distinct ballot ?_
    rcases List.mem_append.mp inQueue with voting | moved
    · exact List.mem_append_left _ voting
    · exact List.mem_append_right _ (List.mem_of_mem_take moved)
  have grants := credited_grantAll_iff distinct range visits.grants
  have sameLength := (length_grantAll visits.grants).trans range.length_eq
  -- the ballots before and after the range are as they were
  rw [Credited, voting, recorded, visit, BallotBox.voted, forall₂_append_iff,
    forall₂_append_iff front.length_eq, grants]
  · simp [front, back, BallotBox.GuidesCall, visits.reservable]
  · simp only [List.length_append, List.length_map, front.length_eq, sameLength]

/-- The votes in a box are those of its visitors throughout a run, exactly if at
every `CommitRange` the positions cached for the versions of the ballots in its
range are the calling peer's, or lead to marked tickets where that peer's are
marked too. -/
theorem credited_iff (build : Build) (calls : List Call) :
    (audited build).Always (fun _ audit => audit.Credited) calls ↔
      (audited build).EachStep (fun _ audit call _ => audit.box.GuidesCall build call) calls := by
  refine StepSystem.always_iff_eachStep (accounted build) ?_ ?_ calls
  · rintro _ rfl
    exact .nil
  · intro before (audit : Audit) call (next : Audit) account credited step
    cases effect account.regular.poppable account.aligned step with
    | visited visits voting waiting recorded =>
        exact credited_visit_iff account credited visits voting recorded
    | closed voting waiting recorded =>
        refine iff_of_true ?_ trivial
        rw [Credited, voting, recorded]
        exact .nil
    | other guided voting waiting recorded =>
        refine iff_of_true ?_ guided
        rw [Credited, voting, recorded]
        exact credited

/-- An audited step, computed. -/
def advance (build : Build) (audit : Audit) (call : Call) : Option Audit :=
  (audit.box.advance build call).map fun box => { box, visitors := audit.record build call }

/-- The computed step is a step. -/
theorem step_of_advance {build : Build} {audit next : Audit} {call : Call}
    (advanced : audit.advance build call = some next) : (audited build).Step audit call next := by
  obtain ⟨box, taken, rfl⟩ := Option.map_eq_some_iff.mp advanced
  exact ⟨BallotBox.advance_eq_some.mp taken, rfl⟩

/-- Replicas 1 and 2 both acknowledge the one ballot for their configuration. The
second acknowledgement follows the position cached for the first and leaves the
ticket of replica 2 unmarked. -/
theorem vote_miscredited :
    Call.Versioned [.openAt 0,
      .launchBallot (Configuration.ofVoters 1 [replica 1, replica 2]) {},
      .commitRange 2 1 (replica 1), .commitRange 0 0 (replica 1),
      .commitRange 0 0 (replica 2)] ∧
    ¬ (audited .debug).Always (fun _ audit => audit.Credited) [.openAt 0,
      .launchBallot (Configuration.ofVoters 1 [replica 1, replica 2]) {},
      .commitRange 2 1 (replica 1), .commitRange 0 0 (replica 1),
      .commitRange 0 0 (replica 2)] := by
  refine ⟨by unfold Call.Versioned; decide, fun always => ?_⟩
  obtain ⟨audit, replayed, uncredited⟩ : ∃ audit, List.foldlM (advance .debug) {} [.openAt 0,
      .launchBallot (Configuration.ofVoters 1 [replica 1, replica 2]) {},
      .commitRange 2 1 (replica 1), .commitRange 0 0 (replica 1),
      .commitRange 0 0 (replica 2)] = some audit ∧ ¬ audit.Credited :=
    ⟨_, rfl, by unfold Credited; decide⟩
  have run : (audited .debug).Runs _ audit := .of_foldlM step_of_advance rfl replayed
  exact uncredited (always (List.prefix_refl _) run)

end Audit

end Traft.Raft
