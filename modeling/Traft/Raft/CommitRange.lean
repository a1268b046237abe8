import Traft.Raft.BallotTransfer

/-!
# What a call of CommitRange can do

`commitRange_ok` says once what a returned call did: it moved ballots out of the
waiting queue, granted the acknowledging peer on the ballots of its range, and
then either left the index alone or stored the sentinel. Later modules take
their cases from it and never unfold the operation.
-/

namespace Traft.Raft

open Traft.Memory

/-- `peer`'s grants on a run of ballots, threading one hint. -/
def grantAll (peer : PeerId) (hint : VoterPositionHint) :
    List Ballot → Except Fault (List Ballot × VoterPositionHint)
  | [] => .ok ([], hint)
  | ballot :: rest => do
      let (ballot, hint) ← ballot.grantWithUpdateHint peer hint
      let (rest, hint) ← grantAll peer hint rest
      return (ballot :: rest, hint)

/-- Grants of a non-empty run return when the first and the others do. -/
theorem grantAll_cons {peer : PeerId} {hint final : VoterPositionHint} {ballot : Ballot}
    {rest ballots : List Ballot} :
    grantAll peer hint (ballot :: rest) = .ok (ballots, final) ↔
      ∃ ballot' middle rest', ballot.grantWithUpdateHint peer hint = .ok (ballot', middle) ∧
        grantAll peer middle rest = .ok (rest', final) ∧ ballots = ballot' :: rest' := by
  simp only [grantAll, bind_ok, Prod.exists]
  constructor
  · rintro ⟨ballot', middle, granted, rest', _, others, returned⟩
    obtain ⟨rfl, rfl⟩ := Prod.mk.inj (Except.ok.inj returned)
    exact ⟨ballot', middle, rest', granted, others, rfl⟩
  · rintro ⟨ballot', middle, rest', granted, others, rfl⟩
    exact ⟨ballot', middle, granted, rest', final, others, rfl⟩

/-- Granting keeps the number of ballots. -/
theorem length_grantAll {peer : PeerId} {hint final : VoterPositionHint}
    {ballots granted : List Ballot} (returned : grantAll peer hint ballots = .ok (granted, final)) :
    granted.length = ballots.length := by
  induction ballots generalizing hint granted with
  | nil => cases returned; rfl
  | cons ballot rest inductionHypothesis =>
      obtain ⟨_, _, _, _, others, rfl⟩ := grantAll_cons.mp returned
      simp [inductionHypothesis others]

/-- Granting keeps the papers of a run. -/
theorem paper_grantAll {peer : PeerId} {hint final : VoterPositionHint}
    {ballots granted : List Ballot} (returned : grantAll peer hint ballots = .ok (granted, final)) :
    granted.map Ballot.paper = ballots.map Ballot.paper := by
  induction ballots generalizing hint granted with
  | nil => cases returned; rfl
  | cons ballot rest inductionHypothesis =>
      obtain ⟨_, _, _, first, others, rfl⟩ := grantAll_cons.mp returned
      simp [Ballot.paper_grant first, inductionHypothesis others]

/-- The index of the last granted ballot of a run starting at `index`. -/
def lastGranted (index : Int) (ballots : List Ballot) (default : Int) : Int :=
  match ballots with
  | [] => default
  | ballot :: rest =>
      lastGranted (index + 1) rest (if ballot.isGranted then index else default)

/-- Without a granted ballot the default stays. -/
theorem lastGranted_of_none {ballots : List Ballot} (index default : Int)
    (none : ∀ ballot ∈ ballots, ballot.isGranted = false) :
    lastGranted index ballots default = default := by
  induction ballots generalizing index with
  | nil => rfl
  | cons ballot rest inductionHypothesis =>
      rw [lastGranted, none ballot List.mem_cons_self]
      exact inductionHypothesis _ fun other present => none other (List.mem_cons_of_mem _ present)

/-- Whatever is chosen is the default or an index of the run. -/
theorem lastGranted_cases (index : Int) (ballots : List Ballot) (default : Int) :
    lastGranted index ballots default = default ∨ index ≤ lastGranted index ballots default := by
  induction ballots generalizing index default with
  | nil => exact .inl rfl
  | cons ballot rest inductionHypothesis =>
      rw [lastGranted]
      cases ballot.isGranted with
      | false =>
          rcases inductionHypothesis (index + 1) default with same | later
          · exact .inl same
          · exact .inr (by simp only [Bool.false_eq_true, if_false]; omega)
      | true =>
          rcases inductionHypothesis (index + 1) index with same | later
          · exact .inr (by simp only [if_true]; omega)
          · exact .inr (by simp only [if_true]; omega)

/-- A granted ballot replaces a default below the run. -/
theorem le_lastGranted {ballots : List Ballot} (index default : Int)
    (some : ∃ ballot ∈ ballots, ballot.isGranted = true) :
    index ≤ lastGranted index ballots default := by
  induction ballots generalizing index default with
  | nil => simp at some
  | cons ballot rest inductionHypothesis =>
      rw [lastGranted]
      by_cases granted : ballot.isGranted = true
      · rw [if_pos granted]
        rcases lastGranted_cases (index + 1) rest index with same | later <;> omega
      · obtain ⟨other, present, grantedToo⟩ := some
        rcases List.mem_cons.mp present with rfl | present
        · exact absurd grantedToo granted
        · have later := inductionHypothesis (index + 1)
            (if ballot.isGranted = true then index else default) ⟨other, present, grantedToo⟩
          omega

namespace BallotBox

/-- A loop with an iteration left returns when its grant does and the others do. -/
theorem voteLoop_succ {votingIndex logIndex : Int} {grant : Grant} {count : Nat}
    {scan scan' : Scan} :
    voteLoop votingIndex grant (count + 1) logIndex scan = .ok scan' ↔
      ∃ ballot ballot' hint next,
        scan.votingQueue[(logIndex - votingIndex).toNat]? = some ballot ∧
        grant ballot scan.hint = .ok (ballot', hint) ∧
        int64 (logIndex + 1) = .ok next ∧
        voteLoop votingIndex grant count next {
          votingQueue := scan.votingQueue.set (logIndex - votingIndex).toNat ballot'
          hint
          lastCommittedIndex :=
            if ballot'.isGranted then logIndex else scan.lastCommittedIndex } = .ok scan' := by
  simp only [voteLoop, bind_ok, access_ok, Prod.exists]
  constructor
  · rintro ⟨ballot, found, ballot', hint, granted, next, advanced, rest⟩
    exact ⟨ballot, ballot', hint, next, found, granted, advanced, rest⟩
  · rintro ⟨ballot, ballot', hint, next, found, granted, advanced, rest⟩
    exact ⟨ballot, found, ballot', hint, granted, next, advanced, rest⟩

/-- The vote loop grants a segment of the queue and replaces it in place. -/
theorem voteLoop_ok {votingIndex : Int} {peer : PeerId} {count first : Nat} {scan scan' : Scan}
    (returned : voteLoop votingIndex (grantBy peer) count (votingIndex + first) scan =
      .ok scan') :
    (count = 0 ∨ first + count ≤ scan.votingQueue.length) ∧
    ∃ ballots hint, grantAll peer scan.hint ((scan.votingQueue.drop first).take count) =
        .ok (ballots, hint) ∧
      scan' = {
        votingQueue := scan.votingQueue.take first ++ ballots ++
          scan.votingQueue.drop (first + count)
        hint
        lastCommittedIndex :=
          lastGranted (votingIndex + first) ballots scan.lastCommittedIndex } := by
  induction count generalizing first scan with
  | zero =>
      obtain rfl := Except.ok.inj returned
      exact ⟨.inl rfl, [], scan.hint, by simp [grantAll], by simp [lastGranted]⟩
  | succ count inductionHypothesis =>
      have position : (votingIndex + first - votingIndex).toNat = first := by omega
      obtain ⟨ballot, ballot', hint, next, found, granted, advanced, returned⟩ :=
        voteLoop_succ.mp returned
      rw [position] at found returned
      obtain ⟨inside, rfl⟩ := List.getElem?_eq_some_iff.mp found
      obtain rfl : next = votingIndex + (first + 1 : Nat) := by
        have exact := (int64_ok advanced).1
        omega
      obtain ⟨covered, ballots, final, others, rfl⟩ := inductionHypothesis returned
      simp only [List.length_set] at covered
      refine ⟨.inr (by omega), ballot' :: ballots, final, ?_, ?_⟩
      · -- the iterations left never read the position just replaced
        rw [List.drop_eq_getElem_cons inside, List.take_succ_cons, grantAll_cons]
        refine ⟨ballot', hint, ballots, granted, ?_, rfl⟩
        simpa [List.drop_set_of_lt] using others
      · have replaced : (scan.votingQueue.set first ballot').take (first + 1) =
            scan.votingQueue.take first ++ [ballot'] := by
          rw [List.take_add_one]
          simp [inside, List.take_set_of_le]
        simp only [replaced, lastGranted, Scan.mk.injEq, true_and]
        refine ⟨?_, by congr 1; omega⟩
        rw [List.drop_set_of_lt (by omega)]
        simp [Nat.add_assoc, Nat.add_comm 1]

/-- Whatever its grants do as long as they return, the vote loop leaves the queue
exactly if its last position lies outside. -/
theorem voteLoop_leaves_iff {votingIndex : Int} {grant : Grant} {count first : Nat} {scan : Scan}
    (total : ∀ ballot hint, ∃ granted, grant ballot hint = .ok granted)
    (start : IsInt64 votingIndex) (last : votingIndex + first + count ≤ 9223372036854775808) :
    voteLoop votingIndex grant count (votingIndex + first) scan = .error .outOfRange ↔
      count ≠ 0 ∧ scan.votingQueue.length < first + count := by
  induction count generalizing first scan with
  | zero =>
      refine iff_of_false (fun left => ?_) fun outside => outside.1 rfl
      cases left
  | succ count inductionHypothesis =>
      have position : (votingIndex + first - votingIndex).toNat = first := by omega
      by_cases inside : first < scan.votingQueue.length
      · obtain ⟨⟨ballot, hint⟩, granted⟩ := total scan.votingQueue[first] scan.hint
        have found : access scan.votingQueue[first]? = .ok scan.votingQueue[first] :=
          access_ok.mpr (List.getElem?_eq_getElem inside)
        by_cases counted : IsInt64 (votingIndex + first + 1)
        · have advanced : int64 (votingIndex + first + 1) =
              .ok (votingIndex + (first + 1 : Nat)) := by
            rw [int64_of_isInt64 counted]
            push_cast
            rw [Int.add_assoc]
          have others : voteLoop votingIndex grant count (votingIndex + (first + 1 : Nat)) {
              votingQueue := scan.votingQueue.set first ballot
              hint
              lastCommittedIndex :=
                if ballot.isGranted then votingIndex + first else scan.lastCommittedIndex } =
                .error .outOfRange ↔
              count ≠ 0 ∧ (scan.votingQueue.set first ballot).length < first + 1 + count :=
            inductionHypothesis (by push_cast at last ⊢; omega)
          rw [List.length_set] at others
          simp only [voteLoop, position, found, granted, advanced, bind, Except.bind]
          rw [others]
          omega
        · -- only behind the last iteration does the index overflow
          have overflows : int64 (votingIndex + first + 1) = .error .signedOverflow :=
            if_neg counted
          have lowest := start.1
          simp only [IsInt64] at counted
          simp only [voteLoop, position, found, granted, overflows, bind, Except.bind]
          refine iff_of_false (fun left => by cases left) ?_
          push_cast at last
          omega
      · have missing : access scan.votingQueue[first]? = .error .outOfRange := by
          rw [List.getElem?_eq_none (Nat.le_of_not_lt inside)]
          rfl
        simp only [voteLoop, position, missing, bind, Except.bind]
        exact iff_of_true trivial ⟨Nat.succ_ne_zero count, by omega⟩

/-- The vote loop of a peer never throws. -/
theorem voteLoop_not_thrown {votingIndex logIndex : Int} {peer : PeerId} {count : Nat}
    {scan : Scan} {fault : Fault}
    (failed : voteLoop votingIndex (grantBy peer) count logIndex scan = .error fault) :
    fault.thrown = false := by
  induction count generalizing logIndex scan with
  | zero => cases failed
  | succ count inductionHypothesis =>
      rcases bind_error.mp failed with missing | ⟨ballot, _, failed⟩
      · cases found : scan.votingQueue[(logIndex - votingIndex).toNat]? with
        | some ballot =>
            rw [found] at missing
            cases missing
        | none =>
            rw [found] at missing
            cases missing
            rfl
      rcases bind_error.mp failed with outside | ⟨⟨ballot', hint⟩, _, failed⟩
      · rw [Ballot.grantWithUpdateHint_error outside]
        rfl
      rcases bind_error.mp failed with overflow | ⟨next, _, failed⟩
      · rw [int64_error overflow]
        rfl
      · exact inductionHypothesis failed

/-- The number of ballots a call moves before it looks at any. -/
def moved (build : Build) (box : BallotBox) (endIndex : Int) : Nat :=
  match build with
  | .debug => toSize (endIndex - box.votingIndex)
  | .release => 0

/-- The voting queue a call works on. -/
def available (build : Build) (box : BallotBox) (endIndex : Int) : List Ballot :=
  box.votingQueue ++ box.waitingQueue.take (box.moved build endIndex)

/-- The position of the first ballot a call visits. -/
def firstVisited (box : BallotBox) (startIndex : Int) : Nat :=
  (max box.votingIndex startIndex - box.votingIndex).toNat

/-- The number of iterations of a call's loop. -/
def visitCount (box : BallotBox) (startIndex endIndex : Int) : Nat :=
  (endIndex + 1 - max box.votingIndex startIndex).toNat

/-- The ballots a call visits. -/
def visited (build : Build) (box : BallotBox) (startIndex endIndex : Int) : List Ballot :=
  ((box.available build endIndex).drop (box.firstVisited startIndex)).take
    (box.visitCount startIndex endIndex)

/-- The box once the visited ballots have become `ballots`. -/
def voted (build : Build) (box : BallotBox) (startIndex endIndex : Int)
    (ballots : List Ballot) (hint : VoterPositionHint) : BallotBox :=
  { box with
    votingQueue := (box.available build endIndex).take (box.firstVisited startIndex) ++ ballots ++
      (box.available build endIndex).drop
        (box.firstVisited startIndex + box.visitCount startIndex endIndex)
    hint
    waitingQueue := box.waitingQueue.drop (box.moved build endIndex) }

/-- The part of a call up to the end of its loop returned. -/
structure Visits (build : Build) (allocator : Allocator) (box : BallotBox)
    (startIndex endIndex : Int) (peer : PeerId) (granted : List Ballot)
    (hint : VoterPositionHint) : Prop where
  inRange : IsInt64 (endIndex - box.votingIndex)
  reservable : Reservable allocator (box.moved build endIndex)
  complete : box.moved build endIndex ≤ box.waitingQueue.length
  covered : box.visitCount startIndex endIndex = 0 ∨
    box.firstVisited startIndex + box.visitCount startIndex endIndex ≤
      (box.available build endIndex).length
  grants : grantAll peer box.hint (box.visited build startIndex endIndex) = .ok (granted, hint)

/-- The ballots a box holds, in the order of their indexes. -/
def ballots (box : BallotBox) : List Ballot := box.votingQueue ++ box.waitingQueue

variable {build : Build} {allocator : Allocator} {box : BallotBox} {startIndex endIndex : Int}
  {peer : PeerId}

/-- Voting loses, adds and reorders no ballot. -/
theorem paper_voted {granted : List Ballot} {hint : VoterPositionHint}
    (visits : box.Visits build allocator startIndex endIndex peer granted hint) :
    (box.voted build startIndex endIndex granted hint).ballots.map Ballot.paper =
      box.ballots.map Ballot.paper := by
  have same := paper_grantAll visits.grants
  have whole : box.ballots = box.available build endIndex ++
      box.waitingQueue.drop (box.moved build endIndex) := by
    simp [ballots, available]
  have split : box.available build endIndex =
      (box.available build endIndex).take (box.firstVisited startIndex) ++
        (box.visited build startIndex endIndex ++ (box.available build endIndex).drop
          (box.firstVisited startIndex + box.visitCount startIndex endIndex)) := by
    rw [visited, ← List.drop_drop, List.take_append_drop, List.take_append_drop]
  rw [whole]
  conv_rhs => rw [split]
  simp [ballots, voted, same]

/-- Voting keeps the number of voting ballots. -/
theorem length_voted {ballots : List Ballot} {hint : VoterPositionHint}
    (visits : box.Visits build allocator startIndex endIndex peer ballots hint) :
    (box.voted build startIndex endIndex ballots hint).votingQueue.length =
      (box.available build endIndex).length := by
  have granted := length_grantAll visits.grants
  rw [visited, List.length_take, List.length_drop] at granted
  have covered := visits.covered
  simp only [voted, List.length_append, List.length_take, List.length_drop, granted]
  omega

/-- The assertion passes where the storage it takes is there and as many ballots
wait as are asked for. -/
theorem assertBeginVotingBallots_complete (box : BallotBox) {need : Nat}
    (reservable : Reservable allocator need) (complete : need ≤ box.waitingQueue.length) :
    box.assertBeginVotingBallots .debug allocator need = .ok { box with
      votingQueue := box.votingQueue ++ box.waitingQueue.take need
      waitingQueue := box.waitingQueue.drop need } := by
  obtain ⟨temp, began, _⟩ := box.beginVotingBallots_ok reservable
  refine bind_ok.mpr ⟨_, began, ?_⟩
  rw [if_pos (decide_eq_true complete)]
  rfl

/-- A passed assertion has moved the ballots in a debug build only. -/
theorem assertBeginVotingBallots_ok {box' : BallotBox}
    (returned : box.assertBeginVotingBallots build allocator
      (toSize (endIndex - box.votingIndex)) = .ok box') :
    Reservable allocator (box.moved build endIndex) ∧
      box.moved build endIndex ≤ box.waitingQueue.length ∧
      box' = { box with
        votingQueue := box.available build endIndex
        waitingQueue := box.waitingQueue.drop (box.moved build endIndex) } := by
  cases build with
  | debug =>
      obtain ⟨transfer, began, returned⟩ := bind_ok.mp returned
      by_cases reservable : Reservable allocator (toSize (endIndex - box.votingIndex))
      · obtain ⟨temp, exact, _⟩ := box.beginVotingBallots_ok reservable
        rw [exact] at began
        obtain rfl := Except.ok.inj began
        by_cases complete : toSize (endIndex - box.votingIndex) ≤ box.waitingQueue.length
        · simp only [complete, decide_true, if_true] at returned
          exact ⟨reservable, complete, (Except.ok.inj returned).symm⟩
        · simp [complete, throw, throwThe, MonadExceptOf.throw] at returned
      · obtain ⟨fault, _, threw⟩ := box.beginVotingBallots_throws reservable
        rw [threw] at began
        cases began
  | release =>
      obtain rfl := Except.ok.inj returned
      simp [moved, available, Reservable]

/-- The move returns where the storage it takes is there and the ballots wait. -/
theorem needBallots_returns (inRange : IsInt64 (endIndex - box.votingIndex))
    (reservable : Reservable allocator (box.moved build endIndex))
    (complete : box.moved build endIndex ≤ box.waitingQueue.length) :
    box.needBallots build allocator endIndex = .ok { box with
      votingQueue := box.available build endIndex
      waitingQueue := box.waitingQueue.drop (box.moved build endIndex) } := by
  refine bind_ok.mpr ⟨_, int64_of_isInt64 inRange, ?_⟩
  cases build with
  | debug => exact box.assertBeginVotingBallots_complete reservable complete
  | release =>
      simp only [available, moved, List.take_zero, List.append_nil, List.drop_zero]
      rfl

/-- What a returned move did. -/
theorem needBallots_ok {box' : BallotBox}
    (returned : box.needBallots build allocator endIndex = .ok box') :
    IsInt64 (endIndex - box.votingIndex) ∧
      Reservable allocator (box.moved build endIndex) ∧
      box.moved build endIndex ≤ box.waitingQueue.length ∧
      box' = { box with
        votingQueue := box.available build endIndex
        waitingQueue := box.waitingQueue.drop (box.moved build endIndex) } := by
  obtain ⟨need, subtracted, asserted⟩ := bind_ok.mp returned
  obtain ⟨rfl, inRange⟩ := int64_ok subtracted
  exact ⟨inRange, assertBeginVotingBallots_ok asserted⟩

/-- The move only throws where the storage it takes is refused. -/
theorem needBallots_thrown {fault : Fault} (thrown : fault.thrown = true)
    (threw : box.needBallots build allocator endIndex = .error fault) :
    ¬ Reservable allocator (box.moved build endIndex) := by
  intro reservable
  rcases bind_error.mp threw with overflow | ⟨need, subtracted, threw⟩
  · rw [int64_error overflow] at thrown
    cases thrown
  obtain ⟨rfl, _⟩ := int64_ok subtracted
  cases build with
  | debug =>
      obtain ⟨temp, exact, _⟩ := box.beginVotingBallots_ok reservable
      rcases bind_error.mp threw with refused | ⟨transfer, _, threw⟩
      · rw [moved] at exact
        rw [exact] at refused
        cases refused
      · split at threw
        · cases threw
        · cases threw
          cases thrown
  | release => cases threw

/-- The position of the first ballot a call visits, from the window. -/
theorem max_eq_add_firstVisited (box : BallotBox) (startIndex : Int) :
    max box.votingIndex startIndex =
      box.votingIndex + (box.firstVisited startIndex : Nat) := by
  unfold firstVisited
  omega

/-- The effects of a returned call: unless the last granted index of its range is
the sentinel it ends before it publishes anything; otherwise it pops what lies
below zero, stores the sentinel and closes the window. -/
theorem commitRange_returned {commit : Commit}
    (returned : box.commitRange build allocator startIndex endIndex peer = .ok commit) :
    ∃ ballots hint, box.Visits build allocator startIndex endIndex peer ballots hint ∧
      ((lastGranted (max box.votingIndex startIndex) ballots kInvalidIndex ≠ kInvalidIndex ∧
        commit = { box := box.voted build startIndex endIndex ballots hint, stored := none }) ∨
      (lastGranted (max box.votingIndex startIndex) ballots kInvalidIndex = kInvalidIndex ∧
        (-box.votingIndex).toNat ≤ (box.available build endIndex).length ∧
        commit = {
          box := { box.voted build startIndex endIndex ballots hint with
            votingQueue := (box.voted build startIndex endIndex ballots hint).votingQueue.drop
              (-box.votingIndex).toNat
            votingIndex := 0, lastCommittedIndex := kInvalidIndex }
          stored := some kInvalidIndex })) := by
  obtain ⟨began, moves, returned⟩ := bind_ok.mp returned
  obtain ⟨scan, looped, returned⟩ := bind_ok.mp returned
  obtain ⟨inRange, reservable, complete, rfl⟩ := needBallots_ok moves
  dsimp only [voteRange] at looped
  rw [max_eq_add_firstVisited] at looped
  obtain ⟨covered, ballots, hint, granted, rfl⟩ := voteLoop_ok looped
  rw [← max_eq_add_firstVisited] at covered granted returned
  have visits : box.Visits build allocator startIndex endIndex peer ballots hint :=
    ⟨inRange, reservable, complete, covered, granted⟩
  refine ⟨ballots, hint, visits, ?_⟩
  by_cases sentinel :
      lastGranted (max box.votingIndex startIndex) ballots kInvalidIndex = kInvalidIndex
  · have popped : kInvalidIndex + 1 - box.votingIndex = -box.votingIndex := by
      rw [kInvalidIndex_eq]
      omega
    simp only [sentinel, ne_eq, not_true_eq_false, if_false, popped] at returned
    split at returned
    · cases returned
    · rename_i enough
      have length := length_voted visits
      refine .inr ⟨sentinel, ?_, (Except.ok.inj returned).symm⟩
      rw [← length]
      exact Nat.le_of_not_lt enough
  · refine .inl ⟨sentinel, ?_⟩
    simp only [sentinel, ne_eq, not_false_eq_true, if_true] at returned
    exact (Except.ok.inj returned).symm

/-- The effects of a returned call on a box whose window starts at or above zero,
or which finds no ballots: a granted ballot ends the call before it publishes
anything, and without one it stores the sentinel and closes the window. -/
theorem commitRange_ok {commit : Commit}
    (sound : 0 ≤ box.votingIndex ∨ box.available build endIndex = [])
    (returned : box.commitRange build allocator startIndex endIndex peer = .ok commit) :
    ∃ ballots hint, box.Visits build allocator startIndex endIndex peer ballots hint ∧
      (((∃ ballot ∈ ballots, ballot.isGranted = true) ∧
        commit = { box := box.voted build startIndex endIndex ballots hint, stored := none }) ∨
      ((∀ ballot ∈ ballots, ballot.isGranted = false) ∧ 0 ≤ box.votingIndex ∧
        commit = {
          box := { box.voted build startIndex endIndex ballots hint with
            votingIndex := 0, lastCommittedIndex := kInvalidIndex }
          stored := some kInvalidIndex })) := by
  obtain ⟨ballots, hint, visits, outcome⟩ := commitRange_returned returned
  refine ⟨ballots, hint, visits, ?_⟩
  by_cases some : ∃ ballot ∈ ballots, ballot.isGranted = true
  · have index := le_lastGranted (max box.votingIndex startIndex) kInvalidIndex some
    rcases outcome with ⟨_, same⟩ | ⟨sentinel, _⟩
    · exact .inl ⟨some, same⟩
    · rcases sound with nonneg | empty
      · rw [sentinel, kInvalidIndex_eq] at index
        omega
      · -- nothing is visited, so nothing is granted
        have grants := visits.grants
        rw [visited, empty, List.drop_nil, List.take_nil] at grants
        obtain ⟨rfl, _⟩ := Prod.mk.inj (Except.ok.inj grants)
        simp at some
  · have none : ∀ ballot ∈ ballots, ballot.isGranted = false := by
      intro ballot present
      rw [Bool.eq_false_iff]
      exact fun isGranted => some ⟨ballot, present, isGranted⟩
    rcases outcome with ⟨valid, _⟩ | ⟨_, enough, same⟩
    · exact absurd (lastGranted_of_none _ _ none) valid
    · have nonneg : 0 ≤ box.votingIndex := by
        rcases sound with nonneg | empty
        · exact nonneg
        · rw [empty, List.length_nil] at enough
          omega
      have popped : (-box.votingIndex).toNat = 0 := by omega
      rw [popped, List.drop_zero] at same
      exact .inr ⟨none, nonneg, same⟩

/-- Only the request for ballots throws. -/
theorem commitRange_thrown {fault : Fault} (thrown : fault.thrown = true)
    (threw : box.commitRange build allocator startIndex endIndex peer = .error fault) :
    ¬ Reservable allocator (box.moved build endIndex) := by
  rcases bind_error.mp threw with refused | ⟨began, _, threw⟩
  · exact needBallots_thrown thrown refused
  rcases bind_error.mp threw with looped | ⟨scan, _, threw⟩
  · rw [voteLoop_not_thrown looped] at thrown
    cases thrown
  · dsimp only at threw
    split at threw
    · cases threw
    · split at threw <;> cases threw
      cases thrown

end BallotBox

end Traft.Raft
