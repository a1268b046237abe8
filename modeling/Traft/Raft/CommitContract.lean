import Traft.Raft.BoxRun
import Mathlib.Order.Bounds.Basic

/-!
# What one acknowledgement should do

A call of `CommitRange` on an open box should draw the ballots of its range,
publish the largest index it grants and drop the ballots up to it, and change
nothing where its range meets no window. The results here hold these contracts
against a single call, whatever the state it finds.
-/

namespace Traft.Raft

open Traft.Memory

/-- The indexes of the granted ballots of a run that starts at `first`. -/
def grantedIndexes (first : Int) (ballots : List Ballot) : Set Int :=
  {index | ∃ (position : Nat) (ballot : Ballot), ballots[position]? = some ballot ∧
    ballot.isGranted = true ∧ index = first + position}

/-- The first ballot of a run has the first index, the others follow. -/
theorem mem_grantedIndexes_cons {first index : Int} {ballot : Ballot} {rest : List Ballot} :
    index ∈ grantedIndexes first (ballot :: rest) ↔
      (ballot.isGranted = true ∧ index = first) ∨ index ∈ grantedIndexes (first + 1) rest := by
  constructor
  · rintro ⟨position, other, found, granted, rfl⟩
    cases position with
    | zero =>
        obtain rfl := Option.some.inj found
        exact .inl ⟨granted, by simp⟩
    | succ position => exact .inr ⟨position, other, found, granted, by push_cast; omega⟩
  · rintro (⟨granted, rfl⟩ | ⟨position, other, found, granted, rfl⟩)
    · exact ⟨0, ballot, rfl, granted, by simp⟩
    · exact ⟨position + 1, other, found, granted, by push_cast; omega⟩

/-- A run without granted ballots has no granted index. -/
theorem grantedIndexes_of_none {ballots : List Ballot} (first : Int)
    (none : ∀ ballot ∈ ballots, ballot.isGranted = false) : grantedIndexes first ballots = ∅ := by
  ext index
  refine iff_of_false ?_ id
  rintro ⟨position, ballot, found, granted, _⟩
  exact Bool.false_ne_true ((none ballot (List.mem_of_getElem? found)).symm.trans granted)

/-- What the loop of `CommitRange` remembers is the largest granted index. -/
theorem isGreatest_lastGranted {ballots : List Ballot} (first default : Int)
    (some : ∃ ballot ∈ ballots, ballot.isGranted = true) :
    IsGreatest (grantedIndexes first ballots) (lastGranted first ballots default) := by
  induction ballots generalizing first default with
  | nil => simp at some
  | cons ballot rest inductionHypothesis =>
      by_cases later : ∃ other ∈ rest, other.isGranted = true
      · obtain ⟨member, largest⟩ := inductionHypothesis (first + 1)
          (if ballot.isGranted = true then first else default) later
        refine ⟨mem_grantedIndexes_cons.mpr (.inr member), ?_⟩
        intro index present
        rcases mem_grantedIndexes_cons.mp present with ⟨_, rfl⟩ | present
        · exact Int.le_of_lt (le_lastGranted (index + 1) _ later)
        · exact largest present
      · have none : ∀ other ∈ rest, other.isGranted = false := by
          intro other present
          rw [Bool.eq_false_iff]
          exact fun granted => later ⟨other, present, granted⟩
        have granted : ballot.isGranted = true := by
          obtain ⟨other, present, granted⟩ := some
          rcases List.mem_cons.mp present with rfl | present
          · exact granted
          · exact absurd granted (Bool.eq_false_iff.mp (none other present))
        have last : lastGranted first (ballot :: rest) default = first := by
          rw [lastGranted, if_pos granted, lastGranted_of_none _ _ none]
        rw [last]
        refine ⟨mem_grantedIndexes_cons.mpr (.inl ⟨granted, rfl⟩), ?_⟩
        intro index present
        rcases mem_grantedIndexes_cons.mp present with ⟨_, rfl⟩ | present
        · exact Int.le_refl index
        · rw [grantedIndexes_of_none _ none] at present
          exact present.elim

namespace BallotBox

/-- A range whose end lies in the window of an open box, at an index that was
launched. -/
structure InWindow (box : BallotBox) (startIndex endIndex : Int) : Prop where
  opened : box.votingIndex ≠ 0
  ordered : startIndex ≤ endIndex
  reaches : box.votingIndex ≤ endIndex
  launched : endIndex < box.votingIndex + box.ballots.length

/-- A range that contains no index of the window of an open box: it ends below the
window, or it is empty and ends no later than the last ballot launched. -/
structure MissesWindow (box : BallotBox) (startIndex endIndex : Int) : Prop where
  opened : box.votingIndex ≠ 0
  misses : endIndex < box.votingIndex ∨
    (startIndex > endIndex ∧ endIndex < box.votingIndex + box.ballots.length)

/-- The ballots of a range, wherever they are queued. -/
def acknowledged (box : BallotBox) (startIndex endIndex : Int) : List Ballot :=
  (box.ballots.drop (box.firstVisited startIndex)).take (box.visitCount startIndex endIndex)

/-- The ballots of a box once those of a range have become `ballots`. -/
def replaced (box : BallotBox) (startIndex endIndex : Int) (ballots : List Ballot) :
    List Ballot :=
  box.ballots.take (box.firstVisited startIndex) ++ ballots ++
    box.ballots.drop (box.firstVisited startIndex + box.visitCount startIndex endIndex)

/-- The state asked of a call which turned the ballots of its range into
`ballots`: the largest granted index is committed and the ballots up to it are
gone, or nothing but the votes has changed. -/
structure NewState (box next : BallotBox) (startIndex endIndex : Int) (ballots : List Ballot) :
    Prop where
  granted : ∀ index,
    IsGreatest (grantedIndexes (max box.votingIndex startIndex) ballots) index →
      next.lastCommittedIndex = index ∧ next.votingIndex = index + 1 ∧
      next.ballots = (box.replaced startIndex endIndex ballots).drop
        (index + 1 - box.votingIndex).toNat
  notGranted : grantedIndexes (max box.votingIndex startIndex) ballots = ∅ →
    next.lastCommittedIndex = box.lastCommittedIndex ∧
      next.votingIndex = box.votingIndex ∧
      next.ballots = box.replaced startIndex endIndex ballots

/-- A call returns in the state asked of it. -/
def ComputesNewState (build : Build) (allocator : Allocator) (box : BallotBox)
    (startIndex endIndex : Int) (peer : PeerId) : Prop :=
  ∃ commit ballots hint, box.commitRange build allocator startIndex endIndex peer = .ok commit ∧
    grantAll peer box.hint (box.acknowledged startIndex endIndex) = .ok (ballots, hint) ∧
    box.NewState commit.box startIndex endIndex ballots

/-- A call that returned has visited the ballots of its range. -/
theorem Visits.visited_eq {build : Build} {allocator : Allocator} {box : BallotBox}
    {startIndex endIndex : Int} {peer : PeerId} {ballots : List Ballot} {hint : VoterPositionHint}
    (visits : box.Visits build allocator startIndex endIndex peer ballots hint) :
    box.visited build startIndex endIndex = box.acknowledged startIndex endIndex := by
  have whole : box.ballots = box.available build endIndex ++
      box.waitingQueue.drop (box.moved build endIndex) := by
    simp [BallotBox.ballots, available]
  rcases visits.covered with idle | covered
  · rw [visited, acknowledged, idle, List.take_zero, List.take_zero]
  · have room : box.visitCount startIndex endIndex ≤
        ((box.available build endIndex).drop (box.firstVisited startIndex)).length := by
      rw [List.length_drop]
      omega
    rw [visited, acknowledged, whole, List.drop_append_of_le_length (by omega),
      List.take_append_of_le_length room]

/-- No call on an open box computes the new state: one that grants a ballot
publishes nothing, and one that grants none closes the window. -/
theorem not_computesNewState (build : Build) (allocator : Allocator) {box : BallotBox}
    {startIndex endIndex : Int} (peer : PeerId) (range : box.InWindow startIndex endIndex)
    (above : box.votingIndex > box.lastCommittedIndex)
    (committed : kInvalidIndex ≤ box.lastCommittedIndex) :
    ¬ box.ComputesNewState build allocator startIndex endIndex peer := by
  rintro ⟨commit, ballots, hint, returned, granted, newState⟩
  have nonneg : 0 ≤ box.votingIndex := by
    rw [kInvalidIndex_eq] at committed
    omega
  obtain ⟨others, hint', visits, outcome⟩ := commitRange_ok (.inl nonneg) returned
  obtain ⟨rfl, rfl⟩ : others = ballots ∧ hint' = hint := by
    have grants := visits.grants
    rw [visits.visited_eq, granted] at grants
    exact (Prod.mk.inj (Except.ok.inj grants)).imp Eq.symm Eq.symm
  rcases outcome with ⟨some, rfl⟩ | ⟨none, _, rfl⟩
  · have index := le_lastGranted (max box.votingIndex startIndex) kInvalidIndex some
    have same : box.lastCommittedIndex = _ :=
      (newState.granted _ (isGreatest_lastGranted _ kInvalidIndex some)).1
    omega
  · have same : 0 = box.votingIndex :=
      (newState.notGranted (grantedIndexes_of_none _ none)).2.1
    exact range.opened same.symm

/-- A leader opened at 1 whose one ballot is in the voting queue, as the term before
may leave it. -/
def oneVoting : BallotBox where
  votingQueue := [Ballot.construct (Configuration.ofVoters 1 [replica 1]) {}]
  votingIndex := 1

/-- The range 1..1 lies in the window of that leader. -/
theorem oneVoting_inWindow : oneVoting.InWindow 1 1 :=
  ⟨by decide, by decide, by decide, by decide⟩

/-- The contract is missed by the acknowledgement of the one ballot. -/
theorem not_computesNewState_oneVoting :
    ¬ oneVoting.ComputesNewState .debug .ample 1 1 (replica 1) :=
  not_computesNewState .debug .ample (replica 1) oneVoting_inWindow (by decide) (by decide)

/-- The only voter acknowledges the only ballot of a leader, which is granted, and
in either build the commit index stays at the sentinel. -/
theorem newState_missed :
    replay .debug [.launchBallot (Configuration.ofVoters 1 [replica 1]) {},
      .commitRange 2 1 (replica 1), .openAt 1] = some oneVoting ∧
    oneVoting.InWindow 1 1 ∧ oneVoting.votingIndex > oneVoting.lastCommittedIndex ∧
    ¬ oneVoting.ComputesNewState .debug .ample 1 1 (replica 1) ∧
    ¬ oneVoting.ComputesNewState .release .ample 1 1 (replica 1) := by
  have grants : (grantAll (replica 1) oneVoting.hint (oneVoting.acknowledged 1 1)).map
      (fun granted => granted.1.map Ballot.isGranted) = .ok [true] := rfl
  have fails : ∀ build, ¬ oneVoting.ComputesNewState build .ample 1 1 (replica 1) := by
    rintro build ⟨commit, ballots, hint, returned, granted, newState⟩
    have unpublished : (oneVoting.commitRange build .ample 1 1 (replica 1)).map
        (fun commit => commit.box.lastCommittedIndex) = .ok kInvalidIndex := by
      cases build <;> rfl
    rw [returned] at unpublished
    rw [granted] at grants
    have isGranted : ballots.map Ballot.isGranted = [true] := Except.ok.inj grants
    have some : ∃ ballot ∈ ballots, ballot.isGranted = true := by
      rw [← List.mem_map, isGranted]
      exact List.mem_singleton_self true
    have same : commit.box.lastCommittedIndex = _ :=
      (newState.granted _ (isGreatest_lastGranted _ kInvalidIndex some)).1
    have index := le_lastGranted (max oneVoting.votingIndex 1) kInvalidIndex some
    have sentinel : commit.box.lastCommittedIndex = -1 := Except.ok.inj unpublished
    have first : max oneVoting.votingIndex 1 = 1 := rfl
    omega
  exact ⟨rfl, oneVoting_inWindow, by decide, fails .debug, fails .release⟩

/-- The assertion on the ballots of a call holds, where it is compiled in, and
whatever the grants of the loop do it never leaves the voting queue. -/
def HasBallots (build : Build) (allocator : Allocator) (box : BallotBox)
    (startIndex endIndex : Int) : Prop :=
  ∃ began, box.needBallots build allocator endIndex = .ok began ∧
    ∀ grant : Grant, (∀ ballot hint, ∃ granted, grant ballot hint = .ok granted) →
      began.voteRange grant startIndex endIndex ≠ .error .outOfRange

/-- The ballots a build finds: with assertions one ballot must be voting already,
the others wait, and the storage to move them is there; without them all of them
must be voting. -/
def Stocked (allocator : Allocator) (box : BallotBox) (endIndex : Int) : Build → Prop
  | .debug => box.votingQueue ≠ [] ∧ endIndex - box.votingIndex ≤ box.waitingQueue.length ∧
      Reservable allocator (endIndex - box.votingIndex).toNat
  | .release => endIndex - box.votingIndex < box.votingQueue.length ∧
      endIndex - box.votingIndex ≤ 9223372036854775807

/-- The ballots a call draws are as many as the range is longer than one. -/
theorem moved_debug {box : BallotBox} {endIndex : Int} (reaches : box.votingIndex ≤ endIndex)
    (bound : endIndex - box.votingIndex ≤ 9223372036854775807) :
    box.moved .debug endIndex = (endIndex - box.votingIndex).toNat := by
  rw [moved, toSize_of_nonneg (by omega) bound]

/-- The loop stays in the voting queue, whatever its grants do, exactly if the end of
the range lies in it. -/
theorem voteRange_stays_iff {box : BallotBox} {startIndex endIndex : Int}
    (reaches : box.votingIndex ≤ endIndex) (ordered : startIndex ≤ endIndex)
    (window : IsInt64 box.votingIndex) (last : IsInt64 endIndex) :
    (∀ grant : Grant, (∀ ballot hint, ∃ granted, grant ballot hint = .ok granted) →
      box.voteRange grant startIndex endIndex ≠ .error .outOfRange) ↔
      endIndex - box.votingIndex < box.votingQueue.length := by
  have highest := last.2
  have leaves : ∀ {grant : Grant},
      (∀ ballot hint, ∃ granted, grant ballot hint = .ok granted) →
      (box.voteRange grant startIndex endIndex = .error .outOfRange ↔
        ¬ endIndex - box.votingIndex < box.votingQueue.length) := by
    intro grant total
    dsimp only [voteRange]
    rw [max_eq_add_firstVisited, voteLoop_leaves_iff total window (by unfold firstVisited; omega)]
    unfold firstVisited
    dsimp only
    omega
  constructor
  · intro stays
    have idle : ∀ ballot hint, ∃ granted,
        (fun ballot hint => .ok (ballot, hint) : Grant) ballot hint = .ok granted :=
      fun ballot hint => ⟨(ballot, hint), rfl⟩
    exact not_not.mp fun outside => stays _ idle ((leaves idle).mpr outside)
  · exact fun inside grant total left => (leaves total).mp left inside

/-- A call with assertions has the ballots of its range exactly if one of them was
voting before, the others wait and the storage to move them is there; without
assertions nothing is drawn and all of them must have been voting. -/
theorem hasBallots_iff (build : Build) (allocator : Allocator) {box : BallotBox}
    {startIndex endIndex : Int} (range : box.InWindow startIndex endIndex)
    (window : IsInt64 box.votingIndex) (last : IsInt64 endIndex) :
    box.HasBallots build allocator startIndex endIndex ↔ box.Stocked allocator endIndex build := by
  have reaches := range.reaches
  have stays : ∀ {votingQueue waitingQueue}, (∀ grant : Grant,
      (∀ ballot hint, ∃ granted, grant ballot hint = .ok granted) →
      voteRange grant { box with votingQueue, waitingQueue } startIndex endIndex ≠
        .error .outOfRange) ↔ endIndex - box.votingIndex < votingQueue.length :=
    voteRange_stays_iff reaches range.ordered window last
  have small : (kMaxBallots : Int) ≤ 9223372036854775807 := by decide
  constructor
  · rintro ⟨began, moves, inside⟩
    obtain ⟨inRange, reservable, complete, rfl⟩ := needBallots_ok moves
    have ends := stays.mp inside
    rw [available, List.length_append, List.length_take] at ends
    cases build with
    | debug =>
        rw [moved_debug reaches inRange.2] at ends reservable complete
        refine ⟨?_, by omega, reservable⟩
        rw [← List.length_pos_iff]
        omega
    | release =>
        simp only [moved] at ends
        exact ⟨by omega, inRange.2⟩
  · intro stocked
    cases build with
    | debug =>
        obtain ⟨voting, waiting, reservable⟩ := stocked
        have fits := reservable.1
        have drawn := moved_debug reaches (by omega)
        have inRange : IsInt64 (endIndex - box.votingIndex) := ⟨by omega, by omega⟩
        rw [← drawn] at reservable
        have complete : box.moved .debug endIndex ≤ box.waitingQueue.length := by omega
        refine ⟨_, needBallots_returns inRange reservable complete, stays.mpr ?_⟩
        rw [← List.length_pos_iff] at voting
        rw [available, List.length_append, List.length_take]
        omega
    | release =>
        obtain ⟨voting, bound⟩ := stocked
        have inRange : IsInt64 (endIndex - box.votingIndex) := ⟨by omega, bound⟩
        refine ⟨_, needBallots_returns inRange ⟨Nat.zero_le _, .inl rfl⟩ (Nat.zero_le _),
          stays.mpr ?_⟩
        rw [available_release]
        exact voting

/-- The condition is met by the leader whose ballot is voting. -/
theorem hasBallots_iff_oneVoting :
    oneVoting.HasBallots .debug .ample 1 1 ↔ oneVoting.Stocked .ample 1 .debug :=
  hasBallots_iff .debug .ample oneVoting_inWindow ⟨by decide, by decide⟩ ⟨by decide, by decide⟩

/-- A leader opened at 1 whose one ballot waits, as every new leader's does. -/
def oneWaiting : BallotBox where
  votingIndex := 1
  waitingQueue := [Ballot.construct (Configuration.ofVoters 1 [replica 1]) {}]

/-- The first acknowledgement of a new leader looks into an empty voting queue, in
either build. -/
theorem ballots_missing :
    replay .debug [.openAt 1, .launchBallot (Configuration.ofVoters 1 [replica 1]) {}] =
      some oneWaiting ∧
    replay .release [.openAt 1, .launchBallot (Configuration.ofVoters 1 [replica 1]) {}] =
      some oneWaiting ∧
    oneWaiting.InWindow 1 1 ∧ ¬ oneWaiting.HasBallots .debug .ample 1 1 ∧
    ¬ oneWaiting.HasBallots .release .ample 1 1 := by
  have fails : ∀ build, ¬ oneWaiting.HasBallots build .ample 1 1 := by
    rintro build ⟨began, moves, stays⟩
    have same : oneWaiting.needBallots build .ample 1 = .ok oneWaiting := by cases build <;> rfl
    rw [same] at moves
    obtain rfl := Except.ok.inj moves
    exact stays (fun ballot hint => .ok (ballot, hint))
      (fun ballot hint => ⟨(ballot, hint), rfl⟩) rfl
  exact ⟨rfl, rfl, ⟨by decide, by decide, by decide, by decide⟩, fails .debug, fails .release⟩

/-- A call returns and leaves the indexes and the ballots, votes included, as they
were. -/
def Harmless (build : Build) (allocator : Allocator) (box : BallotBox)
    (startIndex endIndex : Int) (peer : PeerId) : Prop :=
  ∃ commit, box.commitRange build allocator startIndex endIndex peer = .ok commit ∧
    commit.box.lastCommittedIndex = box.lastCommittedIndex ∧
    commit.box.votingIndex = box.votingIndex ∧ commit.box.ballots = box.ballots

/-- A returned call that visited nothing has closed the window. -/
theorem votingIndex_of_idle {build : Build} {allocator : Allocator} {box : BallotBox}
    {startIndex endIndex : Int} {peer : PeerId} {commit : Commit}
    (idle : box.visitCount startIndex endIndex = 0)
    (returned : box.commitRange build allocator startIndex endIndex peer = .ok commit) :
    commit.box.votingIndex = 0 := by
  obtain ⟨ballots, hint, visits, outcome⟩ := commitRange_returned returned
  obtain ⟨rfl, _⟩ := visits.of_idle idle
  rcases outcome with ⟨valid, _⟩ | ⟨_, _, rfl⟩
  · exact absurd rfl valid
  · rfl

/-- No acknowledgement that misses the window of an open box is harmless: if it
returns at all it has closed the window. -/
theorem not_harmless (build : Build) (allocator : Allocator) {box : BallotBox}
    {startIndex endIndex : Int} (peer : PeerId) (range : box.MissesWindow startIndex endIndex) :
    ¬ box.Harmless build allocator startIndex endIndex peer := by
  rintro ⟨commit, returned, _, window, _⟩
  have idle : box.visitCount startIndex endIndex = 0 := by
    unfold visitCount
    rcases range.misses with below | ⟨empty, _⟩ <;> omega
  exact range.opened (window.symm.trans (votingIndex_of_idle idle returned))

/-- The new leader is not spared by an acknowledgement of index 0. -/
theorem not_harmless_oneWaiting : ¬ oneWaiting.Harmless .debug .ample 0 0 (replica 1) :=
  not_harmless .debug .ample (replica 1) ⟨by decide, .inl (by decide)⟩

/-- A late acknowledgement of index 0 throws with assertions and closes the window
of a new leader without them; the empty one 2..1 closes it in either build. -/
theorem harm_done :
    oneWaiting.MissesWindow 0 0 ∧ oneWaiting.MissesWindow 2 1 ∧
    ¬ oneWaiting.Harmless .debug .ample 0 0 (replica 1) ∧
    ¬ oneWaiting.Harmless .release .ample 0 0 (replica 1) ∧
    ¬ oneWaiting.Harmless .debug .ample 2 1 (replica 1) ∧
    ¬ oneWaiting.Harmless .release .ample 2 1 (replica 1) := by
  have closes : ∀ {build startIndex endIndex},
      (oneWaiting.commitRange build .ample startIndex endIndex (replica 1)).map
        (fun commit => commit.box.votingIndex) = .ok 0 →
      ¬ oneWaiting.Harmless build .ample startIndex endIndex (replica 1) := by
    rintro build startIndex endIndex closed ⟨commit, returned, _, window, _⟩
    rw [returned] at closed
    have zero : (1 : Int) = 0 := window.symm.trans (Except.ok.inj closed)
    omega
  have late : ¬ oneWaiting.Harmless .debug .ample 0 0 (replica 1) := by
    rintro ⟨commit, returned, _⟩
    have threw : oneWaiting.commitRange .debug .ample 0 0 (replica 1) = .error .lengthError := rfl
    rw [threw] at returned
    cases returned
  exact ⟨⟨by decide, .inl (by decide)⟩, ⟨by decide, .inr (by decide)⟩, late, closes rfl,
    closes rfl, closes rfl⟩

end BallotBox

end Traft.Raft
