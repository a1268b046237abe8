import Traft.Raft.History

/-!
# Ballots and log indexes

After `OpenAt` the ballot of log index `i` should stand at position
`i - voting_index_` of the two queues. No step loses or reorders a ballot and
none pops one, so alignment rests on the window staying at its base. The first
`CommitRange` that returns has nothing to visit and moves the window to zero.
-/

namespace Traft.Raft

open Traft.Memory Traft.Semantics

namespace BallotBox

/-- A box that is not open and holds no voting ballots. -/
def Closed (box : BallotBox) : Prop :=
  box.votingQueue = [] ∧ box.votingIndex = 0 ∧ kInvalidIndex ≤ box.lastCommittedIndex

/-- `LaunchBallot` and `CommitRange`. -/
def Leads : Call → Prop
  | .launchBallot .. | .commitRange .. => True
  | _ => False

/-- The runs of a leader: a closed box opened at `base`, then its ballots
launched and acknowledged in any interleaving. -/
def leader (build : Build) (base : Int) : StepSystem Call where
  State := BallotBox
  Initial box := ∃ closed : BallotBox, closed.Closed ∧ Step build closed (.openAt base) box
  Step box call next := Leads call ∧ Step build box call next

/-- The papers of the ballots launched by a sequence of calls. -/
def papers (calls : List Call) : List Ballot.Paper :=
  (Call.launched calls).map fun ballot => (Ballot.construct ballot.1 ballot.2).paper

/-- The window lies at or above its base, and the queues hold exactly the ballots
launched, less one for each index the window has advanced. -/
def Aligned (base : Int) (calls : List Call) (box : BallotBox) : Prop :=
  base ≤ box.votingIndex ∧
    box.ballots.map Ballot.paper = (papers calls).drop (box.votingIndex - base).toNat

/-- Launching appends to the sequence of launched ballots. -/
theorem papers_launchBallot (calls : List Call) (conf oldConf : Configuration) :
    papers (calls ++ [.launchBallot conf oldConf]) =
      papers calls ++ [(Ballot.construct conf oldConf).paper] := by
  simp [papers, Call.launched]

/-- Acknowledgements launch nothing. -/
theorem papers_commitRange (calls : List Call) (startIndex endIndex : Int) (peer : PeerId)
    (allocator : Allocator) :
    papers (calls ++ [.commitRange startIndex endIndex peer allocator]) = papers calls := by
  simp [papers, Call.launched]

/-- A closed box is regular in either build. -/
theorem Closed.regular {box : BallotBox} (closed : box.Closed) (build : Build) :
    box.Regular build := by
  obtain ⟨empty, window, committed⟩ := closed
  cases build with
  | debug => exact ⟨committed, Int.le_of_eq window.symm⟩
  | release => exact ⟨committed, empty⟩

/-- A leader keeps every launched ballot in order. Its window stands at its base and
no ballot is voting, or it has come down to zero. -/
def keeps (build : Build) (base : Int) : (leader build base).Invariant where
  Holds calls box := box.Regular build ∧
    ((box.votingIndex = base ∧ box.votingQueue = []) ∨ (box.votingIndex = 0 ∧ 0 ≤ base)) ∧
    box.ballots.map Ballot.paper = papers calls
  initial := by
    rintro box ⟨closed, closedBox, step⟩
    have before := closedBox.regular build
    refine ⟨before.step step, ?_⟩
    cases Step.effect before.poppable step with
    | opened =>
        exact ⟨.inl ⟨rfl, closedBox.1⟩, by simp [ballots, closedBox.1, papers, Call.launched]⟩
  preserved := by
    rintro calls box call next ⟨kept, window, held⟩ ⟨leads, step⟩
    refine ⟨kept.step step, ?_⟩
    cases Step.effect kept.poppable step with
    | launched conf oldConf =>
        refine ⟨window, ?_⟩
        rw [papers_launchBallot, ← held]
        simp [ballots, launchBallot, ConcurrentQueue.enqueue]
    | voted visits some =>
        refine ⟨?_, by rw [paper_voted visits, held, papers_commitRange]⟩
        rcases window with ⟨_, empty⟩ | zero
        · -- nothing is visited, so nothing is granted
          obtain ⟨rfl, _⟩ := visits.of_idle (visits.idle empty)
          simp at some
        · exact .inr zero
    | published visits none nonneg =>
        refine ⟨.inr ⟨rfl, ?_⟩, ?_⟩
        · rcases window with ⟨here, _⟩ | ⟨_, above⟩
          · exact here ▸ nonneg
          · exact above
        · rw [papers_commitRange, ← held]
          exact paper_voted visits
    | threw refused => exact ⟨window, by rw [papers_commitRange, held]⟩
    | opened => cases leads
    | set => cases leads
    | closed => cases leads

/-- While all launched ballots are held and the window has not gone above its base,
alignment is the window standing at its base. -/
theorem aligned_iff_window {base : Int} {calls : List Call} {box : BallotBox}
    (window : box.votingIndex ≤ base) (held : box.ballots.map Ballot.paper = papers calls) :
    Aligned base calls box ↔ box.votingIndex = base := by
  constructor
  · rintro ⟨above, _⟩
    exact Int.le_antisymm window above
  · intro same
    refine ⟨Int.le_of_eq same.symm, ?_⟩
    rw [same, Int.sub_self, held]
    rfl

/-- The ballots of a leader stay aligned with the log indexes throughout a run,
exactly if the box was opened at zero or every `CommitRange` is refused the storage
it asks for. -/
theorem aligned_iff (build : Build) (base : Int) (calls : List Call) :
    (leader build base).Always (Aligned base) calls ↔
      (leader build base).EachStep
        (fun _ box call _ => base = 0 ∨ box.Refused build call) calls := by
  have below : ∀ {calls box}, (keeps build base).Holds calls box → box.votingIndex ≤ base := by
    rintro calls box ⟨_, ⟨here, _⟩ | ⟨zero, above⟩, _⟩
    · exact Int.le_of_eq here
    · exact zero ▸ above
  refine StepSystem.always_iff_eachStep (keeps build base) ?_ ?_ calls
  · intro box valid
    have holds := (keeps build base).initial box valid
    obtain ⟨closed, closedBox, step⟩ := valid
    rw [aligned_iff_window (below holds) holds.2.2]
    cases Step.effect (closedBox.regular build).poppable step with
    | opened => rfl
  · intro before (box : BallotBox) call (next : BallotBox) holds aligned step
    have after := (keeps build base).preserved holds step
    have here := (aligned_iff_window (below holds) holds.2.2).mp aligned
    rw [aligned_iff_window (below after) after.2.2]
    obtain ⟨leads, step⟩ := step
    cases Step.effect holds.1.poppable step with
    | launched conf oldConf => exact iff_of_true here (.inr trivial)
    | voted visits some =>
        refine iff_of_true here (.inl ?_)
        rcases holds.2.1 with ⟨_, empty⟩ | ⟨zero, _⟩
        · obtain ⟨rfl, _⟩ := visits.of_idle (visits.idle empty)
          simp at some
        · exact here.symm.trans zero
    | published visits none _ =>
        constructor
        · exact fun same => .inl same.symm
        · rintro (zero | refused)
          · exact zero.symm
          · exact absurd visits.reservable refused
    | threw refused => exact iff_of_true here (.inr refused)
    | opened => cases leads
    | set => cases leads
    | closed => cases leads

/-- The empty acknowledgement 2..1 moves the window of a leader opened at 1 below
its base in either build, so that its one ballot stands for index 0. -/
theorem alignment_lost :
    (¬ (leader .debug 1).Always (Aligned 1)
      [.launchBallot (Configuration.ofVoters 1 [replica 1]) {}, .commitRange 2 1 (replica 1)]) ∧
    ¬ (leader .release 1).Always (Aligned 1)
      [.launchBallot (Configuration.ofVoters 1 [replica 1]) {},
        .commitRange 2 1 (replica 1)] := by
  have fails : ∀ build, ¬ (leader build 1).Always (Aligned 1)
      [.launchBallot (Configuration.ofVoters 1 [replica 1]) {},
        .commitRange 2 1 (replica 1)] := by
    intro build always
    let opened : BallotBox := { votingIndex := 1 }
    let launched := opened.launchBallot (Configuration.ofVoters 1 [replica 1]) {}
    have opens : (leader build 1).Runs [] opened :=
      .initial ⟨{}, ⟨rfl, rfl, by decide⟩, advance_eq_some.mp (by cases build <;> rfl)⟩
    have launches : (leader build 1).Runs
        [.launchBallot (Configuration.ofVoters 1 [replica 1]) {}] launched :=
      .step opens ⟨trivial, advance_eq_some.mp rfl⟩
    have acknowledges : (leader build 1).Runs
        [.launchBallot (Configuration.ofVoters 1 [replica 1]) {}, .commitRange 2 1 (replica 1)]
        { launched with votingIndex := 0 } :=
      .step launches ⟨trivial, advance_eq_some.mp (by cases build <;> rfl)⟩
    have above : (1 : Int) ≤ 0 := (always (List.prefix_refl _) acknowledges).1
    omega
  exact ⟨fails .debug, fails .release⟩

end BallotBox

end Traft.Raft
