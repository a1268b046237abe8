import Traft.Raft.BoxRun
import Traft.Raft.Tally

/-!
# What a history says about an index

The calls since the last `OpenAt` determine which ballot each log index belongs
to and who has acknowledged it. These are the terms the correctness of the
commit index is stated in; nothing here looks at the state of a box.
-/

namespace Traft.Raft

open Traft.Quorum

namespace Call

/-- The index of the last `OpenAt` and the calls after it, one call later. -/
def track (term : Option (Int × List Call)) : Call → Option (Int × List Call)
  | .openAt votingIndex => some (votingIndex, [])
  | call => term.map fun (base, calls) => (base, calls ++ [call])

/-- The index of the last `OpenAt` and the calls after it. -/
def sinceOpen (calls : List Call) : Option (Int × List Call) := calls.foldl track none

/-- The configurations of the ballots launched, in order. -/
def launched (calls : List Call) : List (Configuration × Configuration) :=
  calls.filterMap fun
    | .launchBallot conf oldConf => some (conf, oldConf)
    | _ => none

/-- The configurations launched have valid versions, and the version of one
determines its voters. -/
def Versioned (calls : List Call) : Prop :=
  let configurations := (launched calls).flatMap fun (conf, oldConf) => [conf, oldConf]
  (∀ conf ∈ configurations, conf.version ≠ kInvalidIndex) ∧
    ∀ conf ∈ configurations, ∀ other ∈ configurations,
      conf.version = other.version → conf.voterSet = other.voterSet

/-- The peers whose ranges covered an index. -/
def covering (calls : List Call) (index : Int) : List PeerId :=
  calls.filterMap fun
    | .commitRange startIndex endIndex peer _ =>
        if startIndex ≤ index ∧ index ≤ endIndex then some peer else none
    | _ => none

/-- The value `index` is rightly committed: it is the index of a ballot launched
since the last `OpenAt`, and those who covered it since are a quorum of that
ballot. -/
def Sound (history : List Call) (index : Int) : Prop :=
  ∃ base calls position conf oldConf, sinceOpen history = some (base, calls) ∧
    (launched calls)[position]? = some (conf, oldConf) ∧ index = base + (position : Nat) ∧
    (electorateOf conf oldConf).Quorate (memberSet (covering calls index))

/-- Extending a history by one call. -/
theorem sinceOpen_append (calls : List Call) (call : Call) :
    sinceOpen (calls ++ [call]) = track (sinceOpen calls) call := by
  simp [sinceOpen]

/-- A call other than `OpenAt` keeps the index of the last one. -/
theorem base_of_track {term : Option (Int × List Call)} {call : Call} {base : Int}
    {calls : List Call} (tracked : track term call = some (base, calls)) :
    call = .openAt base ∨ ∃ earlier, term = some (base, earlier) := by
  cases call with
  | openAt votingIndex =>
      obtain ⟨rfl, _⟩ := Prod.mk.inj (Option.some.inj tracked)
      exact .inl rfl
  | _ =>
      obtain ⟨⟨index, earlier⟩, before, same⟩ := Option.map_eq_some_iff.mp tracked
      obtain ⟨rfl, _⟩ := Prod.mk.inj same
      exact .inr ⟨earlier, before⟩

end Call

namespace BallotBox

/-- With assertions every term of a run was opened at zero or above. -/
def opened : (system .debug).Invariant where
  Holds calls box := box.Regular .debug ∧
    ∀ base term, Call.sinceOpen calls = some (base, term) → 0 ≤ base
  initial box valid := ⟨(regular .debug).initial box valid, nofun⟩
  preserved := by
    rintro calls box call next ⟨kept, based⟩ step
    refine ⟨kept.step step, ?_⟩
    intro base term tracked
    rw [Call.sinceOpen_append] at tracked
    rcases Call.base_of_track tracked with rfl | ⟨earlier, before⟩
    · cases Step.effect kept.poppable step with
      | opened above =>
          have higher := above rfl
          have committed := kept.1
          rw [kInvalidIndex_eq] at committed
          omega
    · exact based base earlier before

/-- Where every term was opened at zero or above, the sentinel is never rightly
committed. -/
theorem not_sound_kInvalidIndex {history : List Call}
    (based : ∀ base term, Call.sinceOpen history = some (base, term) → 0 ≤ base) :
    ¬ Call.Sound history kInvalidIndex := by
  rintro ⟨base, calls, position, _, _, term, _, index, _⟩
  have nonneg := based base calls term
  rw [kInvalidIndex_eq] at index
  omega

end BallotBox

end Traft.Raft
