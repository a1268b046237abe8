import Mathlib.Data.Int.Notation
import Mathlib.Data.List.Basic

/-!
# Opening a segment

A `Segment` is to open its file once, refuse to open it again, and close it when
it is destroyed. All three depend on `_is_open`, which no method sets, so every
`Open` of a segment's lifetime behaves like the first.
-/

namespace Traft.Storage

/-- `kInvalidFd`. -/
def kInvalidFd : Int := -1

/-- `O_RDWR`, `O_CREAT` and `O_TRUNC`. -/
inductive OpenFlag where
  | readWrite
  | create
  | truncate
deriving DecidableEq, Repr

/-- The system calls a segment makes. One to `open` is kept with its result. -/
inductive SystemCall where
  | opens (path : String) (flags : List OpenFlag) (mode : Nat) (result : Int)
  | closes (fd : Int)
deriving DecidableEq, Repr

namespace SystemCall

/-- The call discards what the file holds. -/
def Truncates : SystemCall → Prop
  | .opens _ flags _ _ => .truncate ∈ flags
  | .closes _ => False

/-- The descriptor the call obtained. -/
def obtained : SystemCall → Option Int
  | .opens _ _ _ result => if result < 0 then none else some result
  | .closes _ => none

end SystemCall

/-- `Segment`, with the fields that opening and destroying it use. -/
structure Segment where
  path : String
  firstIndex : Int
  isOpen : Bool := false
  fd : Int := kInvalidFd
deriving DecidableEq, Repr

/-- The result of `Open`: its return value, the segment after, and the system
calls it made. -/
structure Opening where
  returned : Int
  segment : Segment
  calls : List SystemCall

/-- The format `{:020}` of a signed value: the padding is behind the sign. -/
def padded (value : Int) : String :=
  let sign := if value < 0 then "-" else ""
  let digits := toString value.natAbs
  sign ++ "".pushn '0' (20 - sign.length - digits.length) ++ digits

namespace Segment

/-- `GetOpenPath_`. -/
def getOpenPath (segment : Segment) : String :=
  segment.path ++ "/log_inprogress_" ++ padded segment.firstIndex

/-- The call `Open` makes, with its result. -/
def openCall (segment : Segment) (result : Int) : SystemCall :=
  .opens segment.getOpenPath [.readWrite, .create, .truncate] 0o644 result

end Segment

/-- `Open`, when `open` would answer `result`. -/
def Segment.open (segment : Segment) (result : Int) : Opening :=
  if segment.isOpen then
    { returned := -1, segment, calls := [] }
  else
    let calls := [segment.openCall result]
    let segment := { segment with fd := result }
    if segment.fd < 0 then
      { returned := -1, segment, calls }
    else
      { returned := 0, segment, calls }

namespace Segment

/-- `Segment::~Segment`: the system calls it makes. -/
def destroy (segment : Segment) : List SystemCall :=
  if segment.isOpen ∧ segment.fd > kInvalidFd then [.closes segment.fd] else []

end Segment

/-- What happens to a segment: its `Open` calls and its destruction. -/
structure Lifetime where
  openings : List Opening
  destruction : List SystemCall

namespace Lifetime

/-- All system calls of a lifetime, in order. -/
def calls (lifetime : Lifetime) : List SystemCall :=
  lifetime.openings.flatMap Opening.calls ++ lifetime.destruction

/-- The descriptors obtained in a lifetime. -/
def obtained (lifetime : Lifetime) : List Int :=
  lifetime.calls.filterMap SystemCall.obtained

/-- An open segment is neither opened again, truncated nor leaked. -/
structure Safe (lifetime : Lifetime) : Prop where
  guarded : lifetime.openings.Pairwise fun earlier later => earlier.returned = 0 →
    later.returned = -1 ∧ (∀ call ∈ later.calls, ¬ call.Truncates) ∧
      later.segment.fd = earlier.segment.fd
  closed : ∀ fd ∈ lifetime.obtained, lifetime.calls.count (.closes fd) = 1

end Lifetime

namespace Segment

/-- A segment's lifetime from some state on, when the `Open` calls to come would
get these results of `open`. -/
def lifetime (segment : Segment) : List Int → Lifetime
  | [] => { openings := [], destruction := segment.destroy }
  | result :: results =>
      let opening := segment.open result
      let rest := opening.segment.lifetime results
      { rest with openings := opening :: rest.openings }

/-- What `Open` does to a segment not marked as open. -/
def unguarded (segment : Segment) (result : Int) : Opening where
  returned := if result < 0 then -1 else 0
  segment := { segment with fd := result }
  calls := [segment.openCall result]

/-- Only the mark keeps `Open` from calling `open`. -/
theorem open_unmarked {segment : Segment} (unmarked : segment.isOpen = false) (result : Int) :
    segment.open result = segment.unguarded result := by
  by_cases failed : result < 0
  · simp [Segment.open, unguarded, unmarked, failed]
  · simp [Segment.open, unguarded, unmarked, failed]

/-- No `Open` marks the segment, so each goes unguarded, and nothing is closed in
the end. -/
theorem lifetime_unmarked {segment : Segment} (unmarked : segment.isOpen = false)
    (results : List Int) :
    segment.lifetime results =
      { openings := results.map segment.unguarded, destruction := [] } := by
  induction results generalizing segment with
  | nil => simp [lifetime, destroy, unmarked]
  | cons result results inductionHypothesis =>
      have later : (segment.unguarded result).segment.lifetime results =
          { openings := results.map segment.unguarded, destruction := [] } :=
        inductionHypothesis unmarked
      rw [lifetime, open_unmarked unmarked, later]
      rfl

/-- The system calls of such a lifetime. -/
theorem calls_unmarked {segment : Segment} (unmarked : segment.isOpen = false)
    (results : List Int) : (segment.lifetime results).calls = results.map segment.openCall := by
  rw [lifetime_unmarked unmarked, Lifetime.calls, List.append_nil, List.flatMap_map]
  exact List.map_eq_flatMap.symm

/-- `open` hands out the results that are not negative. -/
theorem mem_obtained {segment : Segment} (unmarked : segment.isOpen = false)
    {results : List Int} {fd : Int} :
    fd ∈ (segment.lifetime results).obtained ↔ fd ∈ results ∧ 0 ≤ fd := by
  rw [Lifetime.obtained, calls_unmarked unmarked, List.filterMap_map, List.mem_filterMap]
  constructor
  · rintro ⟨result, answered, obtained⟩
    change (if result < 0 then none else some result) = some fd at obtained
    split at obtained
    · cases obtained
    · obtain rfl := Option.some.inj obtained
      exact ⟨answered, Int.not_lt.mp ‹_›⟩
  · rintro ⟨answered, valid⟩
    exact ⟨fd, answered, if_neg (Int.not_lt.mpr valid)⟩

/-- The lifetime of a segment is safe exactly if none of its `Open` calls gets a
descriptor. -/
theorem lifetime_safe_iff (path : String) (firstIndex : Int) (results : List Int) :
    (Segment.lifetime { path, firstIndex } results).Safe ↔ ∀ result ∈ results, result < 0 := by
  constructor
  · intro safe result answered
    refine Int.not_le.mp fun valid => ?_
    have once := safe.closed result ((mem_obtained rfl).mpr ⟨answered, valid⟩)
    rw [calls_unmarked rfl] at once
    obtain ⟨_, _, same⟩ := List.mem_map.mp (List.count_pos_iff.mp (once ▸ Nat.one_pos))
    cases same
  · intro failed
    constructor
    · rw [lifetime_unmarked rfl, List.pairwise_map]
      refine List.pairwise_of_forall_mem_list fun result answered _ _ returned => ?_
      have refused : (if result < 0 then (-1 : Int) else 0) = 0 := returned
      rw [if_pos (failed result answered)] at refused
      cases refused
    · intro fd obtained
      obtain ⟨answered, valid⟩ := (mem_obtained rfl).mp obtained
      exact absurd (failed fd answered) (Int.not_lt.mpr valid)

/-- A second `Open` truncates the file of the first. -/
theorem lifetime_reopened :
    ¬ (Segment.lifetime { path := "log", firstIndex := 1 } [3, 4]).Safe := by
  intro safe
  have reopened := safe.guarded
  rw [lifetime_unmarked rfl, List.map_cons, List.pairwise_cons] at reopened
  have refused := reopened.1 _ (List.mem_singleton_self _) rfl
  exact absurd refused.1 (by decide)

end Segment

end Traft.Storage
