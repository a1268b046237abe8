import Traft.Raft.Identity

/-!
# Tasks and log entries

A `Task` becomes the data entry of a `LogEntry`. The default entry of the variant
is a no-op, so a log nobody wrote is one too.
-/

namespace Traft

/-- `utils::Data`: the address and size of a buffer. Moving copies both. -/
structure Data where
  data : Nat := 0
  size : Nat := 0
deriving DecidableEq, Repr

/-- `Task`. -/
structure Task where
  data : Data
  expectedTerm : Int := kInvalidIndex
deriving DecidableEq, Repr

namespace Raft

/-- `LogId`. -/
structure LogId where
  index : Int := kInvalidIndex
  term : Int := kInvalidIndex
deriving DecidableEq, Repr

/-- `Entry`: the alternatives of the variant. -/
inductive Entry where
  | noOp
  | data (data : Data)
  | configuration (peers oldPeers : List PeerId)
  | quit

/-- `LogEntry`. -/
structure LogEntry where
  id : LogId := {}
  entry : Entry := .noOp

/-- `LogEntry::LogEntry(utils::Data)`. -/
def LogEntry.ofData (data : Data) : LogEntry := { entry := .data data }

/-- `GetIndex`. -/
def LogEntry.getIndex (log : LogEntry) : Int := log.id.index

/-- `SetTerm`. -/
def LogEntry.setTerm (log : LogEntry) (term : Int) : LogEntry :=
  { log with id := { log.id with term } }

end Raft

end Traft
