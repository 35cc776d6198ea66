import Quorum.Machine
import Quorum.Binary.Command
import Quorum.Consensus.StoredLog

namespace Quorum

open Consensus

/-- A command of the log that went through the state machine. -/
structure AppliedEntry where
  index : Nat
  term : Nat
  invocation : Invocation
  answer : Applied
  notes : List Notification
  deriving DecidableEq

/-- A member's copy of the state machine, and the index up to which it has applied the log. Entries
    are applied in the order of the log, however they are cut into lists. -/
structure Replica where
  machine : Machine
  appliedIndex : Nat := 0
  deriving DecidableEq

namespace Replica

/-- The data of an entry that carries a command. -/
def commandData (entry : Entry) : Option (List UInt8) :=
  if entry.kind = .command ∧ entry.data ≠ [] then some entry.data else none

/-- Applies one entry. One without a command only moves the index. -/
def applyEntry (replica : Replica) (entry : Entry) :
    Except Binary.DecodeError (Replica × List AppliedEntry) :=
  match commandData entry with
  | none => .ok ({ replica with appliedIndex := entry.index }, [])
  | some data => do
    let command ← Command.decode data
    let { answer, state, notes } := replica.machine.apply command
    return ({ machine := state, appliedIndex := entry.index },
      [{ index := entry.index, term := entry.term, invocation := command.invocation, answer, notes }])

/-- Applies entries in their order. An entry that carries no readable command is named. -/
def applyEntries (replica : Replica) :
    List Entry → Except (Nat × Binary.DecodeError) (Replica × List AppliedEntry)
  | [] => .ok (replica, [])
  | entry :: rest => do
    let (replica, first) ← (replica.applyEntry entry).mapError fun error => (entry.index, error)
    let (replica, later) ← replica.applyEntries rest
    return (replica, first ++ later)

end Replica

end Quorum
