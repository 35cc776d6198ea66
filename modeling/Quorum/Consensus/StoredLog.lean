import Quorum.Consensus.Fault

namespace Quorum.Consensus

/-- What an entry is about. -/
inductive EntryKind where
  | command
  | membership
  deriving DecidableEq

/-- A log entry. One without data carries no command. -/
structure Entry where
  index : Nat
  term : Nat
  data : List UInt8 := []
  kind : EntryKind := .command
  deriving DecidableEq

/-- What a member must not forget. -/
structure HardState where
  term : Nat := 0
  vote : Option MemberId := none
  commit : Nat := 0
  deriving DecidableEq

/-- The state of the group at an index, given by its place in the log and the members. -/
structure Snapshot where
  index : Nat := 0
  term : Nat := 0
  voters : List MemberId := []
  deriving DecidableEq

/-- The part of a member's log that it has stored, and what it must not forget besides. The stored
    log begins after a snapshot, which stands for all earlier entries. -/
structure StoredLog where
  hardState : HardState := {}
  /-- The snapshot before the first entry. -/
  base : Snapshot
  entries : List Entry := []
  deriving DecidableEq

namespace StoredLog

/-- The log of a group of which nothing is stored. -/
def empty (voters : List MemberId) : StoredLog := { base := { voters } }

def firstIndex (log : StoredLog) : Nat :=
  match log.entries with
  | entry :: _ => entry.index
  | [] => log.base.index + 1

def lastIndex (log : StoredLog) : Nat :=
  match log.entries.getLast? with
  | some entry => entry.index
  | none => log.base.index

/-- Stores entries in the stead of the tail from their first index on. They must not leave a gap,
    nor reach below the first entry. -/
def append (log : StoredLog) : List Entry → Option StoredLog
  | [] => some log
  | entry :: rest =>
    let kept := entry.index - log.firstIndex
    if entry.index < log.firstIndex ∨ log.lastIndex + 1 < entry.index
        ∨ log.entries.length < kept then none
    else some { log with entries := log.entries.take kept ++ entry :: rest }

/-- Puts a snapshot in the stead of all entries. -/
def install (log : StoredLog) (snapshot : Snapshot) : Except StorageError StoredLog :=
  if snapshot.index < log.firstIndex then .error .outdated
  else .ok {
    hardState := { log.hardState with
      term := max log.hardState.term snapshot.term
      commit := snapshot.index }
    base := snapshot }

def setHardState (log : StoredLog) (hardState : HardState) : StoredLog := { log with hardState }

def setCommit (log : StoredLog) (commit : Nat) : StoredLog :=
  { log with hardState := { log.hardState with commit } }

/-- The term of the entry at an index, or of the snapshot there. -/
def term (log : StoredLog) (index : Nat) : Access Nat :=
  if index = log.base.index then pure log.base.term
  else if index < log.firstIndex then throw .compacted
  else if log.lastIndex < index then throw .unavailable
  else do
    let entry ← (log.entries[index - log.firstIndex]? : Option Entry)
    return entry.term

/-- The entries from one index up to, and without, another. Reading past the end, or anything of an
    empty log, is a broken assumption. -/
def slice (log : StoredLog) (low high : Nat) : Access (List Entry) :=
  if low < log.firstIndex then throw .compacted
  else do
    let first : Entry ← log.entries.head?
    let within := low ≤ high ∧ high ≤ log.lastIndex + 1 ∧ high - first.index ≤ log.entries.length
    (guard within : Option Unit)
    return (log.entries.drop (low - first.index)).take (high - low)

/-- A snapshot of what is committed. -/
def snapshot (log : StoredLog) : Option Snapshot :=
  let index := log.hardState.commit
  if index = log.base.index then some log.base
  else if index < log.base.index then none
  else do
    let first ← log.entries.head?
    let entry ← log.entries[index - first.index]?
    return { log.base with index, term := entry.term }

end StoredLog

end Quorum.Consensus
