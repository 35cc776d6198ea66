import Quorum.Consensus.StoredLog

namespace Quorum.Consensus

/-- A member's log as its engine sees it: the stored log, and after it a tail that is not stored
    yet, or a snapshot that is not stored yet and replaces all before it. Three marks run along it:
    entries up to `committed` are decided, those up to `persisted` are stored here, and those up to
    `applied` have gone through the state machine. -/
structure Log where
  stored : StoredLog
  /-- A snapshot that is to be stored. -/
  pending : Option Snapshot := none
  /-- Entries that are to be stored. -/
  tail : List Entry := []
  /-- The index at which the tail starts. -/
  offset : Nat
  committed : Nat
  persisted : Nat
  applied : Nat
  deriving DecidableEq

namespace Log

/-- The log of a member that starts with what it has stored. -/
def ofStored (stored : StoredLog) : Log where
  stored
  offset := stored.lastIndex + 1
  committed := stored.firstIndex - 1
  persisted := stored.lastIndex
  applied := stored.firstIndex - 1

def firstIndex (log : Log) : Nat :=
  match log.pending with
  | some snapshot => snapshot.index + 1
  | none => log.stored.firstIndex

def lastIndex (log : Log) : Nat :=
  match log.tail, log.pending with
  | [], some snapshot => snapshot.index
  | [], none => log.stored.lastIndex
  | tail, _ => log.offset + tail.length - 1

/-- The term at an index; zero outside of the log. -/
def term (log : Log) (index : Nat) : Access Nat :=
  if index + 1 < log.firstIndex ∨ log.lastIndex < index then pure 0
  else if index < log.offset then
    match log.pending.filter (fun snapshot => snapshot.index = index) with
    | some snapshot => pure snapshot.term
    | none => log.stored.term index
  else
    match log.tail[index - log.offset]? with
    | some entry => pure entry.term
    | none => log.stored.term index

/-- Whether the log has the given term at an index. -/
def holds (log : Log) (index term : Nat) : Option Bool := do
  match ← (log.term index).run with
  | .ok found => return found = term
  | .error _ => return false

/-- The term at the end of the log. -/
def lastTerm (log : Log) : Option Nat := do
  match ← (log.term log.lastIndex).run with
  | .ok term => some term
  | .error _ => none

/-- The committed index and its term, as they are told to others. -/
def commitMark (log : Log) : Option (Nat × Nat) := do
  match ← (log.term log.committed).run with
  | .ok term => some (log.committed, term)
  | .error _ => none

/-- Whether a log with this end is at least as recent: the later term wins, then the longer log. -/
def isCurrent (log : Log) (index term : Nat) : Option Bool := do
  let lastTerm ← log.lastTerm
  return lastTerm < term || (term == lastTerm && log.lastIndex ≤ index)

/-- The first of some entries that the log does not have. -/
def firstConflict (log : Log) : List Entry → Option (Option Entry)
  | [] => some none
  | entry :: rest => do
    if ← log.holds entry.index entry.term then log.firstConflict rest else return some entry

/-- The last index, not after the given one, whose term is not above the given one, with its term
    if it is known. -/
def lastNotAbove (log : Log) (term : Nat) : Nat → Option (Nat × Option Nat)
  | 0 => do
    match ← (log.term 0).run with
    | .ok found => if term < found then none else return (0, some found)
    | .error _ => return (0, none)
  | index + 1 => do
    match ← (log.term (index + 1)).run with
    | .ok found =>
      if term < found then log.lastNotAbove term index else return (index + 1, some found)
    | .error _ => return (index + 1, none)

/-- Where a log that has the given term at an index may agree with this one at the latest. -/
def agreement (log : Log) (index term : Nat) : Option (Nat × Option Nat) :=
  if log.lastIndex < index then some (index, none) else log.lastNotAbove term index

/-- The entries from one index up to, and without, another. -/
def slice (log : Log) (low high : Nat) : Access (List Entry) := do
  (guard (low ≤ high) : Option Unit)
  if low < log.firstIndex then throw .compacted
  (guard (high ≤ log.lastIndex + 1) : Option Unit)
  if low = high then return []
  let stored ← if low < log.offset then log.stored.slice low (min high log.offset) else pure []
  let last := (log.tail.take (high - log.offset)).drop (low - log.offset)
  return stored ++ last

/-- The entries from an index to the end. -/
def entriesFrom (log : Log) (index : Nat) : Access (List Entry) :=
  if log.lastIndex < index then pure [] else log.slice index (log.lastIndex + 1)

/-- Puts entries in the stead of the tail from their first index on. What is committed stays. -/
def append (log : Log) : List Entry → Option Log
  | [] => some log
  | entry :: rest =>
    if entry.index ≤ log.committed then none
    else if entry.index ≤ log.offset then
      some { log with offset := entry.index, tail := entry :: rest }
    else if entry.index ≤ log.offset + log.tail.length then
      some { log with tail := log.tail.take (entry.index - log.offset) ++ entry :: rest }
    else none

/-- Moves the committed mark forward. Only what the log has can be committed. -/
def commitTo (log : Log) (index : Nat) : Option Log :=
  if index ≤ log.committed then some log
  else if log.lastIndex < index then none
  else some { log with committed := index }

/-- Commits up to an index if the log has the given term there, and says whether it did. -/
def tryCommit (log : Log) (index term : Nat) : Option (Log × Bool) := do
  if log.committed < index && (← log.holds index term) then
    return (← log.commitTo index, true)
  else return (log, false)

/-- Takes entries that follow a given place, if the log has that place: then the first entry that
    it lacks and all after it replace its tail, and the answer is the last index of the entries. -/
def tryAppend (log : Log) (index term commit : Nat) (entries : List Entry) :
    Option (Option (Log × Nat)) := do
  unless ← log.holds index term do return none
  let last := index + entries.length
  let log ← match ← log.firstConflict entries with
    | none => pure log
    | some entry => do
      let log ← log.append (entries.drop (entry.index - (index + 1)))
      pure { log with persisted := min log.persisted (entry.index - 1) }
  return some (← log.commitTo (min commit last), last)

/-- Puts a snapshot in the stead of the log. -/
def restore (log : Log) (snapshot : Snapshot) : Log :=
  { log with
    pending := some snapshot
    tail := []
    offset := snapshot.index + 1
    committed := snapshot.index
    persisted := min log.persisted log.committed }

/-- The decided entries after an index that are stored here. -/
def decidedSince (log : Log) (index : Nat) : Option (List Entry) := do
  let low := max (index + 1) log.firstIndex
  let high := min log.committed log.persisted + 1
  if low < high then
    match ← (log.slice low high).run with
    | .ok entries => return entries
    | .error _ => none
  else return []

def hasDecidedSince (log : Log) (index : Nat) : Bool :=
  max (index + 1) log.firstIndex < min log.committed log.persisted + 1

/-- Notes that the pending snapshot is stored. -/
def snapshotStored (log : Log) : Option Log := do
  let snapshot ← log.pending
  guard (log.persisted < snapshot.index → snapshot.index ≤ log.committed ∧ snapshot.index < log.offset)
  return { log with pending := none, persisted := max log.persisted snapshot.index }

/-- Forgets the tail, which is stored. -/
def tailStored (log : Log) : Log :=
  { log with tail := [], offset := log.offset + log.tail.length }

/-- Moves the persisted mark to an index if the stored log has the given term there and nothing is
    waiting before it, and says whether it did. -/
def tryPersist (log : Log) (index term : Nat) : Option (Log × Bool) := do
  let bound := (log.pending.map (·.index)).getD log.offset
  if index ≤ log.persisted ∨ bound ≤ index then return (log, false)
  match ← (log.stored.term index).run with
  | .ok found =>
    if found = term then return ({ log with persisted := index }, true) else return (log, false)
  | .error _ => return (log, false)

/-- Moves the applied mark. It never moves back, nor past what is decided and stored. -/
def appliedTo (log : Log) (index : Nat) : Option Log :=
  if index = 0 then some log
  else if index ≤ min log.committed log.persisted ∧ log.applied ≤ index then
    some { log with applied := index }
  else none

/-- A snapshot for a member whose next entry is no longer in the log. -/
def snapshot (log : Log) : Option Snapshot :=
  match log.pending with
  | some snapshot => some snapshot
  | none => log.stored.snapshot

end Log

end Quorum.Consensus
