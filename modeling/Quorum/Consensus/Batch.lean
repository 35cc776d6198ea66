import Quorum.Consensus.Step

namespace Quorum.Consensus

/-- What an engine hands out between steps: what is to be stored, what is to be sent, what is
    decided. The member stores the batch, applies what is decided, and then settles the batch;
    settling it may bring out more messages and decided entries. -/
structure Batch where
  snapshot : Option Snapshot
  entries : List Entry
  hardState : Option HardState
  reads : List ReadState
  decided : List Entry
  messages : List Message

/-- What settling a batch brings out. -/
structure Sequel where
  /-- The committed mark, if it moved. -/
  commit : Option Nat
  decided : List Entry
  messages : List Message

namespace Engine

/-- Whether there is anything to hand out. -/
def hasBatch (engine : Engine) : Bool :=
  !engine.outbox.isEmpty || engine.announced != (engine.role, engine.leader) ||
    engine.saved != engine.hardState || !engine.confirmed.isEmpty || !engine.log.tail.isEmpty ||
    engine.log.pending.any (·.index ≠ 0) || engine.log.hasDecidedSince engine.handed

end Engine

/-- Hands out the decided entries and the messages. -/
def takeDecided : Action (List Entry × List Message) := do
  let engine ← get
  let decided ← engine.log.decidedSince engine.handed
  let handed := (decided.getLast?.map (·.index)).getD engine.handed
  set { engine with handed, outbox := [] }
  return (decided, engine.outbox)

/-- Hands out a batch. -/
def takeBatch : Action Batch := do
  let engine ← get
  let state := engine.hardState
  if let some snapshot := engine.log.pending then
    guard (engine.handed ≤ snapshot.index)
    set { engine with handed := snapshot.index, confirmed := [] }
  else
    set { engine with confirmed := [] }
  let (decided, messages) ← takeDecided
  change fun engine => { engine with announced := (engine.role, engine.leader), saved := state }
  return {
    snapshot := engine.log.pending
    entries := engine.log.tail
    hardState := if state = engine.saved then none else some state
    reads := engine.confirmed
    decided, messages }

/-- Stores a batch. A snapshot of nothing needs no place. -/
def store (batch : Batch) : Action (Except StorageError Unit) := do
  let engine ← get
  let snapshot := batch.snapshot.filter (·.index ≠ 0)
  match snapshot.elim (.ok engine.log.stored) engine.log.stored.install with
  | .error error => return .error error
  | .ok stored =>
    let stored ← stored.append batch.entries
    let stored := batch.hardState.elim stored stored.setHardState
    set { engine with log := { engine.log with stored } }
    return .ok ()

/-- Notes that entries up to the given one are stored. A leader counts itself among the members that
    have them. -/
def noteStored (entry : Entry) : Action Unit := do
  let engine ← get
  let (log, moved) ← engine.log.tryPersist entry.index entry.term
  set { engine with log }
  if moved && engine.isLeader then
    let own ← engine.peers.get? engine.id
    let (own, isNew) := own.acknowledge entry.index
    change fun engine => { engine with peers := engine.peers.insert engine.id own }
    if isNew then
      if ← commitMajority then broadcastAppend

/-- Settles a batch that is stored and whose decided entries are applied. -/
def settle (batch : Batch) : Action Sequel := do
  let applied := (← get).handed
  if batch.snapshot.isSome then attempt fun engine => do
    return { engine with log := ← engine.log.snapshotStored }
  change fun engine => { engine with log := engine.log.tailStored }
  if let some last := batch.entries.getLast? then noteStored last
  let (decided, messages) ← takeDecided
  let engine ← get
  guard (engine.isLeader ∨ messages = [])
  let commit := engine.log.committed
  let log ← engine.log.appliedTo applied
  set { engine with log, saved := { engine.saved with commit } }
  return { commit := if engine.saved.commit = commit then none else some commit, decided, messages }

/-- Stores where the committed mark is. -/
def storeCommit (commit : Nat) : Action Unit := change fun engine =>
  { engine with log := { engine.log with stored := engine.log.stored.setCommit commit } }

/-- Notes that all decided entries that were handed out are applied. -/
def noteApplied : Action Unit := attempt fun engine => do
  return { engine with log := ← engine.log.appliedTo engine.handed }

end Quorum.Consensus
