import Quorum.Consensus.Engine

namespace Quorum.Consensus

namespace Engine

/-- The last index that a majority of members has stored. -/
def majorityIndex (engine : Engine) : Nat :=
  let indices := (engine.peers.values.map (·.matched)).mergeSort (fun a b => b ≤ a)
  (indices[majority indices.length - 1]?).getD 0

/-- Whether an entry of the present term is committed. -/
def hasCommittedTerm (engine : Engine) : Option Bool :=
  engine.log.holds engine.log.committed engine.term

end Engine

/-- Appends data to the leader's log. -/
def appendData (data : List (List UInt8)) : Action Unit := do
  let engine ← get
  let entries := data.mapIdx fun i data =>
    { index := engine.log.lastIndex + 1 + i, term := engine.term, data : Entry }
  set { engine with log := ← engine.log.append entries }

/-- Commits what a majority has stored, if that is of the present term, and says whether anything
    was. -/
def commitMajority : Action Bool := do
  let engine ← get
  let (log, moved) ← engine.log.tryCommit engine.majorityIndex engine.term
  set { engine with log }
  return moved

/-- Sends a snapshot to a member that was heard of lately, and says whether it did. -/
def sendSnapshot (peer : MemberId) (progress : Progress) : Action Bool := do
  unless progress.active do return false
  let engine ← get
  let snapshot ← engine.log.snapshot
  guard (snapshot.index ≠ 0)
  let progress := { progress with flow := .snapshot snapshot.index }
  set ({ engine with peers := engine.peers.insert peer progress }.send peer (.snapshot snapshot))
  return true

/-- Sends a member the next entry that it lacks, one to a message, and says whether a message was
    sent. Without anything to send, an empty message goes out if `allowEmpty`. -/
def sendAppend (peer : MemberId) (allowEmpty : Bool) : Action Bool := do
  let engine ← get
  let progress ← engine.peers.get? peer
  if progress.isPaused engine.maxInflight then return false
  let place := progress.next - 1
  match ← (engine.log.entriesFrom progress.next).run, ← (engine.log.term place).run with
  | .ok entries, .ok term =>
    let sent := entries.take 1
    if sent.isEmpty && !allowEmpty then return false
    let progress := sent.foldl (fun progress entry => progress.noteSent entry.index) progress
    set ({ engine with peers := engine.peers.insert peer progress }.send peer
      (.append place term engine.log.committed sent))
    return true
  | .error _, _ => if allowEmpty then sendSnapshot peer progress else return false
  | .ok entries, .error _ =>
    if entries.isEmpty && !allowEmpty then return false else sendSnapshot peer progress

/-- Sends a member at most so many entries, as long as there are any and nothing holds it back. -/
def sendPending (peer : MemberId) : Nat → Action Unit
  | 0 => pure ()
  | count + 1 => do if ← sendAppend peer false then sendPending peer count

/-- Sends a member all that it lacks, as long as nothing holds it back. -/
def sendAllPending (peer : MemberId) : Action Unit := do
  let engine ← get
  let progress ← engine.peers.get? peer
  sendPending peer (engine.log.lastIndex + 1 - progress.next)

/-- Sends every other member what it lacks, or else where the committed mark is. -/
def broadcastAppend : Action Unit := forOthers fun peer => do
  let _ ← sendAppend peer true

/-- Tells every other member that the leader is there. The committed mark goes along as far as the
    member's log is known to reach. -/
def broadcastHeartbeat (context : Option ReadContext) : Action Unit := forOthers fun peer => do
  let engine ← get
  let progress ← engine.peers.get? peer
  set (engine.send peer (.heartbeat (min progress.matched engine.log.committed) context))

/-- Takes entries of the leader. -/
def followAppend (source : Option MemberId) (index term commit : Nat) (entries : List Entry) :
    Action Unit := do
  let engine ← get
  let committed := engine.log.committed
  if index < committed then
    set (engine.send source (.appendResponse committed committed none))
  else
    match ← engine.log.tryAppend index term commit entries with
    | some (log, last) =>
      set ({ engine with log }.send source (.appendResponse last log.committed none))
    | none =>
      let (hint, found) ← engine.log.agreement (min index engine.log.lastIndex) term
      let found ← found
      set (engine.send source (.appendResponse index committed (some ⟨hint, found⟩)))

/-- Takes a heartbeat of the leader. -/
def followHeartbeat (source : Option MemberId) (commit : Nat) (context : Option ReadContext) :
    Action Unit := do
  let engine ← get
  let log ← engine.log.commitTo commit
  set ({ engine with log }.send source (.heartbeatResponse log.committed context))

/-- Takes a snapshot if it is ahead of the log and of a group with this member, and says whether it
    did. -/
def restore (snapshot : Snapshot) : Action Bool := do
  let engine ← get
  if snapshot.index < engine.log.committed || !snapshot.voters.contains engine.id then return false
  if ← engine.log.holds snapshot.index snapshot.term then
    set { engine with log := ← engine.log.commitTo snapshot.index }
    return false
  guard (0 ∉ snapshot.voters)
  set { engine with
    log := engine.log.restore snapshot
    peers := Engine.freshPeers snapshot.voters (snapshot.index + 1) }
  return true

/-- Takes a snapshot of the leader, and tells it where the log now stands. -/
def followSnapshot (source : Option MemberId) (snapshot : Snapshot) : Action Unit := do
  let restored ← restore snapshot
  change fun engine =>
    let index := if restored then engine.log.lastIndex else engine.log.committed
    engine.send source (.appendResponse index 0 none)

/-- Takes the acknowledgement of entries up to an index. -/
def noteAcknowledged (peer : MemberId) (progress : Progress) (index : Nat) : Action Unit := do
  let engine ← get
  let wasPaused := progress.isPaused engine.maxInflight
  let (progress, isNew) := progress.acknowledge index
  unless isNew do
    set { engine with peers := engine.peers.insert peer progress }
    return
  set { engine with peers := engine.peers.insert peer (progress.advanceFlow index) }
  if ← commitMajority then broadcastAppend
  else if wasPaused then let _ ← sendAppend peer true
  sendAllPending peer
  let engine ← get
  if engine.transferee = some peer && progress.matched == engine.log.lastIndex then
    set (engine.send peer .timeoutNow)

/-- Takes a member's answer to entries. -/
def noteAppendResponse (peer : MemberId) (index : Nat) (rejection : Option Rejection) :
    Action Unit := do
  let engine ← get
  let some progress := engine.peers.get? peer | return
  let progress := { progress with active := true }
  match rejection with
  | none => noteAcknowledged peer progress index
  | some { hint, term } =>
    let hint ← if 0 < term then (·.1) <$> engine.log.agreement hint term else pure hint
    match progress.retreat index hint with
    | none => set { engine with peers := engine.peers.insert peer progress }
    | some progress =>
      set { engine with peers := engine.peers.insert peer progress }
      let _ ← sendAppend peer true

/-- Takes a member's answer to a heartbeat: it is alive, and may lack entries. -/
def noteAlive (peer : MemberId) : Action Unit := do
  let engine ← get
  let some progress := engine.peers.get? peer | return
  let progress := progress.noteAlive engine.maxInflight
  set { engine with peers := engine.peers.insert peer progress }
  if progress.matched < engine.log.lastIndex then
    let _ ← sendAppend peer true

/-- Starts to hand the lead to a member; a member whose log is complete may campaign at once. -/
def transferTo (peer : MemberId) : Action Unit := do
  let engine ← get
  let some progress := engine.peers.get? peer | return
  if engine.transferee = some peer then return
  if peer = engine.id then
    set { engine with transferee := none }
    return
  let engine := { engine with electionElapsed := 0, transferee := some peer }
  if progress.matched = engine.log.lastIndex then
    set (engine.send peer .timeoutNow)
  else
    set engine
    let _ ← sendAppend peer true

/-- Whether a majority was heard of since the last check, and starts the next one. -/
def checkQuorum : Action Bool := do
  let engine ← get
  let heard (peer : MemberId) : Option Bool :=
    if peer = engine.id || (engine.peers.get? peer).any (·.active) then some true else none
  set { engine with
    peers := engine.peers.mapValues fun peer progress =>
      { progress with active := peer = engine.id } }
  return Tally.of engine.voters heard = .won

end Quorum.Consensus
