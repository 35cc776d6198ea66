import Quorum.Consensus.Election
import Quorum.Consensus.ReadIndex

namespace Quorum.Consensus

/-- The answer to a call: whether it was taken. -/
abbrev Taken := Except Refusal Unit

/-- A message at a higher term. It is not for now if it asks for a vote while the leader is well;
    otherwise it ends the present term, unless it is about asking ahead. Says whether to go on. -/
def meetHigherTerm (message : Message) : Action Bool := do
  let engine ← get
  match message.body with
  | .voteRequest _ _ _ _ transfer => if !transfer && engine.inLease then return false
  | _ => pure ()
  unless message.body.isAhead do
    let leader := if message.body.isFromLeader then message.source else none
    set (engine.becomeFollower message.term leader)
  return true

/-- A message at a lower term is not for now, but a leader or a member that asks ahead is told of
    the term, lest it goes on in vain. -/
def meetLowerTerm (message : Message) : Action Unit := do
  let engine ← get
  match message.body with
  | .append .. | .heartbeat .. =>
    if engine.settings.checkQuorum || engine.settings.preVote then
      set (engine.send message.source (.appendResponse 0 0 none))
  | .voteRequest true .. =>
    set (← engine.sendVote message.source engine.term (.voteResponse true false (0, 0)))
  | _ => pure ()

/-- What only a leader sends, as a follower takes it. -/
def follow (message : Message) : Action Unit :=
  match message.body with
  | .append index term commit entries => followAppend message.source index term commit entries
  | .heartbeat commit context => followHeartbeat message.source commit context
  | .snapshot snapshot => followSnapshot message.source snapshot
  | _ => pure ()

def stepCandidate (message : Message) : Action Taken := do
  match message.body with
  | .propose _ => return .error .proposalDropped
  | .append .. | .heartbeat .. | .snapshot _ =>
    change fun engine => engine.becomeFollower message.term message.source
    follow message
  | .voteResponse ahead granted commit =>
    if let some voter := message.source then noteVoteResponse voter ahead granted commit
  | _ => pure ()
  return .ok ()

def stepFollower (message : Message) : Action Taken := do
  let engine ← get
  match message.body with
  | .propose _ =>
    if engine.leader.isNone then return .error .proposalDropped
    attempt (·.forward message)
  | .append .. | .heartbeat .. | .snapshot _ =>
    set { engine with electionElapsed := 0, leader := message.source }
    follow message
  | .transferLeader | .readIndex _ =>
    if engine.leader.isSome then attempt (·.forward message)
  | .timeoutNow => if engine.isPromotable then seekElection true
  | .readIndexResponse index [context] =>
    let (log, _) ← engine.log.tryCommit index message.term
    let read : ReadState := { context, index }
    set { engine with log, confirmed := engine.confirmed ++ [read] }
  | _ => pure ()
  return .ok ()

def stepLeader (message : Message) : Action Taken := do
  let engine ← get
  match message.body, message.source with
  | .propose entries, _ =>
    guard (entries ≠ [])
    if engine.transferee.isSome || !engine.peers.contains engine.id then
      return .error .proposalDropped
    appendData entries
    broadcastAppend
  | .readIndex contexts, source => startRead source contexts
  | .appendResponse index _ rejection, some peer => noteAppendResponse peer index rejection
  | .heartbeatResponse _ context, some peer =>
    noteAlive peer
    if let some context := context then confirmRead peer context
  | .transferLeader, some peer => transferTo peer
  | _, _ => pure ()
  return .ok ()

/-- Takes a message. One without a term comes from the member itself or is handed on to it. -/
def step (message : Message) : Action Taken := do
  let engine ← get
  if message.term ≠ 0 ∧ message.term < engine.term then
    meetLowerTerm message
    return .ok ()
  if engine.term < message.term then
    unless ← meetHigherTerm message do return .ok ()
  match message.body with
  | .voteRequest ahead index term commit _ =>
    answerVoteRequest message.source message.term ahead index term commit
    return .ok ()
  | _ =>
    match (← get).role with
    | .follower => stepFollower message
    | .leader => stepLeader message
    | .candidate | .preCandidate => stepCandidate message

/-- Takes a message from outside: no reminder, and no response of a stranger. -/
def receive (message : Message) : Action Taken := do
  let engine ← get
  if message.body = .reminder then return .error .ownReminder
  if message.body.isResponse && !message.source.any engine.peers.contains then
    return .error .unknownPeer
  step message

/-- Asks the leader to append data to the log. -/
def propose (data : List UInt8) : Action Taken := do
  let engine ← get
  step { source := some engine.id, target := none, term := 0, body := .propose [data] }

/-- Asks for an index at which a read is linearizable. -/
def requestRead (context : ReadContext) : Action Unit := do
  let _ ← step { source := none, target := none, term := 0, body := .readIndex [context] }

/-- A tick of a member that does not lead: it campaigns if it has waited long enough. -/
def tickFollower : Action Unit := do
  change fun engine => { engine with electionElapsed := engine.electionElapsed + 1 }
  let engine ← get
  if engine.patience ≤ engine.electionElapsed && engine.isPromotable then
    set { engine with electionElapsed := 0 }
    seekElection false

/-- Each election time, a leader steps down if it has not heard of a majority, and gives up a
    transfer that has not ended. -/
def tickQuorum : Action Unit := do
  let engine ← get
  if engine.electionElapsed < engine.settings.electionTicks.toNat then return
  set { engine with electionElapsed := 0 }
  if engine.settings.checkQuorum then
    unless ← checkQuorum do change fun engine => engine.becomeFollower engine.term none
  change fun engine => if engine.isLeader then { engine with transferee := none } else engine

/-- A tick of a leader, which sends heartbeats at their interval. -/
def tickLeader : Action Unit := do
  change fun engine => { engine with
    electionElapsed := engine.electionElapsed + 1
    heartbeatElapsed := engine.heartbeatElapsed + 1 }
  tickQuorum
  let engine ← get
  if engine.isLeader && engine.settings.heartbeatTicks.toNat ≤ engine.heartbeatElapsed then
    set { engine with heartbeatElapsed := 0 }
    broadcastHeartbeat engine.lastRead

def tick : Action Unit := do
  if (← get).isLeader then tickLeader else tickFollower

end Quorum.Consensus
