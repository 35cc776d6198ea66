import Quorum.Node
import Quorum.Query
import Quorum.ReadQueue
import Quorum.Outcome

namespace Quorum

open Consensus

/-- A caller is known by the ticket of its request. -/
abbrev Ticket := Nat

/-- What a worker tells a caller. -/
inductive Receipt where
  | outcome (outcome : Outcome)
  /-- The call is committed and waits in a replica's queue; another receipt follows. -/
  | parked
  /-- Nothing will follow. -/
  | abandoned
  deriving DecidableEq

structure PendingProposal where
  term : Nat
  retryable : Bool
  ticket : Ticket
  deriving DecidableEq

structure QueuedRead where
  operation : Operation
  ticket : Ticket
  deriving DecidableEq

/-- The worker that runs one member's part of a group. It takes events one at a time, drives the
    member's node, and tells callers what came of their requests. A submission is proposed, kept
    under its place in the log, and answered when the entry at that place is applied here: with its
    result if the entry is the proposed one, and as indeterminate if another leader's entry took its
    place. Calls that wait in a replica's queue are answered once a later entry answers them.
    Replicas never look at a clock: the leader's worker proposes what has expired. -/
structure Worker where
  group : GroupId
  node : Node
  /-- Submissions that are not answered, by their place in the log. -/
  proposals : SortedMap Nat PendingProposal := ∅
  /-- Callers that wait in a replica's queue. -/
  parked : SortedMap InvocationUid Ticket := ∅
  reads : ReadQueue QueuedRead := ∅
  /-- The role and the term that were last observed. -/
  lastRole : Role
  lastTerm : Nat
  /-- The time at which this member last became the leader. -/
  leaderSince : Millis
  /-- Messages for other members. -/
  sent : List Message := []
  /-- What callers are told. -/
  receipts : List (Ticket × Receipt) := []

/-- What happens to a worker. -/
inductive WorkerEvent where
  | submit (invocation : Invocation) (operation : Operation) (ticket : Ticket)
  | query (operation : Operation) (policy : QueryPolicy) (ticket : Ticket)
  | campaign
  /-- A client has gone. -/
  | departed (endpoint : String)
  | message (message : Message)
  | tick
  /-- It is time to look for what has expired. -/
  | expiryCheck

/-- A worker's view of its group. -/
structure GroupStatus where
  group : GroupId
  member : MemberId
  role : Role
  leader : Option MemberId
  term : Nat
  commitIndex : Nat
  appliedIndex : Nat
  lastIndex : Nat
  sessions : Nat

/-- Whether making a call again is safe if its outcome is not known. -/
def isRetryable (invocation : Invocation) (operation : Operation) : Bool :=
  invocation.isRetrySafe || operation.isReadOnly

namespace Worker

def new (group : GroupId) (node : Node) (now : Millis) : Worker where
  group
  node
  lastRole := node.role
  lastTerm := node.term
  leaderSince := now

def member (worker : Worker) : MemberId := worker.node.id

def status (worker : Worker) : GroupStatus where
  group := worker.group
  member := worker.member
  role := worker.node.role
  leader := worker.node.leader?
  term := worker.node.term
  commitIndex := worker.node.commitIndex
  appliedIndex := worker.node.appliedIndex
  lastIndex := worker.node.lastIndex
  sessions := worker.node.machine.sessions.size

def tell (worker : Worker) (ticket : Ticket) (receipt : Receipt) : Worker :=
  { worker with receipts := worker.receipts ++ [(ticket, receipt)] }

/-- Gives a caller the outcome of its request. -/
def answer (worker : Worker) (ticket : Ticket) (outcome : Outcome) : Worker :=
  worker.tell ticket (.outcome outcome)

/-- Keeps a proposal under its place. One that was there before is forgotten. -/
def track (worker : Worker) (index : Nat) (proposal : PendingProposal) : Worker :=
  let worker := match worker.proposals.get? index with
    | some older => worker.tell older.ticket .abandoned
    | none => worker
  { worker with proposals := worker.proposals.insert index proposal }

/-- Why a submission is not even proposed. -/
def refusal? (worker : Worker) (operation : Operation) : Option Failure :=
  if operation.isLeaderOnly then
    some (.invalidArgument (operation.kind ++ " is reserved for the leader"))
  else if !worker.node.isLeader then some (.notLeading worker.node.leader?)
  else none

/-- Proposes a submission. -/
def submit (worker : Worker) (invocation : Invocation) (operation : Operation) (ticket : Ticket)
    (now : Millis) : Option Worker := do
  match worker.refusal? operation with
  | some failure => return worker.answer ticket (.failed failure)
  | none =>
    let (proposed, node) ← worker.node.propose { invocation, operation, timestamp := now }
    let worker := { worker with node }
    match proposed with
    | .ok (index, term) =>
      return worker.track index { term, retryable := isRetryable invocation operation, ticket }
    | .error error =>
      let failure :=
        if node.isLeader then .internal error.context else .notLeading node.leader?
      return worker.answer ticket (.failed failure)

/-- Proposes an operation on the member's own behalf. A refusal is nobody's concern. -/
def proposeOwn (worker : Worker) (operation : Operation) (now : Millis) : Option Worker := do
  let (_, node) ← worker.node.propose { operation, timestamp := now }
  return { worker with node }

/-- Lets the leader propose what has expired. A session's lease counts from the leader's start at
    the earliest, for heartbeats may have been lost with the former leader. -/
def proposeExpiries (worker : Worker) (now : Millis) : Option Worker := do
  if !worker.node.isLeader then return worker
  let machine := worker.node.machine
  let sessions := machine.sessions.expired now worker.leaderSince
  let keys := machine.expiredWaitKeys now
  let worker ← if sessions = [] then some worker
    else worker.proposeOwn (.expireSessions sessions) now
  if keys = [] then return worker else worker.proposeOwn (.expireWaitKeys keys) now

/-- Proposes to close the sessions of a client that has gone, if the group has a leader. -/
def closeEndpoint (worker : Worker) (endpoint : String) (now : Millis) : Option Worker :=
  let sessions := worker.node.machine.sessions.ownedBy endpoint
  if sessions = [] || (!worker.node.isLeader && worker.node.leader?.isNone) then some worker
  else worker.proposeOwn (.expireSessions sessions) now

/-- Answers a query from the local state, or queues it for confirmation. -/
def query (worker : Worker) (operation : Operation) (policy : QueryPolicy) (ticket : Ticket) :
    Worker :=
  match QueryPolicy.admit policy operation worker.node.isLeader worker.node.leader? with
  | .error failure => worker.answer ticket (.failed failure)
  | .ok () =>
    match policy with
    | .local => worker.answer ticket (.ofResult (worker.node.machine.query operation))
    | .linearizable => { worker with reads := worker.reads.push { operation, ticket } }

/-- Starts the confirmation of queued reads, as soon as the leader can serve them. -/
def issueReads (worker : Worker) : Option Worker := do
  if worker.reads.isEmpty || !worker.node.canServeReads then return worker
  let (contexts, reads) := worker.reads.issue
  let node ← contexts.foldlM (fun node context => node.requestRead (ReadQueue.contextBytes context))
    worker.node
  return { worker with node, reads }

/-- Answers the reads whose index is applied. -/
def serveReads (worker : Worker) : Worker :=
  let (ready, reads) := worker.reads.ready (UInt64.ofNat worker.node.appliedIndex)
  ready.foldl (fun worker read =>
    worker.answer read.ticket (.ofResult (worker.node.machine.query read.operation)))
    { worker with reads }

/-- Hands the answer to a parked call to its caller, if it waits here. -/
def notify (worker : Worker) (note : Notification) : Worker :=
  match worker.parked.get? note.uid with
  | none => worker
  | some ticket =>
    { worker with parked := worker.parked.erase note.uid }.answer ticket (.ofResult note.result)

/-- Lets a caller wait for its call to be answered by a replica. An earlier caller with the same
    token is forgotten. -/
def park (worker : Worker) (uid : InvocationUid) (ticket : Ticket) : Worker :=
  let worker := match worker.parked.get? uid with
    | some older => worker.tell older .abandoned
    | none => worker
  { worker with parked := worker.parked.insert uid ticket }.tell ticket .parked

/-- Tells the caller of a proposal that its fate is not known. -/
def forsake (worker : Worker) (proposal : PendingProposal) : Worker :=
  worker.answer proposal.ticket (.indeterminate proposal.retryable)

/-- Answers the proposal for the place of an applied entry. -/
def answerProposal (worker : Worker) (proposal : PendingProposal) (entry : AppliedEntry) : Worker :=
  if proposal.term ≠ entry.term then worker.forsake proposal
  else
    match entry.answer, entry.invocation.uid with
    | .done result, _ => worker.answer proposal.ticket (.ofResult result)
    | .waiting, some uid => worker.park uid proposal.ticket
    | .waiting, none => worker.forsake proposal

/-- Tells callers what an applied entry means to them. -/
def noteApplied (worker : Worker) (entry : AppliedEntry) : Worker :=
  let worker := entry.notes.foldl notify worker
  match worker.proposals.get? entry.index with
  | none => worker
  | some proposal =>
    { worker with proposals := worker.proposals.erase entry.index }.answerProposal proposal entry

/-- Gives up the proposals for places that are applied: other entries took them. -/
def resolveStale (worker : Worker) : Worker :=
  let isStale (index : Nat) := index ≤ worker.node.appliedIndex
  let stale := worker.proposals.filter fun index _ => isStale index
  let kept := worker.proposals.filter fun index _ => !isStale index
  stale.values.foldl forsake { worker with proposals := kept }

/-- Gives up all that only a leader can bring to an end. -/
def abandonLeadership (worker : Worker) : Worker :=
  let hint := worker.node.leader?
  let (reads, queue) := worker.reads.drain
  let forsaken :=
    worker.proposals.values.foldl forsake { worker with proposals := ∅, reads := queue }
  reads.foldl (fun worker read => worker.answer read.ticket (.failed (.notLeading hint))) forsaken

/-- Looks whether the member has come to lead, or ceased to. -/
def observeRole (worker : Worker) (now : Millis) : Worker :=
  let role := worker.node.role
  let term := worker.node.term
  if role = worker.lastRole ∧ term = worker.lastTerm then worker
  else
    let worker := if worker.lastRole = .leader then worker.abandonLeadership else worker
    let leaderSince :=
      if role = .leader ∧ worker.lastRole ≠ .leader then now else worker.leaderSince
    { worker with lastRole := role, lastTerm := term, leaderSince }

/-- Sends a message. One to the member itself is taken at once. -/
def dispatch (worker : Worker) (message : Message) : Node.Call Worker := do
  if message.target = some worker.member then
    let (taken, node) ← (worker.node.step message : Option _)
    match taken with
    | .ok () => return { worker with node }
    | .error error => throw error
  else return { worker with sent := worker.sent ++ [message] }

/-- Acts on a bundle that the node has handed out. -/
def takeBundle (worker : Worker) (bundle : Bundle) (now : Millis) : Node.Call Worker := do
  let worker ← bundle.messages.foldlM dispatch worker
  let worker := bundle.applied.foldl noteApplied worker
  let reads := bundle.reads.foldl (fun reads read =>
    reads.confirm read.context (UInt64.ofNat read.index)) worker.reads
  let worker := { worker with reads }.observeRole now
  return worker.resolveStale.serveReads

/-- Takes what the node has ready until it has nothing left. `none` if it still has after so many
    rounds, as if the worker never came to an end. -/
def processReady (worker : Worker) (now : Millis) : Nat → Node.Call Worker
  | 0 => none
  | rounds + 1 => do
    match ← worker.node.poll with
    | (none, node) => return { worker with node }.observeRole now
    | (some bundle, node) =>
      let worker ← { worker with node }.takeBundle bundle now
      worker.processReady now rounds

/-- What an event does before the node's output is looked at. -/
def handle (worker : Worker) (event : WorkerEvent) (now : Millis) : Option Worker :=
  match event with
  | .submit invocation operation ticket => worker.submit invocation operation ticket now
  | .query operation policy ticket => some (worker.query operation policy ticket)
  | .campaign => do return { worker with node := ← worker.node.campaign }
  | .departed endpoint => worker.closeEndpoint endpoint now
  | .message message => do return { worker with node := (← worker.node.step message).2 }
  | .tick => do return { worker with node := ← worker.node.tick }
  | .expiryCheck => worker.proposeExpiries now

/-- Rounds of output after which a worker is taken to run for ever. What it has done within them
    does not depend on the number. -/
def maxRounds : Nat := 1000

/-- Takes an event. -/
def turn (worker : Worker) (event : WorkerEvent) (now : Millis) : Node.Call Worker := do
  let worker ← (worker.handle event now : Option Worker)
  let worker ← (worker.issueReads : Option Worker)
  worker.processReady now maxRounds

/-- Everyone who still waits for this worker. -/
def waiting (worker : Worker) : List Ticket :=
  worker.proposals.values.map (·.ticket) ++ worker.parked.values ++
    worker.reads.drain.1.map (·.ticket)

end Worker

end Quorum
