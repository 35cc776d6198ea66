import Quorum.Call

namespace Quorum

open Consensus

abbrev CallId := Nat

/-- A worker and the times of its timers. -/
structure RunningWorker where
  worker : Worker
  nextTick : Nat
  nextExpiryCheck : Nat

/-- The events of a worker's timers that are due, and the worker with its next times. -/
def RunningWorker.due (running : RunningWorker) (config : Config) (clock : Nat) :
    List WorkerEvent × RunningWorker :=
  let ticks := running.nextTick ≤ clock
  let checks := running.nextExpiryCheck ≤ clock
  ((if ticks then [.tick] else []) ++ (if checks then [.expiryCheck] else []),
    { running with
      nextTick := if ticks then clock + config.tickInterval.toNat else running.nextTick
      nextExpiryCheck :=
        if checks then clock + config.expiryInterval.toNat else running.nextExpiryCheck })

/-- How the clock on the wall moves. -/
inductive Pace where
  /-- It moves with the clock that timers follow. -/
  | even
  /-- It moves only while somebody waits for what it decides, and then by a millisecond in each
      interval of expiry checks. No check finds at once what falls due at different times. -/
  | onDemand
  deriving DecidableEq

/-- A cluster in one process: members that run groups over one network, and their callers. An event
    is dealt with at once and in full, before the next one. The clock that timers follow and the
    clock on the wall, which stamps commands, are kept apart. -/
structure Cluster where
  config : Config
  pace : Pace
  network : Network Message := ∅
  managers : SortedMap MemberId Manager
  workers : SortedMap InboxId RunningWorker := ∅
  calls : SortedMap CallId Call := ∅
  /-- The number of requests made so far. -/
  tickets : Ticket := 0
  /-- The time since the start, in milliseconds, that timers follow. -/
  clock : Nat := 0
  /-- The time that stamps commands. -/
  wall : Millis := 0

namespace Cluster

/-- A cluster of the given members. -/
def start (members : List MemberId) (config : Config) (pace : Pace) :
    Except ClusterError Cluster := do
  let managers ← members.mapM fun member => do
    return (member, ← (Manager.new member config).mapError .config)
  return { config, pace, managers := .ofList managers }

def members (cluster : Cluster) : List MemberId := cluster.managers.keys

def manager (cluster : Cluster) (member : MemberId) : Except ClusterError Manager :=
  match cluster.managers.get? member with
  | some manager => .ok manager
  | none => .error (.notInCluster member)

/-- The worker of a member for a group. -/
def find (cluster : Cluster) (member : MemberId) (group : GroupId) :
    Except ClusterError InboxId := do
  (← cluster.manager member).find group

/-- A worker that is running; `request` says what is asked of it. -/
def running (cluster : Cluster) (inbox : InboxId) (request : String) :
    Except ClusterError RunningWorker :=
  match cluster.workers.get? inbox with
  | some running => .ok running
  | none => .error (.stopped request)

/-- A worker's view of its group. -/
def status (cluster : Cluster) (inbox : InboxId) : Except ClusterError GroupStatus := do
  return (← cluster.running inbox "status request").worker.status

/-- A member's view of a group. -/
def memberStatus (cluster : Cluster) (member : MemberId) (group : GroupId) :
    Except ClusterError GroupStatus := do
  cluster.status (← cluster.find member group)

def putCall (cluster : Cluster) (id : CallId) (call : Call) : Cluster :=
  { cluster with calls := cluster.calls.insert id call }

/-- What a call came to, if it has ended. -/
def result? (cluster : Cluster) (id : CallId) : Option (Except ClusterError Outcome) :=
  (cluster.calls.get? id).bind Call.result?

/-- Whether a call waits in a replica's queue. -/
def isParked (cluster : Cluster) (id : CallId) : Bool :=
  (cluster.calls.get? id).any Call.isParked

/-- Hands a receipt to its caller. -/
def deliver (cluster : Cluster) (receipt : Ticket × Receipt) : Cluster :=
  match cluster.calls.entries.find? (fun entry => entry.2.holds receipt.1) with
  | some (id, call) => cluster.putCall id (call.note cluster.members cluster.clock receipt.2)
  | none => cluster

/-- Takes a worker out, and tells everyone who waits for it. -/
def dropWorker (cluster : Cluster) (inbox : InboxId) : Cluster :=
  match cluster.workers.get? inbox with
  | none => cluster
  | some running =>
    let cluster := { cluster with
      workers := cluster.workers.erase inbox
      network := cluster.network.discard inbox }
    running.worker.waiting.foldl (fun cluster ticket => cluster.deliver (ticket, .abandoned)) cluster

/-- Stops a worker, which closes the inbox of its member and group. -/
def stopWorker (cluster : Cluster) (inbox : InboxId) : Cluster :=
  match cluster.workers.get? inbox with
  | none => cluster
  | some { worker, .. } =>
    let network := cluster.network.detach worker.group worker.member
    { cluster with network }.dropWorker inbox

/-- Sends what a worker has to send, and tells callers what it has to tell. -/
def collect (cluster : Cluster) (inbox : InboxId) (running : RunningWorker) : Cluster :=
  let { worker, .. } := running
  let network := worker.sent.foldl (fun network message =>
    match message.source, message.target with
    | some source, some target => network.send worker.group source target message
    | _, _ => network) cluster.network
  let running := { running with worker := { worker with sent := [], receipts := [] } }
  worker.receipts.foldl deliver
    { cluster with network, workers := cluster.workers.insert inbox running }

/-- Lets a worker take an event. A worker that cannot go on is gone, though its inbox stays. -/
def turn (cluster : Cluster) (inbox : InboxId) (event : WorkerEvent) : Option Cluster := do
  match cluster.workers.get? inbox with
  | none => return cluster
  | some running =>
    match ← ((running.worker.turn event cluster.wall).run : Option (Except NodeError Worker)) with
    | .ok worker => return cluster.collect inbox { running with worker }
    | .error _ => return cluster.dropWorker inbox

/-- Hands a demand to a worker. -/
def ask (cluster : Cluster) (id : CallId) (call : Call) (inbox : InboxId) : Option Cluster :=
  if cluster.workers.contains inbox then
    let ticket := cluster.tickets
    let deadline := cluster.clock + cluster.config.submitTimeout.toNat
    let cluster := { cluster with tickets := ticket + 1 }.putCall id
      { call with state := .waiting ticket deadline }
    cluster.turn inbox (match call.demand with
      | .submit invocation operation => .submit invocation operation ticket
      | .query operation policy => .query operation policy ticket)
  else
    let outcome := .failed .groupShutdown
    some (cluster.putCall id (call.conclude cluster.members cluster.clock outcome))

/-- Hands a demand to a member's worker. -/
def askMember (cluster : Cluster) (id : CallId) (call : Call) (member : MemberId) :
    Option Cluster :=
  match cluster.find member call.group with
  | .ok inbox => cluster.ask id call inbox
  | .error (.groupNotFound group) =>
    let outcome := .failed (.groupNotFound group.toText)
    some (cluster.putCall id (call.conclude cluster.members cluster.clock outcome))
  | .error error => some (cluster.putCall id { call with state := .failed error })

/-- Makes the next request of a call. -/
def request (cluster : Cluster) (id : CallId) (call : Call) : Option Cluster :=
  match call.route with
  | .worker inbox => cluster.ask id call inbox
  | .member member | .leader member _ => cluster.askMember id call member

/-- Lets a worker take what waits in its inbox. -/
def readInbox (cluster : Cluster) (inbox : InboxId) : Option Cluster :=
  let (messages, network) := cluster.network.receive inbox
  messages.foldlM (fun cluster message => cluster.turn inbox (.message message))
    { cluster with network }

/-- Whether any worker has something to read. -/
def hasMail (cluster : Cluster) : Bool :=
  cluster.network.inboxes.values.any (!·.isEmpty)

/-- Lets all workers read until nothing is left. `none` if there still is after so many rounds. -/
def exchangeWithin (cluster : Cluster) : Nat → Option Cluster
  | 0 => none
  | rounds + 1 =>
    if cluster.hasMail then do
      let cluster ← cluster.network.inboxes.keys.foldlM readInbox cluster
      cluster.exchangeWithin rounds
    else some cluster

/-- Lets all workers read until nothing is left. Beyond the limit on rounds, members only exchange
    what could go on for ever. -/
def exchange (cluster : Cluster) : Option Cluster := cluster.exchangeWithin 100000

end Cluster

end Quorum
