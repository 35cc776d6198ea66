import Quorum.Cluster

namespace Quorum.Cluster

/-- Runs the timers of a worker that are due. -/
def runTimers (cluster : Cluster) (inbox : InboxId) : Option Cluster :=
  match cluster.workers.get? inbox with
  | none => some cluster
  | some running =>
    let (events, running) := running.due cluster.config cluster.clock
    events.foldlM (fun cluster event => cluster.turn inbox event)
      { cluster with workers := cluster.workers.insert inbox running }

/-- Lets a call act on its timer if that is due. -/
def runCall (cluster : Cluster) (id : CallId) : Option Cluster :=
  match cluster.calls.get? id with
  | none => some cluster
  | some call =>
    match call.state with
    | .waiting _ deadline =>
      if deadline ≤ cluster.clock then
        some (cluster.putCall id (call.giveUp cluster.members cluster.clock))
      else some cluster
    | .pausing wake => if wake ≤ cluster.clock then cluster.request id call else some cluster
    | _ => some cluster

/-- Does all that is due, at once and in a fixed order. Time passes only when there is nothing left
    to do. -/
def react (cluster : Cluster) : Option Cluster := do
  let cluster ← cluster.workers.keys.foldlM runTimers cluster
  let cluster ← cluster.exchange
  let cluster ← cluster.calls.keys.foldlM runCall cluster
  cluster.exchange

/-- The times of all timers. -/
def timers (cluster : Cluster) : List Nat :=
  (cluster.workers.values.flatMap fun running => [running.nextTick, running.nextExpiryCheck]) ++
    cluster.calls.values.filterMap Call.timer?

/-- The next time at which something is due, or the given time if that is earlier. -/
def nextTime (cluster : Cluster) (time : Nat) : Nat :=
  (cluster.timers.filter (cluster.clock < ·)).foldl min time

/-- How far the clock on the wall moves while the clock that timers follow moves to a time.
    `isAwaited` says whether somebody waits for what the clock on the wall decides. -/
def wallSpan (cluster : Cluster) (time : Nat) (isAwaited : Bool) : Nat :=
  match cluster.pace, isAwaited with
  | .even, _ => time - cluster.clock
  | .onDemand, true =>
    let interval := cluster.config.expiryInterval.toNat
    time / interval - cluster.clock / interval
  | .onDemand, false => 0

/-- Moves the clocks. -/
def moveClock (cluster : Cluster) (time : Nat) (isAwaited : Bool) : Cluster :=
  { cluster with
    clock := time
    wall := cluster.wall + UInt64.ofNat (cluster.wallSpan time isAwaited) }

/-- Lets time pass up to a given time. `none` if it takes more than so many steps. -/
def passUntil (cluster : Cluster) (time : Nat) : Nat → Option Cluster
  | 0 => none
  | steps + 1 => do
    let cluster ← cluster.react
    if time ≤ cluster.clock then return cluster
    (cluster.moveClock (cluster.nextTime time) false).passUntil time steps

/-- Lets a span of time pass. The clock moves by a millisecond at the least. -/
def pass (cluster : Cluster) (span : Nat) : Option Cluster :=
  cluster.passUntil (cluster.clock + span) (span + 1)

/-- Lets time pass as long as `goOn` says so. `none` if it still does after so many steps. -/
def passWhileWithin (goOn isAwaited : Cluster → Bool) (cluster : Cluster) : Nat → Option Cluster
  | 0 => none
  | steps + 1 => do
    let cluster ← cluster.react
    if !goOn cluster then return cluster
    let time := cluster.nextTime (cluster.clock + pollInterval)
    passWhileWithin goOn isAwaited (cluster.moveClock time (isAwaited cluster)) steps

/-- Lets time pass as long as `goOn` says so; `isAwaited` says when the clock on the wall decides
    how long. A wait that goes on beyond the limit on steps has no end. -/
def passWhile (cluster : Cluster) (goOn isAwaited : Cluster → Bool) : Option Cluster :=
  passWhileWithin goOn isAwaited cluster 1000000

/-- The candidate that leads at the highest term; of several, the first. -/
def leaderAmong (cluster : Cluster) (group : GroupId) (candidates : List MemberId) :
    Except ClusterError (Option MemberId) := do
  let statuses ← candidates.mapM fun member => cluster.memberStatus member group
  let best := (statuses.filter (·.role = .leader)).foldl (fun best status =>
    if best.any fun best : GroupStatus => status.term ≤ best.term then best else some status) none
  return best.map (·.member)

/-- Waits until one of the candidates leads the group, looking at most so many times. -/
def awaitLeaderUntil (cluster : Cluster) (group : GroupId) (candidates : List MemberId)
    (limit : Millis) (deadline : Nat) : Nat → Option (Except ClusterError MemberId × Cluster)
  | 0 => some (.error (.noLeader group limit), cluster)
  | looks + 1 => do
    let cluster ← cluster.react
    match cluster.leaderAmong group candidates with
    | .error error => return (.error error, cluster)
    | .ok (some leader) => return (.ok leader, cluster)
    | .ok none =>
      if deadline ≤ cluster.clock then return (.error (.noLeader group limit), cluster)
      (← cluster.pass pollInterval).awaitLeaderUntil group candidates limit deadline looks

/-- Waits until one of the candidates leads the group. -/
def awaitLeader (cluster : Cluster) (group : GroupId) (candidates : List MemberId)
    (limit : Millis) : Option (Except ClusterError MemberId × Cluster) :=
  cluster.awaitLeaderUntil group candidates limit (cluster.clock + limit.toNat)
    (limit.toNat / pollInterval + 2)

/-- Waits until a member sees so many sessions in a group. The ends of leases are waited for, so the
    clock on the wall moves. -/
def awaitSessions (cluster : Cluster) (member : MemberId) (group : GroupId) (count : Nat) :
    Option (Except ClusterError Unit × Cluster) := do
  let differs (cluster : Cluster) :=
    (cluster.memberStatus member group).toOption.any (·.sessions ≠ count)
  let cluster ← cluster.passWhile differs fun _ => true
  return ((cluster.memberStatus member group).map fun _ => (), cluster)

/-- Begins a call. -/
def begin (cluster : Cluster) (call : Call) : Option (CallId × Cluster) := do
  let id := cluster.calls.size
  let cluster ← (← cluster.react).request id call
  return (id, ← cluster.exchange)

/-- Begins a call through a worker. -/
def callWorker (cluster : Cluster) (inbox : InboxId) (group : GroupId) (demand : Demand) :
    Option (CallId × Cluster) :=
  cluster.begin { group, demand, route := .worker inbox, state := .pausing cluster.clock }

/-- Begins a call through a member. -/
def callMember (cluster : Cluster) (member : MemberId) (group : GroupId) (demand : Demand) :
    Option (CallId × Cluster) :=
  cluster.begin { group, demand, route := .member member, state := .pausing cluster.clock }

/-- Begins a call that looks for the leader, at first with the first member. -/
def callLeader (cluster : Cluster) (group : GroupId) (demand : Demand) (limit : Millis) :
    Option (CallId × Cluster) :=
  let deadline := cluster.clock + limit.toNat
  match cluster.members with
  | [] =>
    let id := cluster.calls.size
    some (id, cluster.putCall id
      { group, demand, route := .leader 0 deadline, state := .failed .noMembers })
  | first :: _ =>
    cluster.begin { group, demand, route := .leader first deadline, state := .pausing cluster.clock }

/-- Waits for the end of a call. While the call is parked, its deadline and the leases of sessions
    are waited for. -/
def join (cluster : Cluster) (id : CallId) :
    Option (Option (Except ClusterError Outcome) × Cluster) := do
  let cluster ← cluster.passWhile (fun cluster => (cluster.result? id).isNone) (·.isParked id)
  return (cluster.result? id, cluster)

end Quorum.Cluster
