import Quorum.Cluster.Groups
import Quorum.Cluster.Time
import Quorum.CommandLine
import Quorum.ConfigFile

namespace Quorum

namespace Demo

/-- How a demonstration ends before its end. -/
inductive Halt where
  | failed (message : String)
  | crashed

structure State where
  cluster : Cluster
  group : GroupId
  lines : List String := []
  /-- The number of tokens used. -/
  tokens : Nat := 0

/-- A part of the demonstration. What was written before it ends stays. -/
abbrev Script := ExceptT Halt (StateM State)

/-- The time limit of each call. -/
def callLimit : Millis := 10000

/-- Lets the cluster do something. -/
def withCluster {α : Type} (f : Cluster → Option (α × Cluster)) : Script α := do
  match f (← get).cluster with
  | none => throw .crashed
  | some (result, cluster) =>
    modify fun state => { state with cluster }
    return result

/-- Lets the cluster do something that it may refuse. -/
def attempt {α : Type} (f : Cluster → Option (Except ClusterError α × Cluster)) : Script α := do
  match ← withCluster f with
  | .ok result => return result
  | .error error => throw (.failed error.message)

/-- Waits for the end of a call. -/
def finish (id : CallId) : Script Outcome := do
  match ← withCluster (·.join id) with
  | some (.ok outcome) => return outcome
  | some (.error error) => throw (.failed error.message)
  | none => throw (.failed (Outcome.indeterminateMessage false))

/-- Submits an operation to the leader. -/
def submit (invocation : Invocation) (operation : Operation) : Script Outcome := do
  let group := (← get).group
  finish (← withCluster (·.callLeader group (.submit invocation operation) callLimit))

/-- Submits an operation under a session, with a token of its own. -/
def submitUnder (session : SessionId) (operation : Operation) : Script Outcome := do
  let tokens := (← get).tokens + 1
  modify fun state => { state with tokens }
  submit { session := some session, thread := some 1, uid := some (.ofNat tokens) } operation

def openSession (endpoint : String) : Script SessionId := do
  match (← submit .anonymous (.session (.create endpoint))).toResult with
  | .ok (.session grant) => return grant.session
  | .ok _ => throw (.failed "unexpected session grant")
  | .error message => throw (.failed message)

/-- A label in a column of 28 characters, and what follows it. -/
def column (label text : String) : String :=
  label ++ String.ofList (List.replicate (28 - label.length) ' ') ++ " " ++ text

def write (label : String) (outcome : Outcome) : Script Unit :=
  modify fun state =>
    { state with lines := state.lines ++ [column label (Response.ofOutcome outcome).toJson.toText] }

/-- Waits for a leader among some members. -/
def awaitLeader (candidates : List MemberId) : Script MemberId := do
  let group := (← get).group
  attempt (·.awaitLeader group candidates callLimit)

/-- The calls of one client. -/
def exercise (round : Nat) : Script Unit := do
  let session ← openSession s!"demo-client-{round}"
  let call (label : String) (operation : Operation) : Script Unit := do
    write label (← submitUnder session operation)
  let value := s!"round-{round}".toUTF8.toList
  call "atomic-ref.set" (.atomicRef "demo-ref" (.set (some value)))
  call "semaphore.init(2)" (.semaphore "demo-permits" (.init 2))
  call "semaphore.acquire(1)" (.semaphore "demo-permits" (.acquire 1 (some 0)))
  call "latch.try-set-count(1)" (.latch "demo-latch" (.trySetCount 1))
  call "latch.count-down" (.latch "demo-latch" .countDown)
  let leader ← awaitLeader (← get).cluster.members
  let group := (← get).group
  let read := Demand.query (.atomicRef "demo-ref" .get) .linearizable
  write "atomic-ref.get" (← finish (← withCluster (·.callMember leader group read)))
  call "session.close" (.session (.close session))

/-- Cuts the leader off until another member leads, and lets a second client call. -/
def failOver (leader : MemberId) : Script Unit := do
  let members := (← get).cluster.members
  if 3 ≤ members.length then
    withCluster fun cluster => some ((), { cluster with network := cluster.network.isolate leader })
    let _ ← awaitLeader (members.filter (· ≠ leader))
    withCluster fun cluster => some ((), { cluster with network := cluster.network.heal })
    exercise 2

/-- A client opens a session in the one group, uses one object of each kind and closes its session.
    With failover, the leader is then cut off until another member leads, and a second client does
    the same. -/
def script (failover : Bool) : Script Unit := do
  let group := (← get).group
  attempt (·.createGroup group)
  let leader ← awaitLeader (← get).cluster.members
  exercise 1
  if failover then failOver leader

/-- The settings without a file: a quick clock. -/
def defaultConfig : Config := { tickInterval := 20 }

/-- What a program prints and ends with. -/
structure Transcript where
  lines : List String := []
  exitCode : UInt32 := 0
  /-- What went wrong. -/
  complaint : Option String := none

/-- The exit code after an error. -/
def errorCode : UInt32 := 1

/-- The exit code after arguments that cannot be read. -/
def usageCode : UInt32 := 2

/-- The exit code after a broken assumption. -/
def crashCode : UInt32 := 101

/-- Runs the demonstration with given settings. -/
def runWith (options : DemoOptions) (config : Config) : Transcript :=
  match Cluster.start options.members config .even with
  | .error error => { exitCode := errorCode, complaint := some error.message }
  | .ok cluster =>
    let (result, state) := (script options.failover).run { cluster, group := ⟨options.group, 0⟩ }
    match result with
    | .ok () => { lines := state.lines }
    | .error (.failed message) =>
      { lines := state.lines, exitCode := errorCode, complaint := some message }
    | .error .crashed => { lines := state.lines, exitCode := crashCode }

/-- The text of settings that cannot be used. -/
def configComplaint : ConfigFileError → String
  | .unreadable => "failed to read config"
  | .malformed => "failed to parse config"
  | .invalid error => error.message

/-- Runs the demonstration, given the content of the file that holds the settings if there is such a
    file. -/
def run (options : DemoOptions) (file : Option ByteArray) : Transcript :=
  match options.configPath with
  | none => runWith options defaultConfig
  | some _ =>
    match Config.ofFile file with
    | .ok config => runWith options config
    | .error error => { exitCode := errorCode, complaint := some (configComplaint error) }

/-- What is printed in the stead of a demonstration. -/
def refuse : CommandLine.Refusal → Transcript
  | .help => { lines := CommandLine.helpLines }
  | .version => { lines := [CommandLine.versionLine] }
  | .unreadable => { exitCode := usageCode, complaint := some "arguments cannot be read" }

end Demo

end Quorum
