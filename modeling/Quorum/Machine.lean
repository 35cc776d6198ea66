import Quorum.Session
import Quorum.InvocationCache
import Quorum.Object.AtomicRef
import Quorum.Object.Semaphore
import Quorum.Object.Latch

namespace Quorum

/-- Settings that affect answers. All members must agree on them. -/
structure MachineOptions where
  sessionTtl : Millis
  dedupCapacity : Nat
  overdraft : Bool
  deriving DecidableEq

/-- The state machine of a group. Committed commands are applied strictly in the order of the log. A
    command is refused if its session is closed; a retry is answered from the recorded results;
    anything else is dispatched on its operation, and its answers are recorded for later retries.
    All of this is a function of the commands, so replicas that apply the same log are equal. -/
structure Machine where
  sessions : SessionRegistry
  cache : InvocationCache
  refs : AtomicRefs := {}
  semaphores : Semaphores := {}
  latches : Latches := {}
  deriving DecidableEq

namespace Machine

def new (options : MachineOptions) : Machine where
  sessions := .new options.sessionTtl
  cache := .new options.dedupCapacity
  semaphores := { overdraft := options.overdraft }

/-- Gives back all that a closed session held: its recorded results, permits, parked acquires and
    latch rounds. -/
def releaseSession (machine : Machine) (session : SessionId) : Machine × List Notification :=
  let (semaphores, semaphoreNotes) := machine.semaphores.closeSession session
  let (latches, latchNotes) := machine.latches.closeSession session
  ({ machine with cache := machine.cache.discard session, semaphores, latches },
    semaphoreNotes ++ latchNotes)

/-- Closes the listed sessions whose version is still the one seen, and counts them. -/
def expireSessions (machine : Machine) : List (SessionId × UInt64) → Step Machine Nat
  | [] => { answer := 0, state := machine }
  | (session, version) :: rest =>
    match machine.sessions.closeIfVersion session version with
    | none => machine.expireSessions rest
    | some (_, sessions) =>
      let (released, notes) := { machine with sessions }.releaseSession session
      let later := released.expireSessions rest
      { answer := later.answer + 1, state := later.state, notes := notes ++ later.notes }

/-- Tells the parked calls of one token, wherever they wait, that their time is up. -/
def expireWaitKey (machine : Machine) (uid : InvocationUid) : Machine × List Notification :=
  let (semaphores, semaphoreNotes) := machine.semaphores.expireWaitKey uid
  let (latches, latchNotes) := machine.latches.expireWaitKey uid
  ({ machine with semaphores, latches }, semaphoreNotes ++ latchNotes)

def expireWaitKeys (machine : Machine) : List InvocationUid → Machine × List Notification
  | [] => (machine, [])
  | uid :: rest =>
    let (expired, notes) := machine.expireWaitKey uid
    let (state, later) := expired.expireWaitKeys rest
    (state, notes ++ later)

def applySession (machine : Machine) (op : SessionOp) (now : Millis) : Step Machine Applied :=
  match op with
  | .create endpoint =>
    let (session, sessions) := machine.sessions.create endpoint now
    { answer := .ok (.session ⟨session.id, machine.sessions.ttl⟩)
      state := { machine with sessions } }
  | .heartbeat session =>
    match machine.sessions.heartbeat session now with
    | .ok sessions => { answer := .ok .unit, state := { machine with sessions } }
    | .error failure => { answer := .failed failure, state := machine }
  | .close session =>
    match machine.sessions.close session with
    | none => { answer := .ok (.bool false), state := machine }
    | some (_, sessions) =>
      let (state, notes) := { machine with sessions }.releaseSession session
      { answer := .ok (.bool true), state, notes }
  | .generateThreadId =>
    let (thread, sessions) := machine.sessions.generateThread
    { answer := .ok (.thread thread), state := { machine with sessions } }

def destroy (machine : Machine) (kind : ObjectKind) (name : String) : Step Machine Bool :=
  match kind with
  | .atomicRef =>
    let (answer, refs) := machine.refs.destroy name
    { answer, state := { machine with refs } }
  | .semaphore =>
    let { answer, state := semaphores, notes } := machine.semaphores.destroy name
    { answer, state := { machine with semaphores }, notes }
  | .latch =>
    let { answer, state := latches, notes } := machine.latches.destroy name
    { answer, state := { machine with latches }, notes }

/-- Executes an operation, without regard to retries. -/
def execute (machine : Machine) (operation : Operation) (invocation : Invocation) (now : Millis) :
    Step Machine Applied :=
  match operation with
  | .session op => machine.applySession op now
  | .atomicRef name op =>
    let { answer, state := refs, notes } := machine.refs.apply name op
    { answer, state := { machine with refs }, notes }
  | .semaphore name op =>
    let { answer, state := semaphores, notes } := machine.semaphores.apply name op invocation now
    { answer, state := { machine with semaphores }, notes }
  | .latch name op =>
    let { answer, state := latches, notes } := machine.latches.apply name op invocation now
    { answer, state := { machine with latches }, notes }
  | .destroy kind name =>
    let { answer, state, notes } := machine.destroy kind name
    { answer := .ok (.bool answer), state, notes }
  | .expireSessions sessions =>
    let { answer, state, notes } := machine.expireSessions sessions
    { answer := .ok (.count (answer : Int).toInt64), state, notes }
  | .expireWaitKeys keys =>
    let (state, notes) := machine.expireWaitKeys keys
    { answer := .ok .unit, state, notes }

/-- Records an answer for retries, as long as the session is open. -/
def remember (machine : Machine) (session : SessionId) (kind : String) (uid : InvocationUid)
    (value : Value) : Machine :=
  if machine.sessions.isActive session then
    { machine with cache := machine.cache.record session kind uid value }
  else machine

/-- Records the answer of a parked call. -/
def rememberNote (machine : Machine) (note : Notification) : Machine :=
  match note.session, note.result with
  | some session, .ok value => machine.remember session note.kind note.uid value
  | _, _ => machine

/-- The session and token under which an operation's answer is recorded. -/
def recordKey (invocation : Invocation) (operation : Operation) :
    Option (SessionId × InvocationUid) :=
  match invocation.session, invocation.uid with
  | some session, some uid => if operation.isReadOnly then none else some (session, uid)
  | _, _ => none

/-- The recorded answer of an earlier application of the same call. -/
def recorded (machine : Machine) (invocation : Invocation) (operation : Operation) :
    Option Value :=
  (recordKey invocation operation).bind fun key =>
    machine.cache.lookup key.1 operation.kind key.2

/-- Records what a step answered: the caller first, then the parked calls in order. -/
def rememberStep (invocation : Invocation) (operation : Operation) (step : Step Machine Applied) :
    Machine :=
  let own := match recordKey invocation operation, step.answer with
    | some (session, uid), .done (.ok value) =>
      step.state.remember session operation.kind uid value
    | _, _ => step.state
  step.notes.foldl rememberNote own

/-- Applies one committed command. -/
def apply (machine : Machine) (command : Command) : Step Machine Applied :=
  let { invocation, operation, timestamp } := command
  match invocation.session.filter (fun session => !machine.sessions.isActive session) with
  | some session => { answer := .failed (.sessionExpired session), state := machine }
  | none =>
    match machine.recorded invocation operation with
    | some value => { answer := .ok value, state := machine }
    | none =>
      let step := machine.execute operation invocation timestamp
      { step with state := rememberStep invocation operation step }

/-- Serves a read-only operation from the present state. -/
def query (machine : Machine) (operation : Operation) : Reply :=
  let refuse := .error (.invalidArgument (operation.kind ++ " is not a read-only operation"))
  if operation.isReadOnly then
    match operation with
    | .atomicRef name op => machine.refs.query name op
    | .semaphore name op => machine.semaphores.query name op
    | .latch name op => machine.latches.query name op
    | _ => refuse
  else refuse

/-- Parked calls that are to be proposed for timeout. -/
def expiredWaitKeys (machine : Machine) (now : Millis) : List InvocationUid :=
  machine.semaphores.expiredWaitKeys now ++ machine.latches.expiredWaitKeys now

end Machine

end Quorum
