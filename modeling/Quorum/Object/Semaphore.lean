import Quorum.Operation
import Quorum.Object.Parked

namespace Quorum

/-- The owner of permits. -/
abbrev Holder := SessionId × ThreadId

/-- The holder a call acts for; a session's call that names no thread acts for thread zero. -/
def Invocation.holder (invocation : Invocation) : Option Holder :=
  invocation.session.map fun session => (session, invocation.thread.getD 0)

/-- A parked acquire. -/
structure AcquireWaiter where
  uid : InvocationUid
  holder : Option Holder
  permits : UInt32
  deadline : Option Millis
  deriving DecidableEq

namespace AcquireWaiter

def session (waiter : AcquireWaiter) : Option SessionId := waiter.holder.map (·.1)

def answer (waiter : AcquireWaiter) (result : Reply) : Notification :=
  { uid := waiter.uid, session := waiter.session, kind := SemaphoreOp.acquireKind, result }

end AcquireWaiter

/-- A counting semaphore whose permits are owned by sessions. Permits taken under a session are
    recorded per session and thread, so that closing the session gives them back. Callers that
    cannot be served wait in a queue; freed permits serve it strictly from the front and stop at the
    first caller that does not fit. The capacity is what `init`, `increase` and `reduce` set. -/
structure Semaphore where
  initialized : Bool := false
  capacity : Int := 0
  available : Int := 0
  held : SortedMap Holder Nat := ∅
  waiters : List AcquireWaiter := []
  deriving DecidableEq, Inhabited

namespace Semaphore

/-- Permits held by any session. -/
def totalHeld (semaphore : Semaphore) : Nat := semaphore.held.total fun _ permits => permits

/-- Permits held by a session across all of its threads. -/
def heldBy (semaphore : Semaphore) (session : SessionId) : Nat :=
  semaphore.held.total fun holder permits => if holder.1 = session then permits else 0

/-- Takes permits out and records them for the holder, if there is one. -/
def grant (semaphore : Semaphore) (holder : Option Holder) (permits : UInt32) : Semaphore :=
  let taken := { semaphore with available := semaphore.available - permits.toNat }
  match holder with
  | some holder =>
    { taken with held := taken.held.insert holder (taken.held.getD holder 0 + permits.toNat) }
  | none => taken

/-- Serves a queue from its front while its head fits. -/
def serve (semaphore : Semaphore) : List AcquireWaiter → Semaphore × List Notification
  | [] => ({ semaphore with waiters := [] }, [])
  | waiter :: rest =>
    if semaphore.available < permitsNeeded waiter then
      ({ semaphore with waiters := waiter :: rest }, [])
    else
      let (served, notes) := (semaphore.grant waiter.holder waiter.permits).serve rest
      (served, waiter.answer (.ok (.bool true)) :: notes)
where
  permitsNeeded (waiter : AcquireWaiter) : Int := waiter.permits.toNat

/-- Serves the own queue. -/
def grantWaiters (semaphore : Semaphore) : Semaphore × List Notification :=
  semaphore.serve semaphore.waiters

/-- Sets the first number of permits; a semaphore that has one is left alone. -/
def init (semaphore : Semaphore) (permits : UInt32) : Step Semaphore Bool :=
  if semaphore.initialized then { answer := false, state := semaphore }
  else
    let (state, notes) := { semaphore with
      initialized := true
      capacity := permits.toNat
      available := permits.toNat }.grantWaiters
    { answer := true, state, notes }

/-- Takes permits, or parks the caller. Parked callers are never overtaken, and a call that is
    already parked stays parked once. -/
def acquire (semaphore : Semaphore) (invocation : Invocation) (permits : UInt32)
    (timeout : Option Millis) (now : Millis) : Step Semaphore Applied :=
  let stay (answer : Applied) : Step Semaphore Applied := { answer, state := semaphore }
  if permits = 0 then stay (.failed (.invalidArgument "permits must be positive"))
  else if semaphore.waiters.any (fun waiter => some waiter.uid = invocation.uid) then stay .waiting
  else if semaphore.waiters.isEmpty ∧ (permits.toNat : Int) ≤ semaphore.available then
    { answer := .ok (.bool true), state := semaphore.grant invocation.holder permits }
  else if timeout = some 0 then stay (.ok (.bool false))
  else match invocation.uid with
    | none => stay (.failed .missingUid)
    | some uid =>
      let waiter : AcquireWaiter :=
        { uid, holder := invocation.holder, permits, deadline := deadline now timeout }
      { answer := .waiting, state := { semaphore with waiters := semaphore.waiters ++ [waiter] } }

/-- Gives permits back and serves the queue. A holder can give back what it holds, other callers
    what such callers took out. -/
def release (semaphore : Semaphore) (invocation : Invocation) (permits : UInt32) :
    Step Semaphore (Except Failure Unit) :=
  let refuse (failure : Failure) : Step Semaphore (Except Failure Unit) :=
    { answer := .error failure, state := semaphore }
  let accept (freed : Semaphore) : Step Semaphore (Except Failure Unit) :=
    let (state, notes) := { freed with
      available := semaphore.available + permits.toNat }.grantWaiters
    { answer := .ok (), state, notes }
  if permits = 0 then refuse (.invalidArgument "permits must be positive")
  else match invocation.holder with
    | some holder =>
      let held := semaphore.held.getD holder 0
      if held < permits.toNat then
        refuse (.illegalState s!"session {holder.1.toNat} thread {holder.2.toNat} holds {held} permits, cannot release {permits.toNat}")
      else if held = permits.toNat then
        accept { semaphore with held := semaphore.held.erase holder }
      else
        accept { semaphore with held := semaphore.held.insert holder (held - permits.toNat) }
    | none =>
      let outstanding := semaphore.available + semaphore.totalHeld
      if semaphore.capacity < outstanding + permits.toNat then
        refuse (.illegalState s!"cannot release {permits.toNat} permits, {outstanding} of {semaphore.capacity} are already outstanding")
      else accept semaphore

/-- Takes every available permit; a negative count is reset to zero. -/
def drain (semaphore : Semaphore) (invocation : Invocation) : Nat × Semaphore :=
  let drained := semaphore.available.toNat
  let emptied := { semaphore with available := 0 }
  match invocation.holder with
  | some holder =>
    if 0 < drained then
      (drained, { emptied with held := emptied.held.insert holder (emptied.held.getD holder 0 + drained) })
    else (drained, emptied)
  | none => (drained, emptied)

/-- Adds new permits and serves the queue. -/
def increase (semaphore : Semaphore) (permits : UInt32) : Step Semaphore Unit :=
  let (state, notes) := { semaphore with
    initialized := true
    capacity := semaphore.capacity + permits.toNat
    available := semaphore.available + permits.toNat }.grantWaiters
  { answer := (), state, notes }

/-- Removes permits; below zero only where overdraft is allowed. -/
def reduce (semaphore : Semaphore) (permits : UInt32) (overdraft : Bool) :
    Except Failure Semaphore :=
  let reduced := semaphore.available - permits.toNat
  if reduced < 0 ∧ ¬overdraft then
    .error (.illegalState s!"cannot reduce {semaphore.available} available permits by {permits.toNat}")
  else .ok { semaphore with
    initialized := true
    capacity := semaphore.capacity - permits.toNat
    available := reduced }

/-- Gives a closed session's permits back, fails its parked calls, and serves the rest. -/
def closeSession (semaphore : Semaphore) (session : SessionId) : Semaphore × List Notification :=
  let (cancelled, kept) := semaphore.waiters.partition (fun waiter => waiter.session = some session)
  let failures := cancelled.map fun waiter => waiter.answer (.error (.sessionExpired session))
  let (state, grants) := { semaphore with
    available := semaphore.available + semaphore.heldBy session
    held := semaphore.held.filter fun holder _ => holder.1 ≠ session
    waiters := kept }.grantWaiters
  (state, failures ++ grants)

/-- Tells a parked call that its time is up, and serves those it was blocking. -/
def expireWaiter (semaphore : Semaphore) (uid : InvocationUid) : Semaphore × List Notification :=
  match semaphore.waiters.find? (fun waiter => waiter.uid = uid) with
  | none => (semaphore, [])
  | some waiter =>
    let (state, grants) := { semaphore with
      waiters := semaphore.waiters.eraseP (fun waiter => waiter.uid = uid) }.grantWaiters
    (state, waiter.answer (.ok (.bool false)) :: grants)

end Semaphore

/-- The semaphores of a replica, by name. -/
structure Semaphores where
  byName : SortedMap String Semaphore := ∅
  /-- Whether `reduce` may take the available permits below zero. -/
  overdraft : Bool := false
  deriving DecidableEq, Inhabited

namespace Semaphores

def get? (semaphores : Semaphores) (name : String) : Option Semaphore := semaphores.byName.get? name

def put (semaphores : Semaphores) (name : String) (semaphore : Semaphore) : Semaphores :=
  { semaphores with byName := semaphores.byName.insert name semaphore }

/-- Reads without creating; a missing semaphore has no permits. -/
def query (semaphores : Semaphores) (name : String) : SemaphoreOp → Reply
  | .availablePermits =>
    .ok (.count (((semaphores.get? name).map Semaphore.available).getD 0).toInt64)
  | _ => .error (.invalidArgument "not a read-only semaphore operation")

/-- Applies an operation to one semaphore. -/
def step (overdraft : Bool) (semaphore : Semaphore) (op : SemaphoreOp) (invocation : Invocation)
    (now : Millis) : Step Semaphore Applied :=
  match op with
  | .init permits =>
    let { answer, state, notes } := semaphore.init permits
    { answer := .ok (.bool answer), state, notes }
  | .acquire permits timeout => semaphore.acquire invocation permits timeout now
  | .release permits =>
    let { answer, state, notes } := semaphore.release invocation permits
    { answer := .done (answer.map fun _ => .unit), state, notes }
  | .drain =>
    let (drained, state) := semaphore.drain invocation
    { answer := .ok (.count (drained : Int).toInt64), state }
  | .increase permits =>
    let { state, notes, .. } := semaphore.increase permits
    { answer := .ok .unit, state, notes }
  | .reduce permits =>
    match semaphore.reduce permits overdraft with
    | .ok state => { answer := .ok .unit, state }
    | .error failure => { answer := .failed failure, state := semaphore }
  | .availablePermits => { answer := .ok (.count semaphore.available.toInt64), state := semaphore }

/-- Applies an operation to the named semaphore, which is created unless it is only read. -/
def apply (semaphores : Semaphores) (name : String) (op : SemaphoreOp) (invocation : Invocation)
    (now : Millis) : Step Semaphores Applied :=
  if op.isReadOnly then { answer := .done (semaphores.query name op), state := semaphores }
  else
    let { answer, state, notes } :=
      step semaphores.overdraft (semaphores.byName.getD name {}) op invocation now
    { answer, state := semaphores.put name state, notes }

/-- Removes a semaphore and fails the calls parked on it. -/
def destroy (semaphores : Semaphores) (name : String) : Step Semaphores Bool :=
  match semaphores.get? name with
  | none => { answer := false, state := semaphores }
  | some semaphore =>
    { answer := true
      state := { semaphores with byName := semaphores.byName.erase name }
      notes := semaphore.waiters.map fun waiter => waiter.answer (.error (.objectDestroyed name)) }

/-- Lets every semaphore take one step, in the order of names. -/
def stepAll (semaphores : Semaphores) (f : Semaphore → Semaphore × List Notification) :
    Semaphores × List Notification :=
  ({ semaphores with byName := semaphores.byName.mapValues fun _ semaphore => (f semaphore).1 },
    semaphores.byName.values.flatMap fun semaphore => (f semaphore).2)

def closeSession (semaphores : Semaphores) (session : SessionId) :
    Semaphores × List Notification :=
  semaphores.stepAll fun semaphore => semaphore.closeSession session

def expireWaitKey (semaphores : Semaphores) (uid : InvocationUid) :
    Semaphores × List Notification :=
  semaphores.stepAll fun semaphore => semaphore.expireWaiter uid

/-- Parked calls whose deadline has come. -/
def expiredWaitKeys (semaphores : Semaphores) (now : Millis) : List InvocationUid :=
  ((semaphores.byName.values.flatMap Semaphore.waiters).filter fun waiter =>
    waiter.deadline.any (· ≤ now)).map AcquireWaiter.uid

end Semaphores

end Quorum
