import Quorum.Operation
import Quorum.Object.Parked

namespace Quorum

/-- A parked await. -/
structure AwaitWaiter where
  uid : InvocationUid
  session : Option SessionId
  deadline : Option Millis
  deriving DecidableEq

def AwaitWaiter.answer (waiter : AwaitWaiter) (result : Reply) : Notification :=
  { uid := waiter.uid, session := waiter.session, kind := LatchOp.awaitKind, result }

/-- A countdown latch. A round starts when a count is set and ends when it reaches zero. The first
    session to count down owns the round; if that session closes before the end, nobody can be
    relied on to open the latch, and its awaiters are failed. -/
structure Latch where
  count : UInt32 := 0
  round : UInt64 := 0
  owner : Option SessionId := none
  waiters : List AwaitWaiter := []
  deriving DecidableEq, Inhabited

namespace Latch

/-- Counts down by one; at zero the round ends and every awaiter is released. -/
def countDown (latch : Latch) (session : Option SessionId) : Step Latch UInt32 :=
  if latch.count = 0 then { answer := 0, state := latch }
  else
    let count := latch.count - 1
    if count = 0 then
      { answer := 0
        state := { latch with count := 0, owner := none, waiters := [] }
        notes := latch.waiters.map fun waiter => waiter.answer (.ok (.bool true)) }
    else
      { answer := count, state := { latch with count, owner := latch.owner <|> session } }

/-- Starts a new round. A zero count leaves the latch open and starts no round. -/
def trySetCount (latch : Latch) (count : UInt32) : Except Failure Latch :=
  if latch.count ≠ 0 then
    .error (.illegalState s!"count is {latch.count.toNat}, a new count can only be set once it reaches zero")
  else if count = 0 then .ok latch
  else .ok { latch with count, round := latch.round + 1, owner := none }

/-- Waits for the end of the round. A call that is already parked stays parked once. -/
def await (latch : Latch) (invocation : Invocation) (timeout : Option Millis) (now : Millis) :
    Step Latch Applied :=
  let stay (answer : Applied) : Step Latch Applied := { answer, state := latch }
  if latch.count = 0 then stay (.ok (.bool true))
  else if timeout = some 0 then stay (.ok (.bool false))
  else match invocation.uid with
    | none => stay (.failed .missingUid)
    | some uid =>
      if latch.waiters.any (fun waiter => waiter.uid = uid) then stay .waiting
      else
        let waiter : AwaitWaiter :=
          { uid, session := invocation.session, deadline := deadline now timeout }
        { answer := .waiting, state := { latch with waiters := latch.waiters ++ [waiter] } }

/-- Drops the ownership of a closed session and fails the round's awaiters. -/
def releaseOwner (latch : Latch) (name : String) (session : SessionId) :
    Latch × List Notification :=
  if latch.owner = some session then
    ({ latch with owner := none, waiters := [] },
      latch.waiters.map fun waiter => waiter.answer (.error (.ownerDisconnected name session)))
  else (latch, [])

/-- Tells a parked call that its time is up. -/
def expireWaiter (latch : Latch) (uid : InvocationUid) : Latch × List Notification :=
  match latch.waiters.find? (fun waiter => waiter.uid = uid) with
  | none => (latch, [])
  | some waiter =>
    ({ latch with waiters := latch.waiters.eraseP (fun waiter => waiter.uid = uid) },
      [waiter.answer (.ok (.bool false))])

end Latch

/-- The latches of a replica, by name. -/
structure Latches where
  byName : SortedMap String Latch := ∅
  deriving DecidableEq, Inhabited

namespace Latches

def get? (latches : Latches) (name : String) : Option Latch := latches.byName.get? name

/-- The named latch, open if it does not exist. -/
def latch (latches : Latches) (name : String) : Latch := latches.byName.getD name {}

def put (latches : Latches) (name : String) (latch : Latch) : Latches :=
  ⟨latches.byName.insert name latch⟩

/-- A count of rounds as an answer; beyond the range of answers it wraps around. -/
def roundAnswer (round : UInt64) : Value := .count round.toInt64

/-- Reads without creating; a missing latch is open and had no round. -/
def query (latches : Latches) (name : String) : LatchOp → Reply
  | .getCount => .ok (.count ((latches.latch name).count.toNat : Int).toInt64)
  | .getRound => .ok (roundAnswer (latches.latch name).round)
  | _ => .error (.invalidArgument "not a read-only latch operation")

/-- Applies an operation to the named latch, which is created unless it is only read. -/
def apply (latches : Latches) (name : String) (op : LatchOp) (invocation : Invocation)
    (now : Millis) : Step Latches Applied :=
  match op with
  | .countDown =>
    let { answer, state, notes } := (latches.latch name).countDown invocation.session
    { answer := .ok (.count (answer.toNat : Int).toInt64), state := latches.put name state, notes }
  | .trySetCount count =>
    match (latches.latch name).trySetCount count with
    | .ok state => { answer := .ok (.bool true), state := latches.put name state }
    | .error failure => { answer := .failed failure, state := latches.put name (latches.latch name) }
  | .await timeout =>
    let { answer, state, notes } := (latches.latch name).await invocation timeout now
    { answer, state := latches.put name state, notes }
  | .getCount | .getRound => { answer := .done (latches.query name op), state := latches }

/-- Removes a latch and fails the calls parked on it. -/
def destroy (latches : Latches) (name : String) : Step Latches Bool :=
  match latches.get? name with
  | none => { answer := false, state := latches }
  | some latch =>
    { answer := true
      state := ⟨latches.byName.erase name⟩
      notes := latch.waiters.map fun waiter => waiter.answer (.error (.objectDestroyed name)) }

/-- Lets every latch take one step, in the order of names. -/
def stepAll (latches : Latches) (f : String → Latch → Latch × List Notification) :
    Latches × List Notification :=
  (⟨latches.byName.mapValues fun name latch => (f name latch).1⟩,
    latches.byName.entries.flatMap fun entry => (f entry.1 entry.2).2)

def closeSession (latches : Latches) (session : SessionId) : Latches × List Notification :=
  latches.stepAll fun name latch => latch.releaseOwner name session

def expireWaitKey (latches : Latches) (uid : InvocationUid) : Latches × List Notification :=
  latches.stepAll fun _ latch => latch.expireWaiter uid

/-- Parked calls whose deadline has come. -/
def expiredWaitKeys (latches : Latches) (now : Millis) : List InvocationUid :=
  ((latches.byName.values.flatMap Latch.waiters).filter fun waiter =>
    waiter.deadline.any (· ≤ now)).map AwaitWaiter.uid

end Latches

end Quorum
