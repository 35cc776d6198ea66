import Quorum.Invocation
import Quorum.Value

namespace Quorum

/-- Kinds of replicated objects. -/
inductive ObjectKind where
  | atomicRef
  | semaphore
  | latch
  deriving DecidableEq

def ObjectKind.toText : ObjectKind → String
  | .atomicRef => "atomic-ref"
  | .semaphore => "semaphore"
  | .latch => "latch"

inductive SessionOp where
  | create (endpoint : String)
  | heartbeat (session : SessionId)
  | close (session : SessionId)
  | generateThreadId
  deriving DecidableEq

inductive AtomicRefOp where
  | get
  | set (value : Option Blob)
  | getAndSet (value : Option Blob)
  | compareAndSet (expected new : Option Blob)
  | contains (value : Option Blob)
  deriving DecidableEq

/-- Semaphore operations. An acquire without a timeout waits until granted, one with timeout zero
    never waits. -/
inductive SemaphoreOp where
  | init (permits : UInt32)
  | acquire (permits : UInt32) (timeout : Option Millis)
  | release (permits : UInt32)
  | drain
  | increase (permits : UInt32)
  | reduce (permits : UInt32)
  | availablePermits
  deriving DecidableEq

inductive LatchOp where
  | countDown
  | trySetCount (count : UInt32)
  | await (timeout : Option Millis)
  | getCount
  | getRound
  deriving DecidableEq

/-- Everything that a replica can apply. -/
inductive Operation where
  | session (op : SessionOp)
  | atomicRef (name : String) (op : AtomicRefOp)
  | semaphore (name : String) (op : SemaphoreOp)
  | latch (name : String) (op : LatchOp)
  | destroy (kind : ObjectKind) (name : String)
  /-- Proposed by the leader: sessions seen as expired, with the version that was seen. -/
  | expireSessions (sessions : List (SessionId × UInt64))
  /-- Proposed by the leader: parked calls whose deadline has passed. -/
  | expireWaitKeys (keys : List InvocationUid)
  deriving DecidableEq

def AtomicRefOp.isReadOnly : AtomicRefOp → Bool
  | .get | .contains _ => true
  | _ => false

def SemaphoreOp.isReadOnly : SemaphoreOp → Bool
  | .availablePermits => true
  | _ => false

def LatchOp.isReadOnly : LatchOp → Bool
  | .getCount | .getRound => true
  | _ => false

/-- The kind under which a parked or repeated acquire is known. -/
def SemaphoreOp.acquireKind : String := "semaphore.acquire"

/-- The kind under which a parked or repeated await is known. -/
def LatchOp.awaitKind : String := "latch.await"

def SessionOp.kind : SessionOp → String
  | .create _ => "session.create"
  | .heartbeat _ => "session.heartbeat"
  | .close _ => "session.close"
  | .generateThreadId => "session.generate-thread-id"

def AtomicRefOp.kind : AtomicRefOp → String
  | .get => "atomic-ref.get"
  | .set _ => "atomic-ref.set"
  | .getAndSet _ => "atomic-ref.get-and-set"
  | .compareAndSet _ _ => "atomic-ref.compare-and-set"
  | .contains _ => "atomic-ref.contains"

def SemaphoreOp.kind : SemaphoreOp → String
  | .init _ => "semaphore.init"
  | .acquire _ _ => acquireKind
  | .release _ => "semaphore.release"
  | .drain => "semaphore.drain"
  | .increase _ => "semaphore.increase"
  | .reduce _ => "semaphore.reduce"
  | .availablePermits => "semaphore.available-permits"

def LatchOp.kind : LatchOp → String
  | .countDown => "latch.count-down"
  | .trySetCount _ => "latch.try-set-count"
  | .await _ => awaitKind
  | .getCount => "latch.get-count"
  | .getRound => "latch.get-round"

namespace Operation

/-- Whether the operation leaves every replica unchanged. -/
def isReadOnly : Operation → Bool
  | .atomicRef _ op => op.isReadOnly
  | .semaphore _ op => op.isReadOnly
  | .latch _ op => op.isReadOnly
  | _ => false

/-- The stable name of the operation's kind. -/
def kind : Operation → String
  | .session op => op.kind
  | .atomicRef _ op => op.kind
  | .semaphore _ op => op.kind
  | .latch _ op => op.kind
  | .destroy _ _ => "destroy"
  | .expireSessions _ => "expire-sessions"
  | .expireWaitKeys _ => "expire-wait-keys"

/-- The object that the operation names. -/
def object? : Operation → Option (ObjectKind × String)
  | .atomicRef name _ => some (.atomicRef, name)
  | .semaphore name _ => some (.semaphore, name)
  | .latch name _ => some (.latch, name)
  | .destroy kind name => some (kind, name)
  | .session _ | .expireSessions _ | .expireWaitKeys _ => none

/-- Whether only a group's own leader may propose the operation. -/
def isLeaderOnly : Operation → Bool
  | .expireSessions _ | .expireWaitKeys _ => true
  | _ => false

end Operation

/-- What is written into a log entry: the call, and the proposer's clock when it was proposed. -/
structure Command where
  invocation : Invocation := {}
  operation : Operation
  timestamp : Millis := 0
  deriving DecidableEq

end Quorum
