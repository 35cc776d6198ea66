import Quorum.Binary.Reader
import Quorum.Operation

namespace Quorum

open Binary

namespace InvocationUid

def write (uid : InvocationUid) : List UInt8 := writeNat 16 uid.toNat

def read : Reader InvocationUid := do return ofNat (← readNat 16)

end InvocationUid

namespace Invocation

def write (invocation : Invocation) : List UInt8 :=
  writeOption writeUInt64 invocation.session ++ writeOption writeUInt64 invocation.thread ++
    writeOption InvocationUid.write invocation.uid

def read : Reader Invocation := do
  let session ← readOption readUInt64
  let thread ← readOption readUInt64
  let uid ← readOption InvocationUid.read
  return { session, thread, uid }

end Invocation

namespace ObjectKind

def write : ObjectKind → List UInt8
  | .atomicRef => writeVariant 0
  | .semaphore => writeVariant 1
  | .latch => writeVariant 2

def read : Reader ObjectKind := do
  match ← readVariant 3 with
  | 0 => return .atomicRef
  | 1 => return .semaphore
  | 2 => return .latch

end ObjectKind

namespace SessionOp

def write : SessionOp → List UInt8
  | .create endpoint => writeVariant 0 ++ writeString endpoint
  | .heartbeat session => writeVariant 1 ++ writeUInt64 session
  | .close session => writeVariant 2 ++ writeUInt64 session
  | .generateThreadId => writeVariant 3

def read : Reader SessionOp := do
  match ← readVariant 4 with
  | 0 => return .create (← readString)
  | 1 => return .heartbeat (← readUInt64)
  | 2 => return .close (← readUInt64)
  | 3 => return .generateThreadId

end SessionOp

def Blob.write (content : Blob) : List UInt8 := writeList (fun byte => [byte]) content

def Blob.read : Reader Blob := readList readByte

namespace AtomicRefOp

def write : AtomicRefOp → List UInt8
  | .get => writeVariant 0
  | .set value => writeVariant 1 ++ writeOption Blob.write value
  | .getAndSet value => writeVariant 2 ++ writeOption Blob.write value
  | .compareAndSet expected new =>
    writeVariant 3 ++ writeOption Blob.write expected ++ writeOption Blob.write new
  | .contains value => writeVariant 4 ++ writeOption Blob.write value

def read : Reader AtomicRefOp := do
  match ← readVariant 5 with
  | 0 => return .get
  | 1 => return .set (← readOption Blob.read)
  | 2 => return .getAndSet (← readOption Blob.read)
  | 3 =>
    let expected ← readOption Blob.read
    return .compareAndSet expected (← readOption Blob.read)
  | 4 => return .contains (← readOption Blob.read)

end AtomicRefOp

namespace SemaphoreOp

def write : SemaphoreOp → List UInt8
  | .init permits => writeVariant 0 ++ writeUInt32 permits
  | .acquire permits timeout =>
    writeVariant 1 ++ writeUInt32 permits ++ writeOption writeUInt64 timeout
  | .release permits => writeVariant 2 ++ writeUInt32 permits
  | .drain => writeVariant 3
  | .increase permits => writeVariant 4 ++ writeUInt32 permits
  | .reduce permits => writeVariant 5 ++ writeUInt32 permits
  | .availablePermits => writeVariant 6

def read : Reader SemaphoreOp := do
  match ← readVariant 7 with
  | 0 => return .init (← readUInt32)
  | 1 =>
    let permits ← readUInt32
    return .acquire permits (← readOption readUInt64)
  | 2 => return .release (← readUInt32)
  | 3 => return .drain
  | 4 => return .increase (← readUInt32)
  | 5 => return .reduce (← readUInt32)
  | 6 => return .availablePermits

end SemaphoreOp

namespace LatchOp

def write : LatchOp → List UInt8
  | .countDown => writeVariant 0
  | .trySetCount count => writeVariant 1 ++ writeUInt32 count
  | .await timeout => writeVariant 2 ++ writeOption writeUInt64 timeout
  | .getCount => writeVariant 3
  | .getRound => writeVariant 4

def read : Reader LatchOp := do
  match ← readVariant 5 with
  | 0 => return .countDown
  | 1 => return .trySetCount (← readUInt32)
  | 2 => return .await (← readOption readUInt64)
  | 3 => return .getCount
  | 4 => return .getRound

end LatchOp

namespace Operation

def write : Operation → List UInt8
  | .session op => writeVariant 0 ++ op.write
  | .atomicRef name op => writeVariant 1 ++ writeString name ++ op.write
  | .semaphore name op => writeVariant 2 ++ writeString name ++ op.write
  | .latch name op => writeVariant 3 ++ writeString name ++ op.write
  | .destroy kind name => writeVariant 4 ++ kind.write ++ writeString name
  | .expireSessions sessions =>
    writeVariant 5 ++ writeList (fun pair => writeUInt64 pair.1 ++ writeUInt64 pair.2) sessions
  | .expireWaitKeys keys => writeVariant 6 ++ writeList InvocationUid.write keys

def readPair : Reader (SessionId × UInt64) := do
  let session ← readUInt64
  return (session, ← readUInt64)

def read : Reader Operation := do
  match ← readVariant 7 with
  | 0 => return .session (← SessionOp.read)
  | 1 =>
    let name ← readString
    return .atomicRef name (← AtomicRefOp.read)
  | 2 =>
    let name ← readString
    return .semaphore name (← SemaphoreOp.read)
  | 3 =>
    let name ← readString
    return .latch name (← LatchOp.read)
  | 4 =>
    let kind ← ObjectKind.read
    return .destroy kind (← readString)
  | 5 => return .expireSessions (← readList readPair)
  | 6 => return .expireWaitKeys (← readList InvocationUid.read)

end Operation

namespace Command

def encode (command : Command) : List UInt8 :=
  command.invocation.write ++ command.operation.write ++ writeUInt64 command.timestamp

def read : Reader Command := do
  let invocation ← Invocation.read
  let operation ← Operation.read
  let timestamp ← readUInt64
  return { invocation, operation, timestamp }

/-- What failed when bytes in the log are no command. -/
def decodeFailure : String := "decode command payload"

/-- Reads a command from the front of its bytes and ignores what follows. -/
def decode (bytes : List UInt8) : Except DecodeError Command :=
  (read bytes).map (·.1)

end Command

end Quorum
