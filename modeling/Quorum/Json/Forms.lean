import Quorum.Config
import Quorum.Json.Form
import Quorum.Outcome
import Quorum.Query

namespace Quorum

open Json

namespace InvocationUid

def toJson (uid : InvocationUid) : Json := Json.ofNat uid.toNat

def ofJson? (json : Json) : Option InvocationUid := (json.nat? (Nat.pow 2 128)).map ofNat

end InvocationUid

namespace Invocation

def toJson (invocation : Invocation) : Json := record [
  ("session_id", ofOption ofUInt64 invocation.session),
  ("thread_id", ofOption ofUInt64 invocation.thread),
  ("invocation_uid", ofOption InvocationUid.toJson invocation.uid)]

def ofJson? (json : Json) : Option Invocation := do
  let [session, thread, uid] ← json.fields? ["session_id", "thread_id", "invocation_uid"] | none
  return {
    session := ← optional uint64? session
    thread := ← optional uint64? thread
    uid := ← optional InvocationUid.ofJson? uid }

end Invocation

namespace GroupId

def toJson (group : GroupId) : Json :=
  record [("name", ofString group.name), ("seed", ofUInt64 group.seed)]

def ofJson? (json : Json) : Option GroupId := do
  let [name, seed] ← json.fields? ["name", "seed"] | none
  return { name := ← required string? name, seed := ← required uint64? seed }

end GroupId

def Blob.toJson (content : Blob) : Json := ofList (fun byte => ofNat byte.toNat) content

def Blob.ofJson? (json : Json) : Option Blob := list? uint8? json

namespace SessionGrant

def toJson (grant : SessionGrant) : Json :=
  record [("session_id", ofUInt64 grant.session), ("ttl_ms", ofUInt64 grant.ttl)]

def ofJson? (json : Json) : Option SessionGrant := do
  let [session, ttl] ← json.fields? ["session_id", "ttl_ms"] | none
  return { session := ← required uint64? session, ttl := ← required uint64? ttl }

end SessionGrant

namespace Value

def toJson : Value → Json
  | .unit => ofString "Unit"
  | .bool flag => tagged "Bool" (.bool flag)
  | .count n => tagged "Count" (ofInt n.toInt)
  | .blob content => tagged "Value" (ofOption Blob.toJson content)
  | .session grant => tagged "Session" grant.toJson
  | .thread id => tagged "ThreadId" (ofUInt64 id)

def ofJson? (json : Json) : Option Value := do
  let (name, content) ← json.alternative?
  match name with
  | "Unit" => bare .unit content
  | "Bool" => return .bool (← required bool? content)
  | "Count" => return .count (← required int64? content)
  | "Value" => return .blob (← required (option? Blob.ofJson?) content)
  | "Session" => return .session (← required SessionGrant.ofJson? content)
  | "ThreadId" => return .thread (← required uint64? content)
  | _ => none

end Value

namespace ObjectKind

def toJson : ObjectKind → Json
  | .atomicRef => ofString "AtomicRef"
  | .semaphore => ofString "Semaphore"
  | .latch => ofString "Latch"

def ofJson? (json : Json) : Option ObjectKind := do
  let (name, content) ← json.alternative?
  match name with
  | "AtomicRef" => bare .atomicRef content
  | "Semaphore" => bare .semaphore content
  | "Latch" => bare .latch content
  | _ => none

end ObjectKind

/-- The content of an alternative that is a record with one field. -/
def Json.single? (name : String) (content : Option Json) : Option (Option Json) := do
  let [field] ← (← content).fields? [name] | none
  return field

namespace SessionOp

def toJson : SessionOp → Json
  | .create endpoint => tagged "Create" (record [("endpoint", ofString endpoint)])
  | .heartbeat session => tagged "Heartbeat" (record [("session_id", ofUInt64 session)])
  | .close session => tagged "Close" (record [("session_id", ofUInt64 session)])
  | .generateThreadId => ofString "GenerateThreadId"

def ofJson? (json : Json) : Option SessionOp := do
  let (name, content) ← json.alternative?
  match name with
  | "Create" => return .create (← required string? (← single? "endpoint" content))
  | "Heartbeat" => return .heartbeat (← required uint64? (← single? "session_id" content))
  | "Close" => return .close (← required uint64? (← single? "session_id" content))
  | "GenerateThreadId" => bare .generateThreadId content
  | _ => none

end SessionOp

namespace AtomicRefOp

def toJson : AtomicRefOp → Json
  | .get => ofString "Get"
  | .set value => tagged "Set" (record [("value", ofOption Blob.toJson value)])
  | .getAndSet value => tagged "GetAndSet" (record [("value", ofOption Blob.toJson value)])
  | .compareAndSet expected new =>
    tagged "CompareAndSet" (record [
      ("expected", ofOption Blob.toJson expected), ("new", ofOption Blob.toJson new)])
  | .contains value => tagged "Contains" (record [("value", ofOption Blob.toJson value)])

def ofJson? (json : Json) : Option AtomicRefOp := do
  let (name, content) ← json.alternative?
  match name with
  | "Get" => bare .get content
  | "Set" => return .set (← optional Blob.ofJson? (← single? "value" content))
  | "GetAndSet" => return .getAndSet (← optional Blob.ofJson? (← single? "value" content))
  | "CompareAndSet" =>
    let [expected, new] ← (← content).fields? ["expected", "new"] | none
    return .compareAndSet (← optional Blob.ofJson? expected) (← optional Blob.ofJson? new)
  | "Contains" => return .contains (← optional Blob.ofJson? (← single? "value" content))
  | _ => none

end AtomicRefOp

namespace SemaphoreOp

def toJson : SemaphoreOp → Json
  | .init permits => tagged "Init" (record [("permits", ofNat permits.toNat)])
  | .acquire permits timeout =>
    tagged "Acquire" (record [
      ("permits", ofNat permits.toNat), ("timeout_ms", ofOption ofUInt64 timeout)])
  | .release permits => tagged "Release" (record [("permits", ofNat permits.toNat)])
  | .drain => ofString "Drain"
  | .increase permits => tagged "Increase" (record [("permits", ofNat permits.toNat)])
  | .reduce permits => tagged "Reduce" (record [("permits", ofNat permits.toNat)])
  | .availablePermits => ofString "AvailablePermits"

def ofJson? (json : Json) : Option SemaphoreOp := do
  let (name, content) ← json.alternative?
  match name with
  | "Init" => return .init (← required uint32? (← single? "permits" content))
  | "Acquire" =>
    let [permits, timeout] ← (← content).fields? ["permits", "timeout_ms"] | none
    return .acquire (← required uint32? permits) (← optional uint64? timeout)
  | "Release" => return .release (← required uint32? (← single? "permits" content))
  | "Drain" => bare .drain content
  | "Increase" => return .increase (← required uint32? (← single? "permits" content))
  | "Reduce" => return .reduce (← required uint32? (← single? "permits" content))
  | "AvailablePermits" => bare .availablePermits content
  | _ => none

end SemaphoreOp

namespace LatchOp

def toJson : LatchOp → Json
  | .countDown => ofString "CountDown"
  | .trySetCount count => tagged "TrySetCount" (record [("count", ofNat count.toNat)])
  | .await timeout => tagged "Await" (record [("timeout_ms", ofOption ofUInt64 timeout)])
  | .getCount => ofString "GetCount"
  | .getRound => ofString "GetRound"

def ofJson? (json : Json) : Option LatchOp := do
  let (name, content) ← json.alternative?
  match name with
  | "CountDown" => bare .countDown content
  | "TrySetCount" => return .trySetCount (← required uint32? (← single? "count" content))
  | "Await" => return .await (← optional uint64? (← single? "timeout_ms" content))
  | "GetCount" => bare .getCount content
  | "GetRound" => bare .getRound content
  | _ => none

end LatchOp

namespace Operation

def toJson : Operation → Json
  | .session op => tagged "Session" op.toJson
  | .atomicRef name op => tagged "AtomicRef" (record [("name", ofString name), ("op", op.toJson)])
  | .semaphore name op => tagged "Semaphore" (record [("name", ofString name), ("op", op.toJson)])
  | .latch name op => tagged "Latch" (record [("name", ofString name), ("op", op.toJson)])
  | .destroy kind name =>
    tagged "Destroy" (record [("kind", kind.toJson), ("name", ofString name)])
  | .expireSessions sessions =>
    tagged "ExpireSessions" (record [("sessions",
      ofList (fun pair => .array [ofUInt64 pair.1, ofUInt64 pair.2]) sessions)])
  | .expireWaitKeys keys =>
    tagged "ExpireWaitKeys" (record [("keys", ofList InvocationUid.toJson keys)])

/-- Reads the name of an object and the operation on it. -/
def onObject? {α : Type} (read? : Json → Option α) (content : Option Json) :
    Option (String × α) := do
  let [name, op] ← (← content).fields? ["name", "op"] | none
  return (← required string? name, ← required read? op)

def ofJson? (json : Json) : Option Operation := do
  let (name, content) ← json.alternative?
  match name with
  | "Session" => return .session (← required SessionOp.ofJson? content)
  | "AtomicRef" =>
    let (name, op) ← onObject? AtomicRefOp.ofJson? content
    return .atomicRef name op
  | "Semaphore" =>
    let (name, op) ← onObject? SemaphoreOp.ofJson? content
    return .semaphore name op
  | "Latch" =>
    let (name, op) ← onObject? LatchOp.ofJson? content
    return .latch name op
  | "Destroy" =>
    let [kind, name] ← (← content).fields? ["kind", "name"] | none
    return .destroy (← required ObjectKind.ofJson? kind) (← required string? name)
  | "ExpireSessions" =>
    let sessions ← single? "sessions" content
    return .expireSessions (← required (list? (pair? uint64? uint64?)) sessions)
  | "ExpireWaitKeys" =>
    let keys ← single? "keys" content
    return .expireWaitKeys (← required (list? InvocationUid.ofJson?) keys)
  | _ => none

end Operation

/-- A call to a group, as clients send it. -/
structure Request where
  group : GroupId
  invocation : Invocation
  operation : Operation
  deriving DecidableEq

namespace Request

def toJson (request : Request) : Json := record [
  ("group_id", request.group.toJson),
  ("invocation", request.invocation.toJson),
  ("operation", request.operation.toJson)]

def ofJson? (json : Json) : Option Request := do
  let [group, invocation, operation] ← json.fields? ["group_id", "invocation", "operation"] | none
  return {
    group := ← required GroupId.ofJson? group
    invocation := ← required Invocation.ofJson? invocation
    operation := ← required Operation.ofJson? operation }

end Request

namespace Command

def toJson (command : Command) : Json := record [
  ("invocation", command.invocation.toJson),
  ("operation", command.operation.toJson),
  ("timestamp_ms", ofUInt64 command.timestamp)]

def ofJson? (json : Json) : Option Command := do
  let [invocation, operation, timestamp] ←
    json.fields? ["invocation", "operation", "timestamp_ms"] | none
  return {
    invocation := ← required Invocation.ofJson? invocation
    operation := ← required Operation.ofJson? operation
    timestamp := ← required uint64? timestamp }

end Command

namespace Status

def toJson : Status → Json
  | .ok => ofString "OK"
  | .notLeader => ofString "NOT_LEADER"
  | .sessionExpired => ofString "SESSION_EXPIRED"
  | .indeterminate => ofString "INDETERMINATE"
  | .error => ofString "ERROR"

def ofJson? (json : Json) : Option Status := do
  let (name, content) ← json.alternative?
  match name with
  | "OK" => bare .ok content
  | "NOT_LEADER" => bare .notLeader content
  | "SESSION_EXPIRED" => bare .sessionExpired content
  | "INDETERMINATE" => bare .indeterminate content
  | "ERROR" => bare .error content
  | _ => none

end Status

namespace Response

def toJson (response : Response) : Json := record [
  ("status", response.status.toJson),
  ("value", ofOption Value.toJson response.value),
  ("leader_hint", ofOption ofUInt64 response.leaderHint),
  ("message", ofOption ofString response.message)]

def ofJson? (json : Json) : Option Response := do
  let [status, value, leaderHint, message] ←
    json.fields? ["status", "value", "leader_hint", "message"] | none
  return {
    status := ← required Status.ofJson? status
    value := ← optional Value.ofJson? value
    leaderHint := ← optional uint64? leaderHint
    message := ← optional string? message }

end Response

namespace QueryPolicy

def toJson (policy : QueryPolicy) : Json := ofString policy.toText

def ofJson? (json : Json) : Option QueryPolicy := do
  let (name, content) ← json.alternative?
  match name with
  | "linearizable" => bare .linearizable content
  | "local" => bare .local content
  | _ => none

end QueryPolicy

namespace Config

def toJson (config : Config) : Json := record [
  ("tick_interval_ms", ofUInt64 config.tickInterval),
  ("election_tick", ofUInt64 config.electionTicks),
  ("heartbeat_tick", ofUInt64 config.heartbeatTicks),
  ("max_inflight_msgs", ofUInt64 config.maxInflight),
  ("session_ttl_ms", ofUInt64 config.sessionTtl),
  ("expiry_check_interval_ms", ofUInt64 config.expiryInterval),
  ("submit_timeout_ms", ofUInt64 config.submitTimeout),
  ("dedup_capacity_per_session", ofUInt64 config.dedupCapacity),
  ("allow_negative_permits", .bool config.overdraft)]

/-- Reads settings; those that are not given keep their defaults. -/
def ofJson? (json : Json) : Option Config := do
  let [tickInterval, electionTicks, heartbeatTicks, maxInflight, sessionTtl, expiryInterval,
      submitTimeout, dedupCapacity, overdraft] ← json.fieldsWithDefaults? [
    "tick_interval_ms", "election_tick", "heartbeat_tick", "max_inflight_msgs", "session_ttl_ms",
    "expiry_check_interval_ms", "submit_timeout_ms", "dedup_capacity_per_session",
    "allow_negative_permits"] | none
  let defaults : Config := {}
  return {
    tickInterval := ← withDefault uint64? defaults.tickInterval tickInterval
    electionTicks := ← withDefault uint64? defaults.electionTicks electionTicks
    heartbeatTicks := ← withDefault uint64? defaults.heartbeatTicks heartbeatTicks
    maxInflight := ← withDefault uint64? defaults.maxInflight maxInflight
    sessionTtl := ← withDefault uint64? defaults.sessionTtl sessionTtl
    expiryInterval := ← withDefault uint64? defaults.expiryInterval expiryInterval
    submitTimeout := ← withDefault uint64? defaults.submitTimeout submitTimeout
    dedupCapacity := ← withDefault uint64? defaults.dedupCapacity dedupCapacity
    overdraft := ← withDefault bool? defaults.overdraft overdraft }

end Config

namespace Session

def toJson (session : Session) : Json := record [
  ("id", ofUInt64 session.id),
  ("endpoint", ofString session.endpoint),
  ("created_at_ms", ofUInt64 session.createdAt),
  ("last_heartbeat_ms", ofUInt64 session.lastHeartbeat),
  ("version", ofUInt64 session.version)]

def ofJson? (json : Json) : Option Session := do
  let [id, endpoint, createdAt, lastHeartbeat, version] ←
    json.fields? ["id", "endpoint", "created_at_ms", "last_heartbeat_ms", "version"] | none
  return {
    id := ← required uint64? id
    endpoint := ← required string? endpoint
    createdAt := ← required uint64? createdAt
    lastHeartbeat := ← required uint64? lastHeartbeat
    version := ← required uint64? version }

end Session

namespace SessionRegistry

def toJson (registry : SessionRegistry) : Json := record [
  ("sessions", ofNumberMap Session.toJson registry.sessions),
  ("next_session_id", ofUInt64 registry.nextSession),
  ("next_thread_id", ofUInt64 registry.nextThread),
  ("ttl_ms", ofUInt64 registry.ttl)]

def ofJson? (json : Json) : Option SessionRegistry := do
  let [sessions, nextSession, nextThread, ttl] ←
    json.fields? ["sessions", "next_session_id", "next_thread_id", "ttl_ms"] | none
  return {
    sessions := ← required (numberMap? Session.ofJson?) sessions
    nextSession := ← required uint64? nextSession
    nextThread := ← required uint64? nextThread
    ttl := ← required uint64? ttl }

end SessionRegistry

namespace AwaitWaiter

def toJson (waiter : AwaitWaiter) : Json := record [
  ("uid", waiter.uid.toJson),
  ("session_id", ofOption ofUInt64 waiter.session),
  ("deadline_ms", ofOption ofUInt64 waiter.deadline)]

def ofJson? (json : Json) : Option AwaitWaiter := do
  let [uid, session, deadline] ← json.fields? ["uid", "session_id", "deadline_ms"] | none
  return {
    uid := ← required InvocationUid.ofJson? uid
    session := ← optional uint64? session
    deadline := ← optional uint64? deadline }

end AwaitWaiter

namespace Latch

def toJson (latch : Latch) : Json := record [
  ("count", ofNat latch.count.toNat),
  ("round", ofUInt64 latch.round),
  ("owner", ofOption ofUInt64 latch.owner),
  ("waiters", ofList AwaitWaiter.toJson latch.waiters)]

def ofJson? (json : Json) : Option Latch := do
  let [count, round, owner, waiters] ← json.fields? ["count", "round", "owner", "waiters"] | none
  return {
    count := ← required uint32? count
    round := ← required uint64? round
    owner := ← optional uint64? owner
    waiters := ← required (list? AwaitWaiter.ofJson?) waiters }

end Latch

namespace Latches

def toJson (latches : Latches) : Json :=
  record [("latches", record [("objects", ofMap Latch.toJson latches.byName)])]

def ofJson? (json : Json) : Option Latches := do
  let objects ← required (fun inner => some inner) (← single? "latches" (some json))
  return ⟨← required (map? Latch.ofJson?) (← single? "objects" (some objects))⟩

end Latches

namespace AtomicRef

def toJson (slot : AtomicRef) : Json := record [("value", ofOption Blob.toJson slot.value)]

def ofJson? (json : Json) : Option AtomicRef := do
  return ⟨← optional Blob.ofJson? (← single? "value" (some json))⟩

end AtomicRef

namespace AtomicRefs

def toJson (refs : AtomicRefs) : Json :=
  record [("refs", record [("objects", ofMap AtomicRef.toJson refs.slots)])]

def ofJson? (json : Json) : Option AtomicRefs := do
  let objects ← required (fun inner => some inner) (← single? "refs" (some json))
  return ⟨← required (map? AtomicRef.ofJson?) (← single? "objects" (some objects))⟩

end AtomicRefs

end Quorum
