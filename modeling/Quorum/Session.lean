import Quorum.Failure
import Quorum.Time

namespace Quorum

/-- A lease between a client endpoint and a group. Every heartbeat raises its version, so that a
    proposal to close it can tell whether it was renewed since. -/
structure Session where
  id : SessionId
  endpoint : String
  createdAt : Millis
  lastHeartbeat : Millis
  version : UInt64
  deriving DecidableEq

namespace Session

/-- The end of the lease when it was last renewed at the given instant or at its last heartbeat. -/
def leaseEnd (session : Session) (ttl renewed : Millis) : Millis :=
  Millis.later (max session.lastHeartbeat renewed) ttl

def expiresAt (session : Session) (ttl : Millis) : Millis :=
  session.lastHeartbeat.later ttl

/-- What a proposal to close the session names. -/
def observed (session : Session) : SessionId × UInt64 := (session.id, session.version)

end Session

/-- Opens, renews and closes sessions, and tells which leases have run out. -/
structure SessionRegistry where
  sessions : SortedMap SessionId Session := ∅
  nextSession : SessionId := 1
  nextThread : ThreadId := 1
  ttl : Millis
  deriving DecidableEq

namespace SessionRegistry

/-- The empty registry, whose leases last for the given span. -/
def new (ttl : Millis) : SessionRegistry := { ttl }

def get? (registry : SessionRegistry) (id : SessionId) : Option Session :=
  registry.sessions.get? id

def isActive (registry : SessionRegistry) (id : SessionId) : Bool :=
  (registry.get? id).isSome

def size (registry : SessionRegistry) : Nat := registry.sessions.size

/-- Opens a session under the next id. An open session of that id is returned as it is. -/
def create (registry : SessionRegistry) (endpoint : String) (now : Millis) :
    Session × SessionRegistry :=
  let id := registry.nextSession
  let session := registry.sessions.getD id
    { id, endpoint, createdAt := now, lastHeartbeat := now, version := 0 }
  (session, { registry with
    sessions := registry.sessions.insert id session
    nextSession := id + 1 })

/-- Renews a lease. The recorded instant never goes back. -/
def heartbeat (registry : SessionRegistry) (id : SessionId) (now : Millis) :
    Except Failure SessionRegistry :=
  match registry.get? id with
  | none => .error (.sessionExpired id)
  | some session =>
    let renewed := { session with
      lastHeartbeat := max session.lastHeartbeat now
      version := session.version + 1 }
    .ok { registry with sessions := registry.sessions.insert id renewed }

/-- Closes a session; none if it was not open. -/
def close (registry : SessionRegistry) (id : SessionId) : Option (Session × SessionRegistry) :=
  (registry.get? id).map fun session =>
    (session, { registry with sessions := registry.sessions.erase id })

/-- Closes a session only if nobody renewed it since its version was read. -/
def closeIfVersion (registry : SessionRegistry) (id : SessionId) (version : UInt64) :
    Option (Session × SessionRegistry) :=
  match registry.get? id with
  | some session => if session.version = version then registry.close id else none
  | none => none

/-- Sessions whose lease has run out. A lease counts as renewed at `renewed`: a new leader gives
    its own start, so that heartbeats lost during the change are forgiven. -/
def expired (registry : SessionRegistry) (now renewed : Millis) : List (SessionId × UInt64) :=
  (registry.sessions.values.filter fun session =>
    decide (session.leaseEnd registry.ttl renewed ≤ now)).map Session.observed

def ownedBy (registry : SessionRegistry) (endpoint : String) : List (SessionId × UInt64) :=
  (registry.sessions.values.filter fun session => session.endpoint = endpoint).map Session.observed

def generateThread (registry : SessionRegistry) : ThreadId × SessionRegistry :=
  (registry.nextThread, { registry with nextThread := registry.nextThread + 1 })

end SessionRegistry

end Quorum
