import Quorum.Invocation
import Quorum.Time

namespace Quorum

/-- An opaque stored value, as bytes. -/
abbrev Blob := List UInt8

/-- The lease handed to a new session. -/
structure SessionGrant where
  session : SessionId
  ttl : Millis
  deriving DecidableEq

/-- Result value of an applied operation. -/
inductive Value where
  | unit
  | bool (flag : Bool)
  | count (number : Int64)
  | blob (content : Option Blob)
  | session (grant : SessionGrant)
  | thread (id : ThreadId)
  deriving DecidableEq

namespace Value

def asBool? : Value → Option Bool
  | .bool flag => some flag
  | _ => none

def asCount? : Value → Option Int64
  | .count number => some number
  | _ => none

end Value

end Quorum
