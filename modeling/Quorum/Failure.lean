import Quorum.Group

namespace Quorum

/-- The definite failures of a call. -/
inductive Failure where
  | notLeader (hint : Option MemberId)
  | noLeaderElected
  | sessionExpired (session : SessionId)
  | illegalState (message : String)
  | invalidArgument (message : String)
  | groupNotFound (group : String)
  | groupShutdown
  /-- The named object was destroyed while the call waited on it. -/
  | objectDestroyed (name : String)
  /-- The session counting a latch down closed before the latch opened. -/
  | ownerDisconnected (name : String) (session : SessionId)
  | internal (message : String)
  deriving DecidableEq

namespace Failure

/-- The refusal of a member that does not lead its group. -/
def notLeading : Option MemberId → Failure
  | some hint => .notLeader (some hint)
  | none => .noLeaderElected

/-- Whether the same call may be made again, possibly elsewhere. -/
def isRetryable : Failure → Bool
  | .notLeader _ | .noLeaderElected => true
  | _ => false

/-- How a hint at the leader is written. -/
def hintText : Option MemberId → String
  | some member => "Some(" ++ toString member.toNat ++ ")"
  | none => "None"

def message : Failure → String
  | .notLeader hint => "not the leader; hint: " ++ hintText hint
  | .noLeaderElected => "no leader elected"
  | .sessionExpired session => "session " ++ toString session.toNat ++ " expired"
  | .illegalState message => "illegal state transition: " ++ message
  | .invalidArgument message => "invalid argument: " ++ message
  | .groupNotFound group => "consensus group " ++ group ++ " not found"
  | .groupShutdown => "consensus group is shutting down"
  | .objectDestroyed name => name ++ " was destroyed"
  | .ownerDisconnected name session =>
    "countdown owner of " ++ name ++ " (session " ++ toString session.toNat ++ ") disconnected"
  | .internal message => "internal error: " ++ message

end Failure

end Quorum
