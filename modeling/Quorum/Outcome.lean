import Quorum.Failure
import Quorum.Value

namespace Quorum

/-- What a submission or a query comes to: committed with a value, definitely failed, or
    indeterminate. -/
inductive Outcome where
  | committed (value : Value)
  | failed (failure : Failure)
  /-- The operation may or may not take effect; `retryable` if making the same call again is
      safe. -/
  | indeterminate (retryable : Bool)
  deriving DecidableEq

namespace Outcome

def ofResult : Except Failure Value → Outcome
  | .ok value => .committed value
  | .error failure => .failed failure

def isCommitted : Outcome → Bool
  | .committed _ => true
  | _ => false

def value? : Outcome → Option Value
  | .committed value => some value
  | _ => none

def indeterminateMessage (retryable : Bool) : String :=
  "indeterminate operation state (retryable: " ++ toString retryable ++ ")"

/-- The value, or the text of what went wrong. -/
def toResult : Outcome → Except String Value
  | .committed value => .ok value
  | .failed failure => .error failure.message
  | .indeterminate retryable => .error (indeterminateMessage retryable)

end Outcome

/-- Status codes handed to clients. -/
inductive Status where
  | ok
  | notLeader
  | sessionExpired
  | indeterminate
  | error
  deriving DecidableEq

/-- The result of a call as clients receive it. -/
structure Response where
  status : Status
  value : Option Value := none
  leaderHint : Option MemberId := none
  message : Option String := none
  deriving DecidableEq

namespace Response

def ofFailure (failure : Failure) : Response :=
  let message := some failure.message
  match failure with
  | .notLeader hint => { status := .notLeader, leaderHint := hint, message }
  | .noLeaderElected => { status := .notLeader, message }
  | .sessionExpired _ => { status := .sessionExpired, message }
  | _ => { status := .error, message }

def ofOutcome : Outcome → Response
  | .committed value => { status := .ok, value := some value }
  | .failed failure => ofFailure failure
  | .indeterminate retryable =>
    { status := .indeterminate, message := some (Outcome.indeterminateMessage retryable) }

end Response

end Quorum
