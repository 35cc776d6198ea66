import Quorum.Failure
import Quorum.Value

namespace Quorum

/-- The result of a call: a value or a definite failure. -/
abbrev Reply := Except Failure Value

instance : DecidableEq Reply
  | .ok a, .ok b => if h : a = b then isTrue (h ▸ rfl) else isFalse (by simpa using h)
  | .error a, .error b => if h : a = b then isTrue (h ▸ rfl) else isFalse (by simpa using h)
  | .ok _, .error _ => isFalse (by simp)
  | .error _, .ok _ => isFalse (by simp)

/-- What applying an operation gives its caller. -/
inductive Applied where
  | done (result : Reply)
  /-- The caller is parked and will be answered by a notification. -/
  | waiting
  deriving DecidableEq

/-- The answer to a parked call. -/
structure Notification where
  uid : InvocationUid
  session : Option SessionId
  /-- The kind of the parked call. -/
  kind : String
  result : Reply
  deriving DecidableEq

/-- The outcome of one step of an object or a replica: an answer, the new state, and the answers
    to parked calls in the order in which they are given. -/
structure Step (σ α : Type) where
  answer : α
  state : σ
  notes : List Notification := []

namespace Applied

abbrev ok (value : Value) : Applied := .done (.ok value)

abbrev failed (failure : Failure) : Applied := .done (.error failure)

end Applied

/-- A blocking call cannot wait without a token. -/
def Failure.missingUid : Failure :=
  .invalidArgument "blocking call requires an invocation uid"

end Quorum
