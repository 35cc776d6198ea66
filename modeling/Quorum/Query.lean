import Quorum.Operation
import Quorum.Failure

namespace Quorum

/-- How a query may be answered. A linearizable query observes every operation that was committed
    before it started, and only a leader can serve it; a local one reads whatever the asked member
    has applied. -/
inductive QueryPolicy where
  | linearizable
  | local
  deriving DecidableEq, Inhabited

def QueryPolicy.toText : QueryPolicy → String
  | .linearizable => "linearizable"
  | .local => "local"

/-- Whether a member may take a query at all. -/
def QueryPolicy.admit (policy : QueryPolicy) (operation : Operation) (isLeader : Bool)
    (leader : Option MemberId) : Except Failure Unit :=
  if !operation.isReadOnly then
    .error (.invalidArgument (operation.kind ++ " cannot be served as a query"))
  else if policy = .linearizable ∧ !isLeader then .error (.notLeading leader)
  else .ok ()

end Quorum
