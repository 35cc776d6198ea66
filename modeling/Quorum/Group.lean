import Quorum.Invocation

namespace Quorum

/-- A member of groups; also its address. -/
abbrev MemberId := UInt64

/-- One independent group. A group that is made again under an old name takes a new seed. -/
structure GroupId where
  name : String
  seed : UInt64
  deriving DecidableEq, Inhabited

namespace GroupId

/-- The group of callers that pick none. -/
def default : GroupId := ⟨"default", 0⟩

def toText (group : GroupId) : String := group.name ++ "#" ++ toString group.seed.toNat

/-- Groups are ordered by name, then by seed. -/
instance : Key GroupId where
  before a b := Key.before (a.name, a.seed) (b.name, b.seed)
  irrefl a := Key.irrefl (a.name, a.seed)
  trans a b c := Key.trans (a.name, a.seed) (b.name, b.seed) (c.name, c.seed)
  connected a b h h' := by
    have heq := Key.connected (a.name, a.seed) (b.name, b.seed) h h'
    cases a
    cases b
    simpa using heq

/-- The order of groups as a non-strict comparison. -/
def le (a b : GroupId) : Bool := !Key.before b a

end GroupId

/-- Why a list of members is no topology. -/
inductive TopologyError where
  | empty
  | repeated
  | even
  deriving DecidableEq

def TopologyError.message : TopologyError → String
  | .empty => "group requires at least one member"
  | .repeated => "group members must be unique"
  | .even => "group must have an odd number of members"

/-- The member set of a group, ascending. -/
structure Topology where
  members : List MemberId
  ascending : members.Pairwise (· < ·)
  odd : members.length % 2 = 1

namespace Topology

/-- Members ascending, repetitions kept. -/
def sorted (members : List MemberId) : List MemberId :=
  members.mergeSort (fun a b => a ≤ b)

/-- A topology of the given members, which must be an odd number of different ones. -/
def ofMembers (members : List MemberId) : Except TopologyError Topology :=
  let ids := sorted members
  if members = [] then .error .empty
  else if hascending : ids.Pairwise (· < ·) then
    if hodd : ids.length % 2 = 1 then .ok ⟨ids, hascending, hodd⟩
    else .error .even
  else .error .repeated

def contains (topology : Topology) (member : MemberId) : Bool := topology.members.contains member

/-- The least number of members of which any two selections meet. -/
def majority (topology : Topology) : Nat := topology.members.length / 2 + 1

end Topology

end Quorum
