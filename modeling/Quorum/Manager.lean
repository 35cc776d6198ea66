import Quorum.Network
import Quorum.Worker

namespace Quorum

open Consensus

/-- A group that a member runs. -/
structure ManagedGroup where
  inbox : InboxId
  topology : Topology

/-- A member's register of its groups. Each group that a member runs has one worker, which is known
    by its inbox: an inbox is opened when the worker starts, and never used again. Ending a group
    takes three steps: it leaves the register, its worker closes its inbox as it stops, and then the
    member closes the inbox that the group has. -/
structure Manager where
  member : MemberId
  config : Config
  groups : SortedMap GroupId ManagedGroup := ∅

/-- Why a cluster refuses a request. -/
inductive ClusterError where
  | config (error : ConfigError)
  | topology (error : TopologyError)
  | groupExists (group : GroupId)
  | groupNotFound (group : GroupId)
  | notInGroup (member : MemberId) (group : GroupId)
  | notStarted (group : GroupId) (error : NodeError)
  | notInCluster (member : MemberId)
  | noMembers
  | noLeader (group : GroupId) (limit : Millis)
  /-- A request cannot be sent to a worker that has stopped. -/
  | stopped (request : String)
  deriving DecidableEq

def ClusterError.message : ClusterError → String
  | .config error => error.message
  | .topology error => error.message
  | .groupExists group => s!"group {group.toText} already exists"
  | .groupNotFound group => (Failure.groupNotFound group.toText).message
  | .notInGroup member group => s!"member {member.toNat} is not part of group {group.toText}"
  | .notStarted group error =>
    s!"failed to start raft node for {group.toText}: {error.message}"
  | .notInCluster member => s!"member {member.toNat} is not part of the cluster"
  | .noMembers => "cluster has no members"
  | .noLeader group limit => s!"no leader elected for {group.toText} within {limit.toText}"
  | .stopped request => s!"failed to send {request}: channel closed"

/-- A worker of a member for a group. A group of one member needs no election. -/
def Worker.start (group : GroupId) (member : MemberId) (topology : Topology) (config : Config)
    (now : Millis) : ExceptT ClusterError Option Worker := do
  if !topology.contains member then throw (.notInGroup member group)
  match ← ((Node.new member topology.members config).run : Option (Except NodeError Node)) with
  | .error error => throw (.notStarted group error)
  | .ok node =>
    let node ← (if topology.members.length = 1 then node.campaign else some node : Option Node)
    return .new group node now

namespace Manager

/-- A member with a valid configuration, and no groups yet. -/
def new (member : MemberId) (config : Config) : Except ConfigError Manager :=
  config.validate.map fun _ => { member, config }

/-- The worker of a group. -/
def find (manager : Manager) (group : GroupId) : Except ClusterError InboxId :=
  match manager.groups.get? group with
  | some managed => .ok managed.inbox
  | none => .error (.groupNotFound group)

/-- Enters a group into the register. -/
def register (manager : Manager) (group : GroupId) (managed : ManagedGroup) : Manager :=
  { manager with groups := manager.groups.insert group managed }

/-- Takes a group out of the register. -/
def remove (manager : Manager) (group : GroupId) : Option (ManagedGroup × Manager) := do
  let managed ← manager.groups.get? group
  return (managed, { manager with groups := manager.groups.erase group })

/-- Starts the member's part of a group among the given members: a worker, and an inbox for it. -/
def create {μ : Type} (manager : Manager) (network : Network μ) (group : GroupId)
    (members : List MemberId) (now : Millis) :
    ExceptT ClusterError Option (Worker × InboxId × Manager × Network μ) := do
  match Topology.ofMembers members with
  | .error error => throw (.topology error)
  | .ok topology =>
    if manager.groups.contains group then throw (.groupExists group)
    let worker ← Worker.start group manager.member topology manager.config now
    let (inbox, network) := network.attach group manager.member
    return (worker, inbox, manager.register group { inbox, topology }, network)

/-- The groups that the member runs. -/
def groupIds (manager : Manager) : List GroupId := manager.groups.keys

/-- The members of a group that the member runs. -/
def membersOf? (manager : Manager) (group : GroupId) : Option (List MemberId) :=
  (manager.groups.get? group).map (·.topology.members)

end Manager

end Quorum
