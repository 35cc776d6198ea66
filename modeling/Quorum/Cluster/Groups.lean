import Quorum.Cluster

namespace Quorum.Cluster

/-- Starts a member's part of a group. -/
def createGroupAt (cluster : Cluster) (member : MemberId) (group : GroupId)
    (members : List MemberId) : ExceptT ClusterError Option Cluster :=
  match cluster.manager member with
  | .error error => throw error
  | .ok manager => do
    let (worker, inbox, manager, network) ←
      manager.create cluster.network group members cluster.wall
    return { cluster with
      network
      managers := cluster.managers.insert member manager
      workers := cluster.workers.insert inbox
        { worker, nextTick := cluster.clock, nextExpiryCheck := cluster.clock } }

/-- Starts a group on the listed members, up to the first that refuses. -/
def createGroupOn (cluster : Cluster) (group : GroupId) :
    List MemberId → Option (Except ClusterError Unit × Cluster)
  | [] => some (.ok (), cluster)
  | member :: rest => do
    match ← ((cluster.createGroupAt member group cluster.members).run :
        Option (Except ClusterError Cluster)) with
    | .ok cluster => cluster.createGroupOn group rest
    | .error error => return (.error error, cluster)

/-- Starts a group on every member. -/
def createGroup (cluster : Cluster) (group : GroupId) :
    Option (Except ClusterError Unit × Cluster) :=
  cluster.createGroupOn group cluster.members

/-- Ends a member's part of a group, and says whether there was one. -/
def destroyGroup (cluster : Cluster) (member : MemberId) (group : GroupId) :
    Except ClusterError Bool × Cluster :=
  match (cluster.manager member).map (·.remove group) with
  | .error error => (.error error, cluster)
  | .ok none => (.ok false, cluster)
  | .ok (some (managed, manager)) =>
    let cluster := { cluster with managers := cluster.managers.insert member manager }
    let cluster := cluster.stopWorker managed.inbox
    (.ok true, { cluster with network := cluster.network.detach group member })

/-- Ends all groups of all members. -/
def shutdown (cluster : Cluster) : Cluster :=
  let parts := cluster.managers.entries.flatMap fun (member, manager) =>
    manager.groupIds.map (member, ·)
  parts.foldl (fun cluster (member, group) => (cluster.destroyGroup member group).2) cluster

/-- Tells all workers of a member that a client has gone. -/
def endpointDeparted (cluster : Cluster) (member : MemberId) (endpoint : String) :
    ExceptT ClusterError Option Cluster :=
  match cluster.manager member with
  | .error error => throw error
  | .ok manager =>
    (manager.groups.values.foldlM (fun cluster managed =>
      cluster.turn managed.inbox (.departed endpoint)) cluster : Option Cluster)

end Quorum.Cluster
