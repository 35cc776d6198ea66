import Quorum.Cluster

namespace Quorum.Cluster

/-- Lets a worker take an event, and all workers what comes of it; `request` says what is asked. -/
def hand (cluster : Cluster) (inbox : InboxId) (request : String) (event : WorkerEvent) :
    ExceptT ClusterError Option Cluster := do
  match cluster.running inbox request with
  | .error error => throw error
  | .ok _ => ((cluster.turn inbox event).bind exchange : Option Cluster)

/-- Makes a member stand for election. -/
def campaign (cluster : Cluster) (inbox : InboxId) : ExceptT ClusterError Option Cluster :=
  cluster.hand inbox "campaign request" .campaign

/-- Tells a worker that a client has gone. -/
def departed (cluster : Cluster) (inbox : InboxId) (endpoint : String) :
    ExceptT ClusterError Option Cluster :=
  cluster.hand inbox "endpoint notification" (.departed endpoint)

/-- Stops a worker. Its group stays in the register of its member. -/
def stop (cluster : Cluster) (inbox : InboxId) : Except ClusterError Cluster := do
  let _ ← cluster.running inbox "shutdown"
  return cluster.stopWorker inbox

end Quorum.Cluster
