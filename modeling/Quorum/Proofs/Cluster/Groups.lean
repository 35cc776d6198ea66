import Quorum.Proofs.Cluster.Runs

namespace Quorum.Cluster

/-- A call that goes on was not refused. -/
theorem unless_eq_ok {β : Type} {p : Prop} [Decidable p] {error : ClusterError}
    {next : PUnit → ExceptT ClusterError Option β} {b : β}
    (h : (if p then throw error >>= next else next ⟨⟩ : ExceptT ClusterError Option β) =
      some (.ok b)) : ¬ p ∧ next ⟨⟩ = some (.ok b) := by
  by_cases hp : p
  · rw [if_pos hp] at h
    cases h
  · rw [if_neg hp] at h
    exact ⟨hp, h⟩

variable {cluster after : Cluster}

/-- A worker that starts has a new node and nobody to answer. -/
theorem start_eq_new {group : GroupId} {member : MemberId} {topology : Topology} {config : Config}
    {now : Millis} {worker : Worker}
    (h : Worker.start group member topology config now = some (.ok worker)) :
    ∃ node, worker = .new group node now := by
  unfold Worker.start at h
  obtain ⟨-, hstart⟩ := unless_eq_ok h
  obtain ⟨result, -, hrest⟩ := Node.Call.bind_eq_ok hstart
  cases result with
  | error error => cases hrest
  | ok node =>
    obtain ⟨standing, -, hnew⟩ := Node.Call.bind_eq_ok hrest
    cases hnew
    exact ⟨standing, rfl⟩

/-- A member that creates a group had none of that name, and puts its worker under a new inbox. -/
theorem create_eq_ok {μ : Type} {manager after : Manager} {network between : Network μ}
    {group : GroupId} {members : List MemberId} {now : Millis} {worker : Worker} {inbox : InboxId}
    (h : manager.create network group members now = some (.ok (worker, inbox, after, between))) :
    ∃ topology, Topology.ofMembers members = .ok topology ∧ manager.groups.get? group = none ∧
      Worker.start group manager.member topology manager.config now = some (.ok worker) ∧
      inbox = network.opened ∧
      after = manager.register group ⟨network.opened, topology⟩ ∧
      between = (network.attach group manager.member).2 := by
  unfold Manager.create at h
  split at h
  · cases h
  rename_i topology htopology
  obtain ⟨hfree, hworker⟩ := unless_eq_ok h
  obtain ⟨started, hstart, hlast⟩ := Node.Call.bind_eq_ok hworker
  cases hlast
  exact ⟨topology, htopology, by simpa [SortedMap.contains] using hfree, hstart, rfl, rfl, rfl⟩

/-- A member whose register is found is in the cluster. -/
theorem manager_eq_ok {member : MemberId} {manager : Manager}
    (h : cluster.manager member = .ok manager) : cluster.managers.get? member = some manager := by
  unfold Cluster.manager at h
  split at h
  · cases h
    assumption
  · cases h

/-- The cluster in which a member has started a worker, and runs a group with it. -/
def enter (cluster : Cluster) (member : MemberId) (manager : Manager) (group : GroupId)
    (topology : Topology) (worker : Worker) : Cluster :=
  { cluster with
    network := (cluster.network.attach group manager.member).2
    managers := cluster.managers.insert member
      (manager.register group ⟨cluster.network.opened, topology⟩)
    workers := cluster.workers.insert cluster.network.opened
      { worker, nextTick := cluster.clock, nextExpiryCheck := cluster.clock } }

/-- A group that starts at a member enters its register with a worker and an inbox. -/
theorem createGroupAt_eq_ok {member : MemberId} {group : GroupId} {members : List MemberId}
    (h : cluster.createGroupAt member group members = some (.ok after)) :
    ∃ manager topology worker, cluster.managers.get? member = some manager ∧
      Topology.ofMembers members = .ok topology ∧ manager.groups.get? group = none ∧
      Worker.start group manager.member topology manager.config cluster.wall =
        some (.ok worker) ∧
      after = cluster.enter member manager group topology worker := by
  unfold createGroupAt at h
  split at h
  · cases h
  rename_i manager hmanager
  obtain ⟨⟨worker, inbox, registered, network⟩, hcreate, hrest⟩ := Node.Call.bind_eq_ok h
  cases hrest
  obtain ⟨topology, htopology, hfree, hstart, rfl, rfl, rfl⟩ := create_eq_ok hcreate
  exact ⟨manager, topology, worker, manager_eq_ok hmanager, htopology, hfree, hstart, rfl⟩

/-- A group that starts at a member answers nobody and appends nothing. -/
theorem createGroupAt_rearranges {member : MemberId} {group : GroupId} {members : List MemberId}
    (h : cluster.createGroupAt member group members = some (.ok after)) :
    cluster.Rearranges after := by
  obtain ⟨manager, topology, worker, -, -, -, hstart, rfl⟩ := createGroupAt_eq_ok h
  refine ⟨rfl, rfl, fun other found hget => ?_⟩
  replace hget := (SortedMap.get?_insert ..).symm.trans hget
  split at hget
  · cases hget
    obtain ⟨node, hworker⟩ := start_eq_new hstart
    exact .inr ⟨group, node, cluster.wall, hworker⟩
  · exact .inl ⟨found, hget, rfl⟩

/-- Creating a group makes no call. -/
theorem createGroupOn_reaches {group : GroupId} {members : List MemberId}
    {result : Except ClusterError Unit}
    (h : cluster.createGroupOn group members = some (result, after)) : cluster.Reaches after := by
  induction members generalizing cluster with
  | nil =>
    cases h
    exact .refl _
  | cons member rest ih =>
    obtain ⟨created, hcreate, hrest⟩ := Option.bind_eq_some_iff.mp h
    cases created with
    | ok between => exact (createGroupAt_rearranges hcreate).reaches.trans (ih hrest)
    | error error =>
      cases hrest
      exact .refl _

theorem createGroup_reaches {group : GroupId} {result : Except ClusterError Unit}
    (h : cluster.createGroup group = some (result, after)) : cluster.Reaches after :=
  createGroupOn_reaches h

/-- Destroying a group makes no call. -/
theorem destroyGroup_reaches (cluster : Cluster) (member : MemberId) (group : GroupId) :
    cluster.Reaches (cluster.destroyGroup member group).2 := by
  unfold destroyGroup
  split
  · exact .refl _
  · exact .refl _
  · have hremoved {managers : SortedMap MemberId Manager} :
        cluster.Reaches { cluster with managers } :=
      Rearranges.reaches (rearranges_of_eq rfl rfl rfl)
    exact (hremoved.trans (stopWorker_reaches _ _)).trans (withNetwork_reaches _ _)

/-- Stopping all groups makes no call. -/
theorem shutdown_reaches (cluster : Cluster) : cluster.Reaches cluster.shutdown := by
  unfold shutdown
  generalize (cluster.managers.entries.flatMap _ : List (MemberId × GroupId)) = parts
  induction parts generalizing cluster with
  | nil => exact .refl _
  | cons part rest ih => exact (cluster.destroyGroup_reaches part.1 part.2).trans (ih _)

/-- A client that goes makes no call. -/
theorem endpointDeparted_reaches {member : MemberId} {endpoint : String}
    (h : cluster.endpointDeparted member endpoint = some (.ok after)) : cluster.Reaches after := by
  unfold endpointDeparted at h
  split at h
  · cases h
  · exact acrossMoves_reaches.foldlM (fun _ _ => turn_reaches rfl) (Node.Call.lift_eq_ok h)

/-- An event that is nobody's request makes no call. -/
theorem hand_reaches {inbox : InboxId} {request : String} {event : WorkerEvent}
    (hevent : event.ticket? = none) (h : cluster.hand inbox request event = some (.ok after)) :
    cluster.Reaches after := by
  unfold hand at h
  split at h
  · cases h
  · obtain ⟨between, hturn, hexchange⟩ := Option.bind_eq_some_iff.mp (Node.Call.lift_eq_ok h)
    exact (turn_reaches hevent hturn).trans (acrossMoves_reaches.exchange hexchange)

theorem campaign_reaches {inbox : InboxId} (h : cluster.campaign inbox = some (.ok after)) :
    cluster.Reaches after := hand_reaches rfl h

theorem departed_reaches {inbox : InboxId} {endpoint : String}
    (h : cluster.departed inbox endpoint = some (.ok after)) : cluster.Reaches after :=
  hand_reaches rfl h

theorem stop_reaches {inbox : InboxId} (h : cluster.stop inbox = .ok after) :
    cluster.Reaches after := by
  unfold stop at h
  cases hrunning : cluster.running inbox "shutdown" with
  | error error =>
    rw [hrunning] at h
    cases h
  | ok running =>
    rw [hrunning] at h
    cases h
    exact stopWorker_reaches cluster inbox

end Quorum.Cluster
