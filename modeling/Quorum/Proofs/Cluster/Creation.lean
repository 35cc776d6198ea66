import Quorum.Proofs.Cluster.Registration
import Quorum.Proofs.Cluster.Upkeep
import Quorum.Proofs.Startup
import Quorum.Proofs.Topology

namespace Quorum

open Consensus

/-- Maps with entries under the same keys have the same keys. -/
theorem SortedMap.keys_eq_of_isSome {κ ν : Type} [Key κ] [DecidableEq κ] {a b : SortedMap κ ν}
    (h : ∀ key, (a.get? key).isSome = (b.get? key).isSome) : a.keys = b.keys := by
  have hbare : a.mapValues (fun _ _ => ()) = b.mapValues fun _ _ => () := by
    refine ext_get? fun key => ?_
    rw [get?_mapValues, get?_mapValues]
    have hkey := h key
    cases ha : a.get? key <;> cases hb : b.get? key <;> simp_all
  have hkeys (map : SortedMap κ ν) : (map.mapValues fun _ _ => ()).keys = map.keys := by
    simp [keys, mapValues]
  rw [← hkeys a, hbare, hkeys]

theorem SortedMap.mem_keys {κ ν : Type} [Key κ] [DecidableEq κ] {map : SortedMap κ ν} {key : κ} :
    key ∈ map.keys ↔ ∃ value, map.get? key = some value := by
  simp [keys, get?_eq_some_iff]

theorem Node.Call.bind_eq_error {ε α β : Type} {first : ExceptT ε Option α}
    {rest : α → ExceptT ε Option β} {error : ε} (h : first >>= rest = some (.error error)) :
    first = some (.error error) ∨ ∃ a, first = some (.ok a) ∧ rest a = some (.error error) := by
  obtain ⟨result, hfirst, hrest⟩ := Option.bind_eq_some_iff.mp h
  cases result with
  | error refusal =>
    cases hrest
    exact .inl hfirst
  | ok a => exact .inr ⟨a, hfirst, hrest⟩

namespace Worker

variable {group : GroupId} {member other : MemberId} {topology : Topology} {config : Config}
  {now later : Millis}

/-- A worker that starts has a node that starts. -/
theorem exists_node_of_start {worker : Worker}
    (h : start group member topology config now = some (.ok worker)) :
    ∃ node, (Node.new member topology.members config).run = some (.ok node) := by
  unfold start at h
  obtain ⟨-, hstart⟩ := Cluster.unless_eq_ok h
  obtain ⟨result, hresult, hrest⟩ := Node.Call.bind_eq_ok hstart
  cases result with
  | error error => cases hrest
  | ok node => exact ⟨node, Node.Call.lift_eq_ok hresult⟩

/-- A member that does not start names the group, or the engine does. -/
theorem start_eq_error {error : ClusterError}
    (h : start group member topology config now = some (.error error)) :
    error = .notInGroup member group ∨ ∃ cause, error = .notStarted group cause := by
  unfold start at h
  by_cases hstranger : (!topology.contains member) = true
  · rw [if_pos hstranger] at h
    cases h
    exact .inl rfl
  rw [if_neg hstranger] at h
  have hlift {α : Type} (x : Option α) :
      (liftM x : ExceptT ClusterError Option α) ≠ some (.error error) := by
    cases x <;> exact nofun
  obtain ⟨result, -, hnode⟩ := (Node.Call.bind_eq_error h).resolve_left (hlift _)
  cases result with
  | error cause =>
    cases hnode
    exact .inr ⟨cause, rfl⟩
  | ok node =>
    obtain ⟨standing, -, hnew⟩ := (Node.Call.bind_eq_error hnode).resolve_left (hlift _)
    cases hnew

/-- Where one member starts, no other member of the topology is refused. -/
theorem start_ne_error {worker : Worker}
    (h : start group member topology config now = some (.ok worker))
    (hother : other ∈ topology.members) (error : ClusterError) :
    start group other topology config later ≠ some (.error error) := by
  obtain ⟨hvalid, hzero⟩ := Node.exists_new_iff.mp (exists_node_of_start h)
  obtain ⟨-, hheartbeat, helection, hinflight⟩ := Settings.validate_eq_ok_iff.mp hvalid
  have hid : other ≠ 0 := fun hsame => hzero (hsame ▸ hother)
  -- Of the settings, only the id differs between the two.
  have hsettings : (config.consensusSettings other).validate = .ok () :=
    Settings.validate_eq_ok_iff.mpr ⟨hid, hheartbeat, helection, hinflight⟩
  obtain ⟨node, hnode⟩ := Node.exists_new_iff.mpr ⟨hsettings, hzero⟩
  have hcontained : ¬ (!topology.contains other) = true := by
    simpa [Topology.contains] using hother
  intro hrefused
  rw [start, if_neg hcontained, Node.Call.lift_bind_of_some hnode] at hrefused
  simp only at hrefused
  cases hlead : (if topology.members.length = 1 then node.campaign else some node) with
  | none =>
    rw [hlead] at hrefused
    cases hrefused
  | some standing =>
    rw [Node.Call.lift_bind_of_some hlead] at hrefused
    cases hrefused

end Worker

namespace Cluster

/-- The part of a group that a member runs. -/
def registered? (cluster : Cluster) (member : MemberId) (group : GroupId) : Option ManagedGroup :=
  (cluster.managers.get? member).bind (·.groups.get? group)

/-- The inbox that messages to a member's part of a group go to. -/
def inbox? (cluster : Cluster) (member : MemberId) (group : GroupId) : Option InboxId :=
  cluster.network.routes.get? (group, member)

/-- Why a member does not start its part of a group. -/
inductive Refuses (cluster : Cluster) (member : MemberId) (group : GroupId)
    (members : List MemberId) : ClusterError → Prop
  | stranger (h : cluster.managers.get? member = none) :
    Refuses cluster member group members (.notInCluster member)
  | noTopology {error : TopologyError} (h : Topology.ofMembers members = .error error) :
    Refuses cluster member group members (.topology error)
  | present {topology : Topology} {managed : ManagedGroup}
    (htopology : Topology.ofMembers members = .ok topology)
    (h : cluster.registered? member group = some managed) :
    Refuses cluster member group members (.groupExists group)
  | notStarted {manager : Manager} {topology : Topology} {error : ClusterError}
    (hmanager : cluster.managers.get? member = some manager)
    (htopology : Topology.ofMembers members = .ok topology)
    (h : Worker.start group manager.member topology manager.config cluster.wall =
      some (.error error)) :
    Refuses cluster member group members error

/-- Only a member that runs the group says that it exists. -/
theorem Refuses.registered {cluster : Cluster} {member : MemberId} {group : GroupId}
    {members : List MemberId} {error : ClusterError}
    (h : cluster.Refuses member group members error) (hexists : error = .groupExists group) :
    (cluster.registered? member group).isSome := by
  cases h with
  | stranger hnone => cases hexists
  | noTopology hnone => cases hexists
  | present _ hpresent =>
    rw [hpresent]
    rfl
  | notStarted _ _ hrefused =>
    rcases Worker.start_eq_error hrefused with rfl | ⟨cause, rfl⟩ <;> cases hexists

/-- A member refuses a group for one of the listed reasons. -/
theorem createGroupAt_refuses {cluster : Cluster} {member : MemberId} {group : GroupId}
    {members : List MemberId} {error : ClusterError}
    (h : cluster.createGroupAt member group members = some (.error error)) :
    cluster.Refuses member group members error := by
  unfold createGroupAt at h
  split at h
  · rename_i refusal hstranger
    unfold Cluster.manager at hstranger
    split at hstranger
    · cases hstranger
    · rename_i hnone
      cases hstranger
      cases h
      exact .stranger hnone
  rename_i manager hmanager
  replace hmanager := manager_eq_ok hmanager
  rcases Node.Call.bind_eq_error h with hcreate | ⟨created, -, hdone⟩
  swap
  · cases hdone
  unfold Manager.create at hcreate
  split at hcreate
  · rename_i htopology
    cases hcreate
    exact .noTopology htopology
  rename_i topology htopology
  by_cases hpresent : manager.groups.contains group = true
  · rw [if_pos hpresent] at hcreate
    cases hcreate
    obtain ⟨managed, hmanaged⟩ := Option.isSome_iff_exists.mp hpresent
    exact .present htopology (Option.bind_eq_some_iff.mpr ⟨manager, hmanager, hmanaged⟩)
  · rw [if_neg hpresent] at hcreate
    rcases Node.Call.bind_eq_error hcreate with hstart | ⟨worker, -, hdone⟩
    · exact .notStarted hmanager htopology hstart
    · cases hdone

/-- Some members of a cluster, which did not run a group, run it now. Each has a worker and a new
    inbox, which messages to its part of the group go to. Whatever else runs or waits is as it
    was. -/
structure Joined (cluster after : Cluster) (group : GroupId) (started : List MemberId) :
    Prop where
  frame : after =
    { cluster with
      managers := after.managers
      workers := after.workers
      network := { cluster.network with
        opened := after.network.opened
        routes := after.network.routes
        inboxes := after.network.inboxes } }
  members_eq : after.members = cluster.members
  opened_eq : after.network.opened = cluster.network.opened + started.length
  registered_eq : ∀ member named, ¬ (member ∈ started ∧ named = group) →
    after.registered? member named = cluster.registered? member named
  inbox_eq : ∀ member named, ¬ (member ∈ started ∧ named = group) →
    after.inbox? member named = cluster.inbox? member named
  waiting_eq : ∀ inbox < cluster.network.opened,
    after.network.inboxes.get? inbox = cluster.network.inboxes.get? inbox
  workers_eq : ∀ {inbox running}, cluster.workers.get? inbox = some running →
    after.workers.get? inbox = some running
  /-- No other worker has started. -/
  worker : ∀ {inbox running}, after.workers.get? inbox = some running →
    cluster.workers.get? inbox = some running ∨
      ∃ member ∈ started, ∃ managed, after.registered? member group = some managed ∧
        managed.inbox = inbox
  joined : ∀ member ∈ started, cluster.registered? member group = none ∧
    ∃ managed running, after.registered? member group = some managed ∧
      after.inbox? member group = some managed.inbox ∧
      cluster.network.opened ≤ managed.inbox ∧ managed.inbox < after.network.opened ∧
      after.network.inboxes.get? managed.inbox = some [] ∧
      after.workers.get? managed.inbox = some running

namespace Joined

variable {cluster between after : Cluster} {group : GroupId} {member : MemberId}
  {started : List MemberId}

/-- No member has joined a group before any has. -/
theorem none (cluster : Cluster) (group : GroupId) : cluster.Joined cluster group [] where
  frame := rfl
  members_eq := rfl
  opened_eq := rfl
  registered_eq _ _ _ := rfl
  inbox_eq _ _ _ := rfl
  waiting_eq _ _ := rfl
  workers_eq h := h
  worker h := .inl h
  joined := nofun

theorem opened_le (h : cluster.Joined after group started) :
    cluster.network.opened ≤ after.network.opened := by
  rw [h.opened_eq]
  exact Nat.le_add_right ..

/-- A member that joins, and then the others, have joined together. -/
theorem cons (h : cluster.Joined between group [member])
    (hlater : between.Joined after group started) (hnew : member ∉ started) :
    cluster.Joined after group (member :: started) := by
  -- What belongs to one of the two changes is left alone by the other.
  have hkept {other : MemberId} (hmem : other ∈ [member]) : ¬ (other ∈ started ∧ group = group) :=
    fun hboth => hnew (List.mem_singleton.mp hmem ▸ hboth.1)
  have hdiffers {other : MemberId} (hmem : other ∈ started) :
      ¬ (other ∈ [member] ∧ group = group) := fun hboth => hkept hboth.1 ⟨hmem, rfl⟩
  have hneither {other : MemberId} {named : GroupId}
      (hnot : ¬ (other ∈ member :: started ∧ named = group)) :
      ¬ (other ∈ [member] ∧ named = group) ∧ ¬ (other ∈ started ∧ named = group) := by
    rw [List.mem_cons, or_and_right, not_or] at hnot
    exact ⟨by simpa using hnot.1, hnot.2⟩
  constructor
  case frame => rw [hlater.frame, h.frame]
  case members_eq => exact hlater.members_eq.trans h.members_eq
  case opened_eq =>
    rw [hlater.opened_eq, h.opened_eq, List.length_singleton, List.length_cons]
    omega
  case registered_eq =>
    intro other named hnot
    exact (hlater.registered_eq _ _ (hneither hnot).2).trans (h.registered_eq _ _ (hneither hnot).1)
  case inbox_eq =>
    intro other named hnot
    exact (hlater.inbox_eq _ _ (hneither hnot).2).trans (h.inbox_eq _ _ (hneither hnot).1)
  case waiting_eq =>
    intro inbox hopened
    exact (hlater.waiting_eq inbox (Nat.lt_of_lt_of_le hopened h.opened_le)).trans
      (h.waiting_eq inbox hopened)
  case workers_eq => exact fun hrunning => hlater.workers_eq (h.workers_eq hrunning)
  case worker =>
    intro inbox running hrunning
    rcases hlater.worker hrunning with hbetween | ⟨other, hother, managed, hregistered, hinbox⟩
    · rcases h.worker hbetween with hbefore | ⟨other, hother, managed, hregistered, hinbox⟩
      · exact .inl hbefore
      · exact .inr ⟨other, List.mem_cons.mpr (.inl (List.mem_singleton.mp hother)), managed,
          (hlater.registered_eq _ _ (hkept hother)).trans hregistered, hinbox⟩
    · exact .inr ⟨other, List.mem_cons_of_mem _ hother, managed, hregistered, hinbox⟩
  case joined =>
    intro other hmem
    rcases List.mem_cons.mp hmem with rfl | hother
    · have hother := List.mem_singleton_self other
      obtain ⟨hfree, managed, running, hregistered, hinbox, hopened, hlt, hempty, hrunning⟩ :=
        h.joined other hother
      exact ⟨hfree, managed, running,
        (hlater.registered_eq _ _ (hkept hother)).trans hregistered,
        (hlater.inbox_eq _ _ (hkept hother)).trans hinbox, hopened,
        Nat.lt_of_lt_of_le hlt hlater.opened_le, (hlater.waiting_eq _ hlt).trans hempty,
        hlater.workers_eq hrunning⟩
    · obtain ⟨hfree, managed, running, hregistered, hinbox, hopened, hrest⟩ :=
        hlater.joined other hother
      exact ⟨(h.registered_eq _ _ (hdiffers hother)).symm.trans hfree, managed, running,
        hregistered, hinbox, Nat.le_trans h.opened_le hopened, hrest⟩

end Joined

section Creation

variable {cluster after : Cluster} {group : GroupId} {member : MemberId} {manager : Manager}

/-- A group that enters a register is there under the newest inbox, and the others stay. -/
theorem registered?_enter (hmanager : cluster.managers.get? member = some manager)
    (topology : Topology) (worker : Worker) (other : MemberId) (named : GroupId) :
    (cluster.enter member manager group topology worker).registered? other named =
      if member = other ∧ group = named then some ⟨cluster.network.opened, topology⟩
      else cluster.registered? other named := by
  simp only [registered?, enter, SortedMap.get?_insert]
  by_cases hmember : member = other
  · subst hmember
    simp only [if_true, true_and, Option.bind_some, Manager.register, SortedMap.get?_insert,
      hmanager]
  · simp only [hmember, if_false, false_and]

/-- A group that enters a register gets the newest inbox, and the others keep theirs. -/
theorem inbox?_enter (hmember : manager.member = member) (topology : Topology) (worker : Worker)
    (other : MemberId) (named : GroupId) :
    (cluster.enter member manager group topology worker).inbox? other named =
      if member = other ∧ group = named then some cluster.network.opened
      else cluster.inbox? other named := by
  refine (SortedMap.get?_insert ..).trans (if_congr ?_ rfl rfl)
  rw [Prod.mk.injEq, hmember, and_comm]

theorem members_enter (hmanager : cluster.managers.get? member = some manager)
    (group : GroupId) (topology : Topology) (worker : Worker) :
    (cluster.enter member manager group topology worker).members = cluster.members := by
  refine SortedMap.keys_eq_of_isSome fun key => ?_
  refine (congrArg Option.isSome (SortedMap.get?_insert ..)).trans ?_
  split
  · rename_i hsame
    rw [← hsame, hmanager]
    rfl
  · rfl

/-- A member that starts its part of a group joins those that run it. -/
theorem enter_joined (henrolled : cluster.Enrolled)
    (hmanager : cluster.managers.get? member = some manager)
    (hfree : manager.groups.get? group = none) (topology : Topology) (worker : Worker) :
    cluster.Joined (cluster.enter member manager group topology worker) group [member] := by
  have hmember := (henrolled.manager hmanager).1
  have hother {other : MemberId} {named : GroupId}
      (hnot : ¬ (other ∈ [member] ∧ named = group)) : ¬ (member = other ∧ group = named) :=
    fun hboth => hnot ⟨List.mem_singleton.mpr hboth.1.symm, hboth.2.symm⟩
  have hregistered : (cluster.enter member manager group topology worker).registered? member group =
      some ⟨cluster.network.opened, topology⟩ := by
    rw [registered?_enter hmanager, if_pos ⟨rfl, rfl⟩]
  constructor
  case frame => rfl
  case members_eq => exact members_enter hmanager group topology worker
  case opened_eq => rfl
  case registered_eq =>
    intro other named hnot
    rw [registered?_enter hmanager, if_neg (hother hnot)]
  case inbox_eq =>
    intro other named hnot
    rw [inbox?_enter hmember, if_neg (hother hnot)]
  case waiting_eq =>
    intro inbox hopened
    exact (SortedMap.get?_insert ..).trans (if_neg (Nat.ne_of_gt hopened))
  case workers_eq =>
    intro inbox running hrunning
    have hopened := henrolled.opened hrunning
    exact (SortedMap.get?_insert ..).trans ((if_neg (Nat.ne_of_gt hopened)).trans hrunning)
  case worker =>
    intro inbox running hrunning
    replace hrunning := (SortedMap.get?_insert ..).symm.trans hrunning
    split at hrunning
    · rename_i hinbox
      exact .inr ⟨member, List.mem_singleton_self member, _, hregistered, hinbox⟩
    · exact .inl hrunning
  case joined =>
    intro other hmem
    obtain rfl := List.mem_singleton.mp hmem
    refine ⟨?_, ⟨cluster.network.opened, topology⟩, _, hregistered, ?_, Nat.le_refl _,
      Nat.lt_succ_self _, SortedMap.get?_insert_self .., SortedMap.get?_insert_self ..⟩
    · rw [registered?, hmanager]
      exact hfree
    · rw [inbox?_enter hmember, if_pos ⟨rfl, rfl⟩]

/-- The members up to the first that ran a group already have joined it. -/
def JoinedUpTo (cluster after : Cluster) (group : GroupId) (members : List MemberId) : Prop :=
  ∃ started refusing rest, members = started ++ refusing :: rest ∧
    (cluster.registered? refusing group).isSome ∧ cluster.Joined after group started

/-- After a member has joined, the members that joined before the refusal are one more. -/
theorem JoinedUpTo.enter {members : List MemberId} {topology : Topology} {worker : Worker}
    (henrolled : cluster.Enrolled) (hmanager : cluster.managers.get? member = some manager)
    (hfree : manager.groups.get? group = none) (hnew : member ∉ members)
    (h : (cluster.enter member manager group topology worker).JoinedUpTo after group members) :
    cluster.JoinedUpTo after group (member :: members) := by
  obtain ⟨started, refusing, rest, rfl, hregistered, hjoined⟩ := h
  have hdiffers : member ≠ refusing := by
    rintro rfl
    exact hnew (by simp)
  rw [registered?_enter hmanager, if_neg fun hboth => hdiffers hboth.1] at hregistered
  exact ⟨member :: started, refusing, rest, rfl, hregistered,
    (enter_joined henrolled hmanager hfree topology worker).cons hjoined
      fun hmem => hnew (List.mem_append_left _ hmem)⟩

/-- Once it is known that no member is refused its worker, a creation is only refused by a member
    that runs the group. -/
theorem createGroupOn_refused {members : List MemberId} {topology : Topology}
    {error : ClusterError} (henrolled : cluster.Enrolled) (hnodup : members.Nodup)
    (hmembers : ∀ member ∈ members, member ∈ cluster.members)
    (htopology : Topology.ofMembers cluster.members = .ok topology)
    (hstarts : ∀ member ∈ members, ∀ error,
      Worker.start group member topology cluster.config cluster.wall ≠ some (.error error))
    (h : cluster.createGroupOn group members = some (.error error, after)) :
    error = .groupExists group ∧ cluster.JoinedUpTo after group members := by
  induction members generalizing cluster with
  | nil => cases h
  | cons member rest ih =>
    obtain ⟨hhere, hrest⟩ := List.forall_mem_cons.mp hmembers
    obtain ⟨hstart, hlater⟩ := List.forall_mem_cons.mp hstarts
    obtain ⟨hnew, hnodup⟩ := List.nodup_cons.mp hnodup
    obtain ⟨created, hcreate, hthen⟩ := Option.bind_eq_some_iff.mp h
    cases created with
    | error refusal =>
      cases hthen
      cases createGroupAt_refuses hcreate with
      | stranger hnone =>
        obtain ⟨manager, hmanager⟩ := SortedMap.mem_keys.mp hhere
        cases hnone.symm.trans hmanager
      | noTopology hnone => cases hnone.symm.trans htopology
      | present _ hpresent =>
        exact ⟨rfl, [], member, rest, rfl, Option.isSome_of_eq_some hpresent, .none _ _⟩
      | @notStarted manager found _ hmanager hfound hrefused =>
        obtain ⟨hmember, hconfig⟩ := henrolled.manager hmanager
        cases hfound.symm.trans htopology
        rw [hmember, hconfig] at hrefused
        exact absurd hrefused (hstart _)
    | ok between =>
      -- The member has joined, so the refusal comes from one of the others.
      obtain ⟨manager, found, worker, hmanager, -, hfree, -, rfl⟩ := createGroupAt_eq_ok hcreate
      have hsame := members_enter hmanager group found worker
      obtain ⟨herror, hupTo⟩ := ih (henrolled.enter hmanager found worker) hnodup
        (by rwa [hsame]) (by rwa [hsame]) hlater hthen
      exact ⟨herror, hupTo.enter henrolled hmanager hfree hnew⟩

/-- A creation is refused. If the error says that the group exists, the members before the first
    that ran the group have started their parts of it, and nothing else has changed. If the error
    says anything else, nothing has changed. -/
theorem createGroup_refused (harises : cluster.Arises) {error : ClusterError}
    (h : cluster.createGroup group = some (.error error, after)) :
    (error ≠ .groupExists group → after = cluster) ∧
    (error = .groupExists group →
      ∃ started refusing rest, cluster.members = started ++ refusing :: rest ∧
        (cluster.registered? refusing group).isSome ∧ cluster.Joined after group started) := by
  have henrolled := harises.enrolled
  have hnodup : cluster.members.Nodup := SortedMap.nodup_keys _
  unfold createGroup at h
  cases hsplit : cluster.members with
  | nil =>
    rw [hsplit] at h
    cases h
  | cons first rest =>
    rw [hsplit] at h hnodup
    obtain ⟨hnew, hnodup⟩ := List.nodup_cons.mp hnodup
    obtain ⟨created, hcreate, hthen⟩ := Option.bind_eq_some_iff.mp h
    cases created with
    | error refusal =>
      cases hthen
      exact ⟨fun _ => rfl, fun hexists =>
        ⟨[], first, rest, rfl, (createGroupAt_refuses hcreate).registered hexists, .none _ _⟩⟩
    | ok between =>
      obtain ⟨manager, topology, worker, hmanager, htopology, hfree, hstart, rfl⟩ :=
        createGroupAt_eq_ok hcreate
      obtain ⟨hmember, hconfig⟩ := henrolled.manager hmanager
      rw [hmember, hconfig] at hstart
      have hsame := members_enter hmanager group topology worker
      have hlater : ∀ other ∈ rest, other ∈ cluster.members :=
        fun other hother => hsplit ▸ List.mem_cons_of_mem _ hother
      have hincluded : ∀ other ∈ rest, other ∈ topology.members := by
        intro other hother
        rw [Topology.members_of_ofMembers htopology]
        exact List.mem_mergeSort.mpr (hlater other hother)
      obtain ⟨herror, hupTo⟩ := createGroupOn_refused (henrolled.enter hmanager topology worker)
        hnodup (by rwa [hsame]) (by rwa [hsame])
        (fun other hother _ => Worker.start_ne_error hstart (hincluded other hother) _) hthen
      exact ⟨fun hother => absurd herror hother,
        fun _ => hupTo.enter henrolled hmanager hfree hnew⟩

/-- A member starts a group that it does not run, among members that make a topology. -/
theorem createGroupAt_of_free {members : List MemberId} {topology : Topology} {worker : Worker}
    (hmanager : cluster.managers.get? member = some manager)
    (hfree : manager.groups.get? group = none)
    (htopology : Topology.ofMembers members = .ok topology)
    (hstart : Worker.start group manager.member topology manager.config cluster.wall =
      some (.ok worker)) :
    cluster.createGroupAt member group members =
      some (.ok (cluster.enter member manager group topology worker)) := by
  simp only [createGroupAt, Cluster.manager, hmanager]
  rw [Node.Call.bind_of_ok (Member.create_of_free hfree htopology hstart)]
  rfl

/-- A member refuses a group that it runs already. -/
theorem createGroupAt_of_present {members : List MemberId} {topology : Topology}
    {managed : ManagedGroup} (hmanager : cluster.managers.get? member = some manager)
    (hpresent : manager.groups.get? group = some managed)
    (htopology : Topology.ofMembers members = .ok topology) :
    cluster.createGroupAt member group members = some (.error (.groupExists group)) := by
  simp only [createGroupAt, Cluster.manager, hmanager]
  rw [Manager.create, htopology]
  simp only [SortedMap.contains, hpresent]
  rfl

/-- After a member that starts the group, the others are asked in turn. -/
theorem createGroupOn_of_started {rest : List MemberId} {between : Cluster}
    (h : cluster.createGroupAt member group cluster.members = some (.ok between)) :
    cluster.createGroupOn group (member :: rest) = between.createGroupOn group rest := by
  rw [createGroupOn, h]
  rfl

/-- A member that refuses the group ends the creation, and what was started stays. -/
theorem createGroupOn_of_refused {rest : List MemberId} {error : ClusterError}
    (h : cluster.createGroupAt member group cluster.members = some (.error error)) :
    cluster.createGroupOn group (member :: rest) = some (.error error, cluster) := by
  rw [createGroupOn, h]
  rfl

end Creation

/-- The register of a member that has no groups yet. -/
def vacant (member : MemberId) : Manager := { member, config := {} }

/-- Three members without groups. -/
def threeMembers : Cluster where
  config := {}
  pace := .even
  managers := .ofList [(1, vacant 1), (2, vacant 2), (3, vacant 3)]

/-- Three members, of which the second has started its part of the default group. -/
def secondStarted (worker : Worker) : Cluster :=
  threeMembers.enter 2 (vacant 2) .default Member.trio worker

theorem start_threeMembers : start [1, 2, 3] {} .even = .ok threeMembers := rfl

theorem createGroupAt_threeMembers {worker : Worker}
    (h : Worker.start .default 2 Member.trio {} 0 = some (.ok worker)) :
    threeMembers.createGroupAt 2 .default [1, 2, 3] = some (.ok (secondStarted worker)) := by
  have hmanager : threeMembers.managers.get? 2 = some (vacant 2) := rfl
  exact createGroupAt_of_free hmanager rfl Member.ofMembers_trio h

theorem createGroup_secondStarted {first : Worker}
    (h : Worker.start .default 1 Member.trio {} 0 = some (.ok first)) (second : Worker) :
    (secondStarted second).createGroup .default =
      some (.error (.groupExists .default),
        (secondStarted second).enter 1 (vacant 1) .default Member.trio first) := by
  let joined : Cluster := (secondStarted second).enter 1 (vacant 1) .default Member.trio first
  have hvacant : (secondStarted second).managers.get? 1 = some (vacant 1) := rfl
  have hfirst : (secondStarted second).createGroupAt 1 .default [1, 2, 3] = some (.ok joined) :=
    createGroupAt_of_free hvacant rfl Member.ofMembers_trio h
  have hpresent : joined.managers.get? 2 = some ((vacant 2).register .default ⟨0, Member.trio⟩) :=
    rfl
  have hsecond : joined.createGroupAt 2 .default [1, 2, 3] =
      some (.error (.groupExists .default)) :=
    createGroupAt_of_present hpresent (SortedMap.get?_insert_self ..) Member.ofMembers_trio
  calc (secondStarted second).createGroup .default
      = (secondStarted second).createGroupOn .default [1, 2, 3] := rfl
    _ = joined.createGroupOn .default [2, 3] := createGroupOn_of_started hfirst
    _ = some (.error (.groupExists .default), joined) := createGroupOn_of_refused hsecond

/-- The part that the second of three members runs keeps the group from being created. The first
    member has started its part by then, and the third has not. -/
theorem present_group_creation_refused :
    ∃ cluster after : Cluster, cluster.Arises ∧
      cluster.createGroup .default = some (.error (.groupExists .default), after) ∧
      ∃ started refusing rest, cluster.members = started ++ refusing :: rest ∧
        (cluster.registered? refusing .default).isSome ∧
        cluster.Joined after .default started := by
  obtain ⟨first, hfirst⟩ := Member.exists_start_trio 1 (by decide)
  obtain ⟨second, hsecond⟩ := Member.exists_start_trio 2 (by decide)
  have harises : (secondStarted second).Arises :=
    (Arises.start start_threeMembers).create (createGroupAt_threeMembers hsecond)
  have hrefused := createGroup_secondStarted hfirst second
  exact ⟨_, _, harises, hrefused, (createGroup_refused harises hrefused).2 rfl⟩

/-- A creation that is refused may leave the group running on a member that did not run it. -/
theorem refused_creation_starts_first_member :
    ∃ fresh cluster after : Cluster, start [1, 2, 3] {} .even = .ok fresh ∧
      fresh.createGroupAt 2 .default [1, 2, 3] = some (.ok cluster) ∧
      cluster.createGroup .default = some (.error (.groupExists .default), after) ∧
      cluster.registered? 1 .default = none ∧ cluster.inbox? 1 .default = none ∧
      (after.registered? 1 .default).isSome ∧ after.inbox? 1 .default = some 1 := by
  obtain ⟨first, hfirst⟩ := Member.exists_start_trio 1 (by decide)
  obtain ⟨second, hsecond⟩ := Member.exists_start_trio 2 (by decide)
  exact ⟨_, _, _, start_threeMembers, createGroupAt_threeMembers hsecond,
    createGroup_secondStarted hfirst second, rfl, rfl, rfl, rfl⟩

end Cluster

end Quorum
