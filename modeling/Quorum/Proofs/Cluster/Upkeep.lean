import Quorum.Proofs.Cluster.Groups
import Quorum.Proofs.Network

namespace Quorum

open Consensus

theorem bind_eq_ok {ε α β : Type} {first : Except ε α} {rest : α → Except ε β} {result : β}
    (h : first >>= rest = .ok result) :
    ∃ between, first = .ok between ∧ rest between = .ok result := by
  cases first with
  | error error => cases h
  | ok between => exact ⟨between, rfl, h⟩

/-- What a list is mapped to comes from its items. -/
theorem exists_of_mem_mapM {ε α β : Type} {f : α → Except ε β} {items : List α} {results : List β}
    (h : items.mapM f = .ok results) {result : β} (hmem : result ∈ results) :
    ∃ item ∈ items, f item = .ok result := by
  induction items generalizing results with
  | nil =>
    cases h
    cases hmem
  | cons item rest ih =>
    rw [List.mapM_cons] at h
    obtain ⟨first, hfirst, hthen⟩ := bind_eq_ok h
    obtain ⟨others, hothers, hlast⟩ := bind_eq_ok hthen
    cases hlast
    rcases List.mem_cons.mp hmem with rfl | hother
    · exact ⟨item, List.mem_cons_self, hfirst⟩
    · obtain ⟨found, hfound, hresult⟩ := ih hothers hother
      exact ⟨found, List.mem_cons_of_mem _ hfound, hresult⟩

/-- What is found after insertions was inserted or there before. -/
theorem SortedMap.mem_of_get?_foldl {κ ν : Type} [Key κ] [DecidableEq κ] {pairs : List (κ × ν)}
    {map : SortedMap κ ν} {key : κ} {value : ν}
    (h : (pairs.foldl (fun map pair => map.insert pair.1 pair.2) map).get? key = some value) :
    (key, value) ∈ pairs ∨ map.get? key = some value := by
  induction pairs generalizing map with
  | nil => exact .inr h
  | cons pair rest ih =>
    rcases ih h with hlater | hnow
    · exact .inl (List.mem_cons_of_mem _ hlater)
    · rw [get?_insert] at hnow
      split at hnow
      · rename_i hsame
        cases hnow
        cases hsame
        exact .inl List.mem_cons_self
      · exact .inr hnow

theorem SortedMap.mem_of_get?_ofList {κ ν : Type} [Key κ] [DecidableEq κ] {pairs : List (κ × ν)}
    {key : κ} {value : ν} (h : (ofList pairs).get? key = some value) : (key, value) ∈ pairs :=
  (mem_of_get?_foldl h).resolve_right nofun

namespace Cluster

/-- A change that leaves the registers of the members alone. It opens no inbox and starts no
    worker. -/
structure Carries (cluster after : Cluster) : Prop where
  config_eq : after.config = cluster.config
  managers_eq : after.managers = cluster.managers
  opened_eq : after.network.opened = cluster.network.opened
  running : ∀ {inbox running}, after.workers.get? inbox = some running →
    ∃ before, cluster.workers.get? inbox = some before

namespace Carries

variable {cluster between after : Cluster}

theorem refl (cluster : Cluster) : cluster.Carries cluster :=
  ⟨rfl, rfl, rfl, fun {_ running} hget => ⟨running, hget⟩⟩

/-- What is carried twice is carried. -/
theorem trans (h : cluster.Carries between) (hlater : between.Carries after) :
    cluster.Carries after where
  config_eq := hlater.config_eq.trans h.config_eq
  managers_eq := hlater.managers_eq.trans h.managers_eq
  opened_eq := hlater.opened_eq.trans h.opened_eq
  running hget := by
    obtain ⟨_, hbetween⟩ := hlater.running hget
    exact h.running hbetween

/-- Calls come and go. -/
theorem withCalls (cluster : Cluster) (tickets : Ticket) (calls : SortedMap CallId Call) :
    cluster.Carries { cluster with tickets, calls } :=
  ⟨rfl, rfl, rfl, fun {_ running} hget => ⟨running, hget⟩⟩

/-- Messages travel, and inboxes are closed. -/
theorem withNetwork {network : Network Message} (h : network.opened = cluster.network.opened) :
    cluster.Carries { cluster with network } :=
  ⟨rfl, rfl, h, fun {_ running} hget => ⟨running, hget⟩⟩

/-- A worker goes on, while messages travel. -/
theorem withWorker {inbox : InboxId} {before : RunningWorker} {network : Network Message}
    (hbefore : cluster.workers.get? inbox = some before)
    (h : network.opened = cluster.network.opened) (next : RunningWorker) :
    cluster.Carries { cluster with network, workers := cluster.workers.insert inbox next } := by
  refine ⟨rfl, rfl, h, fun {other found} hget => ?_⟩
  rw [SortedMap.get?_insert] at hget
  split at hget
  · rename_i hsame
    exact ⟨before, hsame ▸ hbefore⟩
  · exact ⟨found, hget⟩

end Carries

section Frames

variable {cluster after : Cluster} {inbox : InboxId}

/-- A receipt leaves registers and inboxes as they are. -/
theorem deliver_carries (cluster : Cluster) (receipt : Ticket × Receipt) :
    cluster.Carries (cluster.deliver receipt) := by
  unfold deliver
  split
  · exact .withCalls cluster _ _
  · exact .refl cluster

/-- Receipts leave registers and inboxes as they are. -/
theorem foldl_deliver_carries {α : Type} (receipt : α → Ticket × Receipt) (items : List α)
    (cluster : Cluster) :
    cluster.Carries (items.foldl (fun cluster item => cluster.deliver (receipt item)) cluster) := by
  induction items generalizing cluster with
  | nil => exact .refl cluster
  | cons item rest ih => exact (deliver_carries cluster _).trans (ih _)

/-- A worker that is dropped leaves registers and inboxes as they are. -/
theorem dropWorker_carries (cluster : Cluster) (inbox : InboxId) :
    cluster.Carries (cluster.dropWorker inbox) := by
  unfold dropWorker
  split
  · exact .refl cluster
  · have hgone : cluster.Carries { cluster with
        workers := cluster.workers.erase inbox
        network := cluster.network.discard inbox } := by
      refine ⟨rfl, rfl, rfl, fun {other running} hget => ?_⟩
      rw [SortedMap.get?_erase] at hget
      split at hget
      · cases hget
      · exact ⟨running, hget⟩
    exact hgone.trans (foldl_deliver_carries (fun ticket => (ticket, .abandoned)) _ _)

/-- A worker that stops leaves registers and inboxes as they are, and opens none. -/
theorem stopWorker_carries (cluster : Cluster) (inbox : InboxId) :
    cluster.Carries (cluster.stopWorker inbox) := by
  unfold stopWorker
  split
  · exact .refl cluster
  · rename_i worker _ _ _
    have hclosed : cluster.Carries { cluster with
        network := cluster.network.detach worker.group worker.member } := .withNetwork rfl
    exact hclosed.trans (dropWorker_carries _ inbox)

/-- Messages open no inbox. -/
theorem foldl_send_opened (group : GroupId) (messages : List Message) (network : Network Message) :
    (messages.foldl (fun network message =>
      match message.source, message.target with
      | some source, some target => network.send group source target message
      | _, _ => network) network).opened = network.opened := by
  induction messages generalizing network with
  | nil => rfl
  | cons message rest ih =>
    rw [List.foldl_cons, ih]
    split
    · rename_i source target _ _
      obtain ⟨inboxes, hsend⟩ := network.send_eq group source target message
      rw [hsend]
    · rfl

/-- The turn of a worker leaves registers and inboxes as they are. -/
theorem turn_carries {event : WorkerEvent} (h : cluster.turn inbox event = some after) :
    cluster.Carries after := by
  unfold turn at h
  split at h
  · cases h
    exact .refl cluster
  rename_i running hrunning
  obtain ⟨result, -, hrest⟩ := Option.bind_eq_some_iff.mp h
  cases result with
  | ok worker =>
    cases hrest
    exact (Carries.withWorker hrunning (foldl_send_opened _ _ _) _).trans
      (foldl_deliver_carries (fun receipt => receipt) _ _)
  | error error =>
    cases hrest
    exact dropWorker_carries cluster inbox

/-- A request leaves registers and inboxes as they are. -/
theorem request_carries {id : CallId} {call : Call} (h : cluster.request id call = some after) :
    cluster.Carries after := by
  have hcall (call : Call) : cluster.Carries (cluster.putCall id call) := .withCalls cluster _ _
  have hask {inbox : InboxId} (h : cluster.ask id call inbox = some after) :
      cluster.Carries after := by
    cases hrunning : cluster.workers.contains inbox with
    | true =>
      rw [ask_of_running hrunning] at h
      exact (Carries.withCalls cluster _ _).trans (turn_carries h)
    | false =>
      rw [ask, if_neg (by simp [hrunning])] at h
      cases h
      exact hcall _
  have hmember {member : MemberId} (h : cluster.askMember id call member = some after) :
      cluster.Carries after := by
    unfold askMember at h
    split at h
    · exact hask h
    · cases h
      exact hcall _
    · cases h
      exact hcall _
  unfold request at h
  split at h
  · exact hask h
  · exact hmember h
  · exact hmember h

/-- All that a cluster does by itself leaves the registers alone. -/
theorem acrossMoves_carries : AcrossMoves Carries where
  refl := .refl
  trans := .trans
  turn _ := turn_carries
  receive cluster inbox := by
    obtain ⟨inboxes, hreceive⟩ := cluster.network.receive_eq inbox
    exact .withNetwork (by rw [hreceive])
  setTimers hrunning := .withWorker hrunning rfl _
  giveUp _ _ := .withCalls _ _ _
  resume _ _ := request_carries
  moveClock _ _ _ := ⟨rfl, rfl, rfl, fun {_ running} hget => ⟨running, hget⟩⟩

theorem begin_carries {call : Call} {id : CallId} (h : cluster.begin call = some (id, after)) :
    cluster.Carries after := by
  obtain ⟨between, hreact, hrest⟩ := Option.bind_eq_some_iff.mp h
  obtain ⟨asked, hrequest, hlast⟩ := Option.bind_eq_some_iff.mp hrest
  obtain ⟨last, hexchange, hdone⟩ := Option.bind_eq_some_iff.mp hlast
  cases hdone
  exact ((acrossMoves_carries.react hreact).trans (request_carries hrequest)).trans
    (acrossMoves_carries.exchange hexchange)

end Frames

/-- A cluster comes about. -/
inductive Arises : Cluster → Prop
  | start {members : List MemberId} {config : Config} {pace : Pace} {cluster : Cluster}
    (h : Cluster.start members config pace = .ok cluster) : Arises cluster
  /-- A member starts its part of a group, among any members. -/
  | create {cluster after : Cluster} {member : MemberId} {group : GroupId}
    {members : List MemberId} (h : Arises cluster)
    (hcreate : (cluster.createGroupAt member group members).run = some (.ok after)) : Arises after
  /-- A member ends its part of a group. -/
  | destroy {cluster : Cluster} (member : MemberId) (group : GroupId) (h : Arises cluster) :
    Arises (cluster.destroyGroup member group).2
  /-- Anything else happens. -/
  | carry {cluster after : Cluster} (h : Arises cluster) (hcarries : cluster.Carries after) :
    Arises after

/-- Each register belongs to its member and has the configuration of the cluster, and each running
    worker has an inbox that was opened. -/
structure Enrolled (cluster : Cluster) : Prop where
  manager : ∀ {member manager}, cluster.managers.get? member = some manager →
    manager.member = member ∧ manager.config = cluster.config
  opened : ∀ {inbox running}, cluster.workers.get? inbox = some running →
    inbox < cluster.network.opened

namespace Enrolled

variable {cluster after : Cluster}

/-- Registers stay in order through all that leaves them as they are. -/
theorem carry (h : cluster.Enrolled) (hcarries : cluster.Carries after) : after.Enrolled where
  manager hget := by
    rw [hcarries.config_eq]
    exact h.manager (hcarries.managers_eq ▸ hget)
  opened hget := by
    obtain ⟨_, hbefore⟩ := hcarries.running hget
    rw [hcarries.opened_eq]
    exact h.opened hbefore

/-- A member's register changes, and stays the member's. -/
theorem withManager (h : cluster.Enrolled) {member : MemberId} (manager : Manager)
    (hmember : manager.member = member) (hconfig : manager.config = cluster.config) :
    Enrolled { cluster with managers := cluster.managers.insert member manager } where
  manager hget := by
    rw [SortedMap.get?_insert] at hget
    split at hget
    · rename_i hsame
      cases hget
      exact ⟨hmember.trans hsame, hconfig⟩
    · exact h.manager hget
  opened hget := h.opened hget

/-- Registers stay in order as a group enters one under the newest inbox. -/
theorem enter (h : cluster.Enrolled) {member : MemberId} {manager : Manager} {group : GroupId}
    (hmanager : cluster.managers.get? member = some manager) (topology : Topology)
    (worker : Worker) : (cluster.enter member manager group topology worker).Enrolled where
  manager hget := by
    let registered := manager.register group ⟨cluster.network.opened, topology⟩
    obtain ⟨hmember, hconfig⟩ := h.manager hmanager
    exact (h.withManager registered hmember hconfig).manager hget
  opened {inbox running} hget := by
    show inbox < cluster.network.opened + 1
    replace hget := (SortedMap.get?_insert ..).symm.trans hget
    split at hget
    · rename_i hsame
      exact hsame ▸ Nat.lt_succ_self _
    · exact Nat.lt_succ_of_lt (h.opened hget)

/-- Registers stay in order as a group leaves one. -/
theorem destroy (h : cluster.Enrolled) (member : MemberId) (group : GroupId) :
    (cluster.destroyGroup member group).2.Enrolled := by
  unfold destroyGroup
  split
  · exact h
  · exact h
  · rename_i managed after hremove
    obtain ⟨manager, hmanager, hremoved⟩ : ∃ manager, cluster.managers.get? member = some manager ∧
        manager.remove group = some (managed, after) := by
      cases hfound : cluster.manager member with
      | error error =>
        rw [hfound] at hremove
        cases hremove
      | ok manager =>
        rw [hfound] at hremove
        exact ⟨manager, manager_eq_ok hfound, Except.ok.inj hremove⟩
    obtain ⟨found, -, hsame⟩ := Option.bind_eq_some_iff.mp hremoved
    cases hsame
    obtain ⟨hmember, hconfig⟩ := h.manager hmanager
    let left : Manager := { manager with groups := manager.groups.erase group }
    have hleft : Enrolled { cluster with managers := cluster.managers.insert member left } :=
      h.withManager left hmember hconfig
    exact (hleft.carry (stopWorker_carries _ managed.inbox)).carry (.withNetwork rfl)

/-- The empty registers at the start are in order. -/
theorem start {members : List MemberId} {config : Config} {pace : Pace}
    (h : Cluster.start members config pace = .ok cluster) : cluster.Enrolled := by
  obtain ⟨pairs, hpairs, hcluster⟩ := bind_eq_ok h
  cases hcluster
  refine ⟨fun {member manager} hget => ?_, nofun⟩
  obtain ⟨id, -, hnew⟩ := exists_of_mem_mapM hpairs (SortedMap.mem_of_get?_ofList hget)
  obtain ⟨created, hcreated, hpair⟩ := bind_eq_ok hnew
  cases hpair
  unfold Manager.new at hcreated
  cases hvalid : config.validate with
  | error error =>
    rw [hvalid] at hcreated
    cases hcreated
  | ok checked =>
    rw [hvalid] at hcreated
    cases hcreated
    exact ⟨rfl, rfl⟩

end Enrolled

/-- In every cluster that arises the registers are in order. -/
theorem Arises.enrolled {cluster : Cluster} (h : cluster.Arises) : cluster.Enrolled := by
  induction h with
  | start h => exact .start h
  | create _ hcreate ih =>
    obtain ⟨manager, topology, worker, hmanager, -, -, -, rfl⟩ := createGroupAt_eq_ok hcreate
    exact ih.enter hmanager topology worker
  | destroy member group _ ih => exact ih.destroy member group
  | carry _ hcarries ih => exact ih.carry hcarries

end Cluster

end Quorum
