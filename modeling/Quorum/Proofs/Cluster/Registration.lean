import Quorum.Proofs.Cluster.Groups

namespace Quorum

open Consensus

/-- A member's register and the network, with the ends of groups that are under way. An end is known
    by its group and by the inbox of the worker that is to stop. -/
structure Member (μ : Type) where
  manager : Manager
  network : Network μ
  /-- The group has left the register, and its worker runs. -/
  stopping : List (GroupId × InboxId) := []
  /-- The worker has stopped, and the member has yet to close the inbox that the group has. -/
  closing : List (GroupId × InboxId) := []

/-- What happens to a member's groups. A group is created in one step: the register is locked
    meanwhile, and an inbox that is closed before its group is registered may as well be closed
    right after it. -/
inductive GroupStep where
  | create (group : GroupId) (members : List MemberId) (now : Millis)
  /-- An end begins: the group leaves the register. -/
  | remove (group : GroupId)
  /-- The worker of a removed group stops, and closes the inbox that its group has. -/
  | stop (group : GroupId) (inbox : InboxId)
  /-- The end of a group is over: the member closes the inbox that the group has. -/
  | close (group : GroupId) (inbox : InboxId)
  deriving DecidableEq

namespace Member

variable {μ : Type}

/-- Takes a step, if it is possible. A creation that is refused changes nothing. -/
def act (member : Member μ) : GroupStep → Option (Member μ)
  | .create group members now => do
    match ← ((member.manager.create member.network group members now).run :
        Option (Except ClusterError (Worker × InboxId × Manager × Network μ))) with
    | .error _ => return member
    | .ok (_, _, manager, network) => return { member with manager, network }
  | .remove group => do
    let (managed, manager) ← member.manager.remove group
    return { member with manager, stopping := (group, managed.inbox) :: member.stopping }
  | .stop group inbox =>
    if (group, inbox) ∈ member.stopping then
      some { member with
        network := (member.network.detach group member.manager.member).discard inbox
        stopping := member.stopping.erase (group, inbox)
        closing := (group, inbox) :: member.closing }
    else none
  | .close group inbox =>
    if (group, inbox) ∈ member.closing then
      some { member with
        network := member.network.detach group member.manager.member
        closing := member.closing.erase (group, inbox) }
    else none

/-- Takes steps, one after the other. -/
def run (member : Member μ) (steps : List GroupStep) : Option (Member μ) := steps.foldlM act member

theorem run_concat (member : Member μ) (steps : List GroupStep) (step : GroupStep) :
    member.run (steps ++ [step]) = (member.run steps).bind fun between => between.act step := by
  simp [run, List.foldlM_append]

/-- An end of the group is under way. -/
def Ending (member : Member μ) (group : GroupId) : Prop :=
  ∃ inbox, (group, inbox) ∈ member.stopping ∨ (group, inbox) ∈ member.closing

/-- The inbox that messages to the member's part of a group go to. -/
def inbox? (member : Member μ) (group : GroupId) : Option InboxId :=
  member.network.routes.get? (group, member.manager.member)

/-- Registers a group with a new inbox. -/
def enter (member : Member μ) (group : GroupId) (topology : Topology) : Member μ :=
  { member with
    manager := member.manager.register group ⟨member.network.opened, topology⟩
    network := (member.network.attach group member.manager.member).2 }

/-- All that a step can do. -/
inductive Acts (member : Member μ) : GroupStep → Member μ → Prop
  | refused {group : GroupId} {members : List MemberId} {now : Millis} :
      Acts member (.create group members now) member
  | created {group : GroupId} {members : List MemberId} {now : Millis} (topology : Topology)
      (hfree : member.manager.groups.get? group = none) :
      Acts member (.create group members now) (member.enter group topology)
  | removed {group : GroupId} {managed : ManagedGroup}
      (hregistered : member.manager.groups.get? group = some managed) :
      Acts member (.remove group) { member with
        manager := { member.manager with groups := member.manager.groups.erase group }
        stopping := (group, managed.inbox) :: member.stopping }
  | stopped {group : GroupId} {inbox : InboxId} (hstopping : (group, inbox) ∈ member.stopping) :
      Acts member (.stop group inbox) { member with
        network := (member.network.detach group member.manager.member).discard inbox
        stopping := member.stopping.erase (group, inbox)
        closing := (group, inbox) :: member.closing }
  | closed {group : GroupId} {inbox : InboxId} (hclosing : (group, inbox) ∈ member.closing) :
      Acts member (.close group inbox) { member with
        network := member.network.detach group member.manager.member
        closing := member.closing.erase (group, inbox) }

/-- What a step does to a member, as one of the listed actions. -/
theorem act_cases {member after : Member μ} {step : GroupStep} (h : member.act step = some after) :
    member.Acts step after := by
  cases step with
  | create group members now =>
    obtain ⟨result, hcreate, hrest⟩ := Option.bind_eq_some_iff.mp h
    cases result with
    | error error =>
      cases hrest
      exact .refused
    | ok created =>
      obtain ⟨topology, -, hfree, -, -, hmanager, hnetwork⟩ := Cluster.create_eq_ok hcreate
      obtain rfl := Option.some.inj hrest
      rw [hmanager, hnetwork]
      exact .created topology hfree
  | remove group =>
    obtain ⟨removed, hremove, hrest⟩ := Option.bind_eq_some_iff.mp h
    obtain ⟨managed, hregistered, hremoved⟩ := Option.bind_eq_some_iff.mp hremove
    cases hremoved
    cases hrest
    exact .removed hregistered
  | stop group inbox =>
    obtain ⟨hstopping, hafter⟩ := Option.ite_none_right_eq_some.mp h
    cases hafter
    exact .stopped hstopping
  | close group inbox =>
    obtain ⟨hclosing, hafter⟩ := Option.ite_none_right_eq_some.mp h
    cases hafter
    exact .closed hclosing

end Member

/-- The group that a step is about. -/
def GroupStep.group : GroupStep → GroupId
  | .create group _ _ | .remove group | .stop group _ | .close group _ => group

namespace Member

variable {μ : Type} {member after : Member μ} {step : GroupStep} {group : GroupId}

/-- A step leaves the other groups alone. -/
theorem Acts.of_other (h : member.Acts step after) (hother : step.group ≠ group) :
    after.manager.groups.get? group = member.manager.groups.get? group ∧
      after.inbox? group = member.inbox? group ∧ (after.Ending group ↔ member.Ending group) := by
  have hpair {named : GroupId} (hnamed : named ≠ group) {α : Type} (a b : α) :
      (group, a) ≠ (named, b) := fun heq => hnamed (Prod.mk.inj heq).1.symm
  cases h with
  | refused => exact ⟨rfl, rfl, .rfl⟩
  | @created named members now topology hfree =>
    have hnamed : named ≠ group := hother
    exact ⟨(SortedMap.get?_insert ..).trans (if_neg hnamed),
      (SortedMap.get?_insert ..).trans (if_neg (hpair hnamed _ _).symm), .rfl⟩
  | @removed named managed hregistered =>
    have hnamed : named ≠ group := hother
    refine ⟨(SortedMap.get?_erase ..).trans (if_neg hnamed), rfl, exists_congr fun inbox => ?_⟩
    rw [List.mem_cons, or_iff_right (hpair hnamed _ _)]
  | @stopped named stopped hstopping =>
    have hnamed : named ≠ group := hother
    refine ⟨rfl, (SortedMap.get?_erase ..).trans (if_neg (hpair hnamed _ _).symm),
      exists_congr fun inbox => ?_⟩
    show (group, inbox) ∈ member.stopping.erase (named, stopped) ∨
      (group, inbox) ∈ (named, stopped) :: member.closing ↔ _
    rw [List.mem_erase_of_ne (hpair hnamed _ _), List.mem_cons, or_iff_right (hpair hnamed _ _)]
  | @closed named closed hclosing =>
    have hnamed : named ≠ group := hother
    refine ⟨rfl, (SortedMap.get?_erase ..).trans (if_neg (hpair hnamed _ _).symm),
      exists_congr fun inbox => ?_⟩
    exact or_congr_right (List.mem_erase_of_ne (hpair hnamed _ _))

/-- A registered group of a member, where `contested` says whether an end of a predecessor was under
    way when it was created. -/
structure Housed (member : Member μ) (group : GroupId) (managed : ManagedGroup) (contested : Prop) :
    Prop where
  registered : member.manager.groups.get? group = some managed
  /-- An uncontested group keeps its inbox, as no end of it can be under way. -/
  kept : ¬ contested → member.inbox? group = some managed.inbox ∧ ¬ member.Ending group
  /-- A contested group has lost its inbox once no end is under way any more. -/
  lost : contested → member.Ending group ∨ member.inbox? group = none

variable {managed : ManagedGroup} {contested : Prop}

/-- A group keeps its worker and its inbox through the steps of others, until it is removed. -/
theorem Housed.act (h : member.Housed group managed contested) (hact : member.Acts step after)
    (hstays : step ≠ .remove group) : after.Housed group managed contested := by
  by_cases hgroup : step.group = group
  · cases hact with
    | refused => exact h
    | created topology hfree =>
      obtain rfl := hgroup
      cases hfree.symm.trans h.registered
    | removed hregistered => exact absurd (congrArg GroupStep.remove hgroup) hstays
    | stopped hstopping =>
      obtain rfl := hgroup
      have hending : member.Ending _ := ⟨_, .inl hstopping⟩
      exact ⟨h.registered, fun hnot => absurd hending (h.kept hnot).2,
        fun _ => .inl ⟨_, .inr List.mem_cons_self⟩⟩
    | closed hclosing =>
      obtain rfl := hgroup
      have hending : member.Ending _ := ⟨_, .inr hclosing⟩
      exact ⟨h.registered, fun hnot => absurd hending (h.kept hnot).2,
        fun _ => .inr ((SortedMap.get?_erase ..).trans (if_pos rfl))⟩
  · obtain ⟨hregister, hinbox, hending⟩ := hact.of_other hgroup
    exact ⟨hregister.trans h.registered, by rw [hinbox, hending]; exact h.kept,
      by rw [hinbox, hending]; exact h.lost⟩

/-- A group that is registered after a step was so before, or the step creates it. -/
theorem Acts.housed (hact : member.Acts step after)
    (hregistered : after.manager.groups.get? group = some managed) :
    (member.manager.groups.get? group = some managed ∧ step ≠ .remove group) ∨
      ∃ members now, step = .create group members now ∧ member.manager.groups.get? group = none ∧
        after.Housed group managed (member.Ending group) := by
  by_cases hgroup : step.group = group
  · cases hact with
    | refused => exact .inl ⟨hregistered, GroupStep.noConfusion⟩
    | @created named members now topology hfree =>
      obtain rfl := hgroup
      obtain rfl := Option.some.inj ((SortedMap.get?_insert_self ..).symm.trans hregistered)
      refine .inr ⟨members, now, rfl, hfree, hregistered, fun hnot => ⟨?_, hnot⟩, .inl⟩
      exact SortedMap.get?_insert_self ..
    | removed hbefore =>
      obtain rfl := hgroup
      cases ((SortedMap.get?_erase ..).trans (if_pos rfl)).symm.trans hregistered
    | stopped hstopping => exact .inl ⟨hregistered, GroupStep.noConfusion⟩
    | closed hclosing => exact .inl ⟨hregistered, GroupStep.noConfusion⟩
  · refine .inl ⟨(hact.of_other hgroup).1.symm.trans hregistered, ?_⟩
    rintro rfl
    exact hgroup rfl

/-- Each registered group was created by a step of the run, and is not removed since. -/
theorem exists_housed {start member : Member μ} {steps : List GroupStep}
    (hempty : start.manager.groups = ∅) (hrun : start.run steps = some member)
    (hregistered : member.manager.groups.get? group = some managed) :
    ∃ before members now later earlier,
      steps = before ++ .create group members now :: later ∧ .remove group ∉ later ∧
      start.run before = some earlier ∧ earlier.manager.groups.get? group = none ∧
      member.Housed group managed (earlier.Ending group) := by
  induction steps using List.reverseRecOn generalizing member with
  | nil =>
    cases hrun
    rw [hempty] at hregistered
    cases hregistered
  | append_singleton steps step ih =>
    rw [run_concat] at hrun
    obtain ⟨between, hbetween, hact⟩ := Option.bind_eq_some_iff.mp hrun
    rcases (act_cases hact).housed hregistered with
      ⟨hbefore, hstays⟩ | ⟨members, now, rfl, hfree, hhoused⟩
    · obtain ⟨before, members, now, later, earlier, rfl, hlater, hearlier, hfree, hhoused⟩ :=
        ih hbetween hbefore
      refine ⟨before, members, now, later ++ [step], earlier, by simp, ?_, hearlier, hfree,
        hhoused.act (act_cases hact) hstays⟩
      simp [hlater, hstays.symm]
    · exact ⟨steps, members, now, [], between, rfl, List.not_mem_nil, hbetween, hfree, hhoused⟩

/-- A member starts without groups, and creates and ends some, with the steps of each call anywhere
    among those of the others. Every group that is registered when no end of it is under way was
    created at some step and not removed since. It has the inbox of its worker, and can be reached
    there, if no end of a predecessor was under way when it was created. Otherwise it has none, and
    whatever is sent to it is lost. -/
theorem registered_inbox {start member : Member μ} {steps : List GroupStep}
    (hempty : start.manager.groups = ∅) (hrun : start.run steps = some member) {group : GroupId}
    {managed : ManagedGroup} (hregistered : member.manager.groups.get? group = some managed)
    (hended : ¬ member.Ending group) :
    ∃ before members now later earlier,
      steps = before ++ .create group members now :: later ∧ .remove group ∉ later ∧
      start.run before = some earlier ∧ earlier.manager.groups.get? group = none ∧
      (¬ earlier.Ending group → member.inbox? group = some managed.inbox) ∧
      (earlier.Ending group → member.inbox? group = none) := by
  obtain ⟨before, members, now, later, earlier, hsteps, hlater, hearlier, hfree, hhoused⟩ :=
    exists_housed hempty hrun hregistered
  exact ⟨before, members, now, later, earlier, hsteps, hlater, hearlier, hfree,
    fun hpeace => (hhoused.kept hpeace).1,
    fun hending => (hhoused.lost hending).resolve_left hended⟩

/-- A member creates a group that it does not run, among members that make a topology. -/
theorem create_of_free {manager : Manager} {network : Network μ} {members : List MemberId}
    {now : Millis} {topology : Topology} {worker : Worker}
    (hfree : manager.groups.get? group = none)
    (htopology : Topology.ofMembers members = .ok topology)
    (hstart : Worker.start group manager.member topology manager.config now =
      some (.ok worker)) :
    manager.create network group members now =
      some (.ok (worker, network.opened, manager.register group ⟨network.opened, topology⟩,
        (network.attach group manager.member).2)) := by
  rw [Manager.create, htopology]
  simp only [SortedMap.contains, hfree, hstart]
  rfl

/-- A free group is created if its members form a topology and its worker starts. -/
theorem act_create {members : List MemberId} {now : Millis} {topology : Topology} {worker : Worker}
    (hfree : member.manager.groups.get? group = none)
    (htopology : Topology.ofMembers members = .ok topology)
    (hstart : Worker.start group member.manager.member topology member.manager.config now =
      some (.ok worker)) :
    member.act (.create group members now) = some (member.enter group topology) := by
  rw [act, create_of_free hfree htopology hstart]
  rfl

/-- A member that has no groups yet. -/
def newcomer : Member Nat := { manager := { member := 2, config := {} }, network := ∅ }

def trio : Topology := ⟨[1, 2, 3], by decide, by decide⟩

theorem ofMembers_trio : Topology.ofMembers [1, 2, 3] = .ok trio := by
  have hsorted : Topology.sorted [1, 2, 3] = [1, 2, 3] := List.mergeSort_of_pairwise (by decide)
  simp [Topology.ofMembers, hsorted, trio]

/-- In a group of three each member can start its worker. -/
theorem exists_start_trio : ∀ member ∈ trio.members,
    ∃ worker, Worker.start .default member trio {} 0 = some (.ok worker) := by
  have hstarts : (trio.members.all fun member =>
      (Worker.start .default member trio {} 0).run.any Except.isOk) = true := by decide +kernel
  intro member hmember
  obtain ⟨started, hstart, hok⟩ :=
    (Option.any_eq_true ..).mp (List.all_eq_true.mp hstarts member hmember)
  cases started with
  | error error => cases hok
  | ok worker => exact ⟨worker, hstart⟩

/-- A new member can create a group of three. -/
theorem act_create_trio (member : Member Nat) (hmanager : member.manager = newcomer.manager) :
    member.act (.create .default [1, 2, 3] 0) = some (member.enter .default trio) := by
  obtain ⟨worker, hstart⟩ := exists_start_trio 2 (by decide)
  refine act_create ?_ ofMembers_trio (?_ : _ = some (Except.ok worker))
  · rw [hmanager]
    rfl
  · rw [hmanager]
    exact hstart

/-- A group is created again after the end of its predecessor. -/
theorem recreated_group_inbox :
    let group := GroupId.default
    let steps : List GroupStep :=
      [.create group [1, 2, 3] 0, .remove group, .stop group 0, .close group 0,
        .create group [1, 2, 3] 0]
    ∃ member managed, newcomer.run steps = some member ∧
      member.manager.groups.get? group = some managed ∧ ¬ member.Ending group ∧
      member.inbox? group = some managed.inbox ∧
      ∃ before members now later earlier,
        steps = before ++ .create group members now :: later ∧ .remove group ∉ later ∧
        newcomer.run before = some earlier ∧ earlier.manager.groups.get? group = none ∧
        (¬ earlier.Ending group → member.inbox? group = some managed.inbox) ∧
        (earlier.Ending group → member.inbox? group = none) := by
  intro group steps
  let ended : Member Nat :=
    { newcomer.enter group trio with
      manager := newcomer.manager
      network := (((newcomer.enter group trio).network.detach group 2).discard 0).detach group 2 }
  have hrun : newcomer.run steps = some (ended.enter group trio) :=
    calc newcomer.run steps
        = (newcomer.enter group trio).run (steps.drop 1) := by
          rw [run, List.foldlM_cons, act_create_trio newcomer rfl]
          rfl
      _ = ended.run (steps.drop 4) := rfl
      _ = some (ended.enter group trio) := by
          show ended.run [.create group [1, 2, 3] 0] = _
          rw [run, List.foldlM_cons, act_create_trio ended rfl]
          rfl
  have hregistered : (ended.enter group trio).manager.groups.get? group = some ⟨1, trio⟩ := rfl
  have hended : ¬ (ended.enter group trio).Ending group := by
    rintro ⟨inbox, hmem | hmem⟩ <;> cases hmem
  exact ⟨_, _, hrun, hregistered, hended, rfl, registered_inbox rfl hrun hregistered hended⟩

/-- A group is created again while the worker of its predecessor is about to stop. The end of the
    predecessor closes the new inbox, and a message to the new worker is lost. -/
theorem recreated_group_cut_off :
    let group := GroupId.default
    let steps : List GroupStep :=
      [.create group [1, 2, 3] 0, .remove group, .create group [1, 2, 3] 0, .stop group 0,
        .close group 0]
    ∃ member managed, newcomer.run steps = some member ∧ (∀ group, ¬ member.Ending group) ∧
      member.manager.groups.get? group = some managed ∧ member.inbox? group = none ∧
      ((member.network.send group 1 2 7).receive managed.inbox).1 = [] := by
  intro group steps
  let removed : Member Nat :=
    { newcomer.enter group trio with manager := newcomer.manager, stopping := [(group, 0)] }
  let severed : Member Nat :=
    { removed.enter group trio with
      network := (((removed.enter group trio).network.detach group 2).discard 0).detach group 2
      stopping := [] }
  have hrun : newcomer.run steps = some severed :=
    calc newcomer.run steps
        = (newcomer.enter group trio).run (steps.drop 1) := by
          rw [run, List.foldlM_cons, act_create_trio newcomer rfl]
          rfl
      _ = removed.run (steps.drop 2) := rfl
      _ = (removed.enter group trio).run (steps.drop 3) := by
          show removed.run [.create group [1, 2, 3] 0, .stop group 0, .close group 0] = _
          rw [run, List.foldlM_cons, act_create_trio removed rfl]
          rfl
      _ = some severed := rfl
  have hended : ∀ group, ¬ severed.Ending group := by
    rintro group ⟨inbox, hmem | hmem⟩ <;> cases hmem
  have hlost : ((severed.network.send group 1 2 7).receive 1).1 = [] := by decide +kernel
  exact ⟨severed, ⟨1, trio⟩, hrun, hended, rfl, by decide +kernel, hlost⟩

end Member

namespace Cluster

theorem foldl_deliver_network {α : Type} (receipt : α → Ticket × Receipt) (items : List α)
    (cluster : Cluster) :
    (items.foldl (fun cluster item => cluster.deliver (receipt item)) cluster).network =
      cluster.network := by
  induction items generalizing cluster with
  | nil => rfl
  | cons item rest ih =>
    have hdeliver : (cluster.deliver (receipt item)).network = cluster.network := by
      unfold deliver
      split <;> rfl
    exact (ih _).trans hdeliver

/-- A worker that stops detaches its place in its group and gives up its inbox. -/
theorem stopWorker_network {cluster : Cluster} {inbox : InboxId} {running : RunningWorker}
    (h : cluster.workers.get? inbox = some running) :
    (cluster.stopWorker inbox).network =
      (cluster.network.detach running.worker.group running.worker.member).discard inbox := by
  simp only [stopWorker, h, dropWorker]
  exact foldl_deliver_network (fun ticket => (ticket, .abandoned)) _ _

/-- The parts of a cluster's end of a group are the steps, one after the other. -/
theorem destroyGroup_eq_run {cluster : Cluster} {member : MemberId} {group : GroupId}
    {manager : Manager} {managed : ManagedGroup} {running : RunningWorker}
    (hmanager : cluster.managers.get? member = some manager) (hmember : manager.member = member)
    (hregistered : manager.groups.get? group = some managed)
    (hrunning : cluster.workers.get? managed.inbox = some running)
    (hgroup : running.worker.group = group) (howner : running.worker.member = member) :
    Member.run { manager, network := cluster.network }
        [.remove group, .stop group managed.inbox, .close group managed.inbox] =
      some
        { manager := { manager with groups := manager.groups.erase group }
          network := (cluster.destroyGroup member group).2.network } := by
  let left : Manager := { manager with groups := manager.groups.erase group }
  let started : Cluster := { cluster with managers := cluster.managers.insert member left }
  have hremove : manager.remove group = some (managed, left) := by
    rw [Manager.remove, hregistered]
    rfl
  have hdestroy : (cluster.destroyGroup member group).2.network =
      (started.stopWorker managed.inbox).network.detach group member := by
    simp only [destroyGroup, Cluster.manager, hmanager, Except.map, hremove]
    rfl
  have hstop : (started.stopWorker managed.inbox).network =
      (cluster.network.detach group member).discard managed.inbox := by
    rw [← hgroup, ← howner]
    exact stopWorker_network hrunning
  rw [hdestroy, hstop]
  simp [Member.run, Member.act, hremove, hmember, left]

end Cluster

end Quorum
