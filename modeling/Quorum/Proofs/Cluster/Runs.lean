import Quorum.Cluster.Groups
import Quorum.Cluster.Requests
import Quorum.Cluster.Time
import Quorum.Proofs.SortedMap
import Quorum.Proofs.Worker.Attempts

namespace Quorum

open Consensus

/-- A request of a call, and the entries that the member asked put at the end of its log for it. -/
structure Attempt where
  call : CallId
  entries : List Entry

namespace Cluster

/-- The entries that a demand, made at an inbox, would append. -/
def appendedAt (cluster : Cluster) (inbox : InboxId) (demand : Demand) : List Entry :=
  match cluster.workers.get? inbox with
  | some running => running.worker.appended (demand.event cluster.tickets) cluster.wall
  | none => []

/-- A worker appends nothing for a demand, or one entry that carries it. -/
theorem appendedAt_demand (cluster : Cluster) (inbox : InboxId) (demand : Demand) :
    cluster.appendedAt inbox demand = [] ∨
      ∃ entry, cluster.appendedAt inbox demand = [entry] ∧ demand.IsIn entry := by
  unfold appendedAt
  split
  · exact Worker.appended_demand _ demand _ _
  · exact .inl rfl

/-- The entries that a demand, made of a member, would append. -/
def appendedBy (cluster : Cluster) (member : MemberId) (group : GroupId) (demand : Demand) :
    List Entry :=
  match cluster.find member group with
  | .ok inbox => cluster.appendedAt inbox demand
  | .error _ => []

/-- The entries that the next request of a call would append. -/
def appended (cluster : Cluster) (call : Call) : List Entry :=
  match call.route with
  | .worker inbox => cluster.appendedAt inbox call.demand
  | .member member | .leader member _ => cluster.appendedBy member call.group call.demand

/-- A running worker takes a demand under a new ticket. -/
theorem ask_of_running {cluster : Cluster} {inbox : InboxId}
    (h : cluster.workers.contains inbox = true) (id : CallId) (call : Call) :
    cluster.ask id call inbox =
      ({ cluster with tickets := cluster.tickets + 1 }.putCall id
        { call with
          state := .waiting cluster.tickets
            (cluster.clock + cluster.config.submitTimeout.toNat) }).turn inbox
        (call.demand.event cluster.tickets) := by
  obtain ⟨group, demand, route, state⟩ := call
  rw [ask, if_pos h]
  cases demand <;> rfl

/-- A change that leaves calls alone, lets no worker take anything, and starts only new ones. -/
structure Rearranges (cluster after : Cluster) : Prop where
  calls : after.calls = cluster.calls
  tickets : after.tickets = cluster.tickets
  workers : ∀ inbox running, after.workers.get? inbox = some running →
    (∃ before, cluster.workers.get? inbox = some before ∧ running.worker = before.worker) ∨
      ∃ group node now, running.worker = .new group node now

/-- A step of a cluster, with the requests of calls that it makes. -/
inductive Step (cluster : Cluster) : List Attempt → Cluster → Prop
  /-- A worker takes an event that is nobody's request. -/
  | turn {inbox : InboxId} {event : WorkerEvent} {after : Cluster} (hevent : event.ticket? = none)
    (h : cluster.turn inbox event = some after) : Step cluster [] after
  /-- A call makes its first request. -/
  | begin {call : Call} {after : Cluster}
    (h : cluster.request cluster.calls.size call = some after) :
    Step cluster [⟨cluster.calls.size, cluster.appended call⟩] after
  /-- A call fails before its first request. -/
  | refuse {call : Call} {error : ClusterError} (hstate : call.state = .failed error) :
    Step cluster [] (cluster.putCall cluster.calls.size call)
  /-- A call makes its next request. -/
  | resume {id : CallId} {call : Call} {wake : Nat} {after : Cluster}
    (hcall : cluster.calls.get? id = some call) (hstate : call.state = .pausing wake)
    (h : cluster.request id call = some after) :
    Step cluster [⟨id, cluster.appended call⟩] after
  /-- A call no longer waits for an answer. -/
  | giveUp {id : CallId} {call : Call} {ticket : Ticket} {deadline : Nat}
    (hcall : cluster.calls.get? id = some call) (hstate : call.state = .waiting ticket deadline) :
    Step cluster [] (cluster.putCall id (call.giveUp cluster.members cluster.clock))
  /-- A worker stops. -/
  | stop (inbox : InboxId) : Step cluster [] (cluster.stopWorker inbox)
  | rearrange {after : Cluster} (h : cluster.Rearranges after) : Step cluster [] after

/-- Steps one after the other, with all requests that they make. -/
inductive Run (cluster : Cluster) : List Attempt → Cluster → Prop
  | start : Run cluster [] cluster
  | step {attempts later : List Attempt} {between after : Cluster}
    (h : Run cluster attempts between) (hstep : between.Step later after) :
    Run cluster (attempts ++ later) after

namespace Run

variable {cluster between after : Cluster} {attempts later : List Attempt}

/-- One step is a run. -/
theorem ofStep (h : cluster.Step attempts after) : cluster.Run attempts after := .step .start h

/-- Runs that follow each other are one. -/
theorem trans (h : cluster.Run attempts between) (hlater : between.Run later after) :
    cluster.Run (attempts ++ later) after := by
  induction hlater with
  | start =>
    rw [List.append_nil]
    exact h
  | step hrun hstep ih =>
    rw [← List.append_assoc]
    exact .step ih hstep

end Run

section Size

variable {cluster after : Cluster} {id : CallId} {old : Call}

theorem putCall_size (hcall : cluster.calls.get? id = some old) (call : Call) :
    (cluster.putCall id call).calls.size = cluster.calls.size :=
  SortedMap.size_insert_of_some hcall call

/-- A receipt makes no call. -/
theorem deliver_size (cluster : Cluster) (receipt : Ticket × Receipt) :
    (cluster.deliver receipt).calls.size = cluster.calls.size := by
  unfold deliver
  split
  · rename_i id call hfind
    exact putCall_size (SortedMap.get?_of_mem (List.mem_of_find?_eq_some hfind)) _
  · rfl

/-- Receipts make no call. -/
theorem foldl_deliver_size {α : Type} (receipt : α → Ticket × Receipt) (items : List α)
    (cluster : Cluster) :
    (items.foldl (fun cluster item => cluster.deliver (receipt item)) cluster).calls.size =
      cluster.calls.size := by
  induction items generalizing cluster with
  | nil => rfl
  | cons item rest ih => exact (ih _).trans (deliver_size cluster _)

/-- A worker that is dropped makes no call. -/
theorem dropWorker_size (cluster : Cluster) (inbox : InboxId) :
    (cluster.dropWorker inbox).calls.size = cluster.calls.size := by
  unfold dropWorker
  split
  · rfl
  · exact foldl_deliver_size (fun ticket => (ticket, .abandoned)) _ _

/-- A worker that stops makes no call. -/
theorem stopWorker_size (cluster : Cluster) (inbox : InboxId) :
    (cluster.stopWorker inbox).calls.size = cluster.calls.size := by
  unfold stopWorker
  split
  · rfl
  · exact dropWorker_size _ inbox

/-- The turn of a worker makes no call. -/
theorem turn_size {inbox : InboxId} {event : WorkerEvent}
    (h : cluster.turn inbox event = some after) : after.calls.size = cluster.calls.size := by
  unfold turn at h
  split at h
  · cases h
    rfl
  · obtain ⟨result, -, hrest⟩ := Option.bind_eq_some_iff.mp h
    cases result with
    | ok worker =>
      cases hrest
      exact foldl_deliver_size (fun receipt => receipt) _ _
    | error error =>
      cases hrest
      exact dropWorker_size cluster inbox

/-- A call that asks a worker makes no other call. -/
theorem ask_size (hcall : cluster.calls.get? id = some old) {call : Call} {inbox : InboxId}
    (h : cluster.ask id call inbox = some after) : after.calls.size = cluster.calls.size := by
  unfold ask at h
  split at h
  · exact (turn_size h).trans (putCall_size hcall _)
  · cases h
    exact putCall_size hcall _

/-- A call that makes a request makes no other call. -/
theorem request_size (hcall : cluster.calls.get? id = some old) {call : Call}
    (h : cluster.request id call = some after) : after.calls.size = cluster.calls.size := by
  have hmember {member : MemberId} (h : cluster.askMember id call member = some after) :
      after.calls.size = cluster.calls.size := by
    unfold askMember at h
    split at h
    · exact ask_size hcall h
    · cases h
      exact putCall_size hcall _
    · cases h
      exact putCall_size hcall _
  unfold request at h
  split at h
  · exact ask_size hcall h
  · exact hmember h
  · exact hmember h

end Size

/-- A run leads from one cluster to another, and begins no call. -/
structure Reaches (cluster after : Cluster) : Prop where
  run : ∃ attempts, cluster.Run attempts after
  size : after.calls.size = cluster.calls.size

namespace Reaches

variable {cluster between after : Cluster}

theorem refl (cluster : Cluster) : cluster.Reaches cluster := ⟨⟨[], .start⟩, rfl⟩

/-- What is reached from what is reached is reached. -/
theorem trans (h : cluster.Reaches between) (hlater : between.Reaches after) :
    cluster.Reaches after := by
  obtain ⟨⟨attempts, hrun⟩, hsize⟩ := h
  obtain ⟨⟨later, hrest⟩, hlast⟩ := hlater
  exact ⟨⟨attempts ++ later, hrun.trans hrest⟩, hlast.trans hsize⟩

end Reaches

/-- Rearranging the groups makes no call. -/
theorem Rearranges.reaches {cluster after : Cluster} (h : cluster.Rearranges after) :
    cluster.Reaches after :=
  ⟨⟨[], .ofStep (.rearrange h)⟩, by rw [h.calls]⟩

/-- A change of nothing that calls or workers are about. -/
theorem rearranges_of_eq {cluster after : Cluster} (hcalls : after.calls = cluster.calls)
    (htickets : after.tickets = cluster.tickets) (hworkers : after.workers = cluster.workers) :
    cluster.Rearranges after :=
  ⟨hcalls, htickets, fun _ running hget => .inl ⟨running, hworkers ▸ hget, rfl⟩⟩

/-- A turn that nobody asked for makes no call. -/
theorem turn_reaches {cluster after : Cluster} {inbox : InboxId} {event : WorkerEvent}
    (hevent : event.ticket? = none) (h : cluster.turn inbox event = some after) :
    cluster.Reaches after :=
  ⟨⟨[], .ofStep (.turn hevent h)⟩, turn_size h⟩

/-- A worker that stops leads on by a run without new calls. -/
theorem stopWorker_reaches (cluster : Cluster) (inbox : InboxId) :
    cluster.Reaches (cluster.stopWorker inbox) :=
  ⟨⟨[], .ofStep (.stop inbox)⟩, stopWorker_size cluster inbox⟩

/-- A change of the network leads on by a run without new calls. -/
theorem withNetwork_reaches (cluster : Cluster) (network : Network Message) :
    cluster.Reaches { cluster with network } :=
  Rearranges.reaches (rearranges_of_eq rfl rfl rfl)

/-- A relation that holds across every move that a cluster makes by itself, and across such moves
    one after the other. -/
structure AcrossMoves (R : Cluster → Cluster → Prop) : Prop where
  refl : ∀ cluster, R cluster cluster
  trans : ∀ {cluster between after}, R cluster between → R between after → R cluster after
  turn : ∀ {cluster after inbox event}, event.ticket? = none →
    cluster.turn inbox event = some after → R cluster after
  receive : ∀ cluster inbox, R cluster { cluster with network := (cluster.network.receive inbox).2 }
  /-- The timers of a worker are set anew. -/
  setTimers : ∀ {cluster inbox running}, cluster.workers.get? inbox = some running →
    R cluster { cluster with
      workers := cluster.workers.insert inbox (running.due cluster.config cluster.clock).2 }
  giveUp : ∀ {cluster id call ticket deadline}, cluster.calls.get? id = some call →
    call.state = .waiting ticket deadline →
    R cluster (cluster.putCall id (call.giveUp cluster.members cluster.clock))
  resume : ∀ {cluster after id call wake}, cluster.calls.get? id = some call →
    call.state = .pausing wake → cluster.request id call = some after → R cluster after
  moveClock : ∀ cluster time isAwaited, R cluster (cluster.moveClock time isAwaited)

namespace AcrossMoves

variable {R : Cluster → Cluster → Prop} {cluster after : Cluster} {inbox : InboxId}

/-- Many moves in turn. -/
theorem foldlM (hR : AcrossMoves R) {α : Type} {move : Cluster → α → Option Cluster}
    {items : List α}
    (hmove : ∀ item ∈ items, ∀ {cluster after}, move cluster item = some after →
      R cluster after)
    (h : items.foldlM move cluster = some after) : R cluster after := by
  induction items generalizing cluster with
  | nil =>
    cases h
    exact hR.refl _
  | cons item rest ih =>
    obtain ⟨between, hfirst, hrest⟩ := Option.bind_eq_some_iff.mp h
    obtain ⟨hitem, hitems⟩ := List.forall_mem_cons.mp hmove
    exact hR.trans (hitem hfirst) (ih hitems hrest)

/-- A relation across moves holds across the reading of an inbox. -/
theorem readInbox (hR : AcrossMoves R) (h : cluster.readInbox inbox = some after) :
    R cluster after :=
  hR.trans (hR.receive cluster inbox) (hR.foldlM (fun _ _ => hR.turn rfl) h)

/-- A relation across moves holds across an exchange of messages, by induction on its rounds. -/
theorem exchangeWithin (hR : AcrossMoves R) {rounds : Nat}
    (h : cluster.exchangeWithin rounds = some after) : R cluster after := by
  induction rounds generalizing cluster with
  | zero => cases h
  | succ rounds ih =>
    unfold Cluster.exchangeWithin at h
    split at h
    · obtain ⟨between, hread, hrest⟩ := Option.bind_eq_some_iff.mp h
      exact hR.trans (hR.foldlM (fun _ _ => hR.readInbox) hread) (ih hrest)
    · cases h
      exact hR.refl _

theorem exchange (hR : AcrossMoves R) (h : cluster.exchange = some after) : R cluster after :=
  hR.exchangeWithin h

/-- Timers are nobody's request. -/
theorem ticket?_of_mem_due {running : RunningWorker} {config : Config} {clock : Nat}
    {event : WorkerEvent} (h : event ∈ (running.due config clock).1) : event.ticket? = none := by
  rcases List.mem_append.mp h with htick | hcheck
  · rw [List.mem_ite_nil_right, List.mem_singleton] at htick
    rw [htick.2]
    rfl
  · rw [List.mem_ite_nil_right, List.mem_singleton] at hcheck
    rw [hcheck.2]
    rfl

/-- A relation across moves holds as the timers of a worker run. -/
theorem runTimers (hR : AcrossMoves R) (h : cluster.runTimers inbox = some after) :
    R cluster after := by
  unfold Cluster.runTimers at h
  split at h
  · cases h
    exact hR.refl _
  · rename_i running hrunning
    have hnobody : ∀ event ∈ (running.due cluster.config cluster.clock).1,
        event.ticket? = none := fun _ => ticket?_of_mem_due
    exact hR.trans (hR.setTimers hrunning)
      (hR.foldlM (fun event hmem => hR.turn (hnobody event hmem)) h)

/-- A relation across moves holds as the timer of a call runs. -/
theorem runCall (hR : AcrossMoves R) {id : CallId} (h : cluster.runCall id = some after) :
    R cluster after := by
  unfold Cluster.runCall at h
  split at h
  · cases h
    exact hR.refl _
  rename_i call hcall
  split at h
  · rename_i ticket deadline hstate
    split at h
    · cases h
      exact hR.giveUp hcall hstate
    · cases h
      exact hR.refl _
  · rename_i wake hstate
    split at h
    · exact hR.resume hcall hstate h
    · cases h
      exact hR.refl _
  · cases h
    exact hR.refl _

/-- A relation across moves holds across all that is due. -/
theorem react (hR : AcrossMoves R) (h : cluster.react = some after) : R cluster after := by
  obtain ⟨ticked, htimers, hrest⟩ := Option.bind_eq_some_iff.mp h
  obtain ⟨heard, hexchange, hcalls⟩ := Option.bind_eq_some_iff.mp hrest
  obtain ⟨moved, hmoved, hlast⟩ := Option.bind_eq_some_iff.mp hcalls
  have hquiet := hR.trans (hR.foldlM (fun _ _ => hR.runTimers) htimers) (hR.exchange hexchange)
  have hasked := hR.foldlM (fun _ _ => hR.runCall) hmoved
  exact hR.trans (hR.trans hquiet hasked) (hR.exchange hlast)

/-- A relation across moves holds as time passes, by induction on the steps. -/
theorem passUntil (hR : AcrossMoves R) {time steps : Nat}
    (h : cluster.passUntil time steps = some after) : R cluster after := by
  induction steps generalizing cluster with
  | zero => cases h
  | succ steps ih =>
    obtain ⟨between, hreact, hrest⟩ := Option.bind_eq_some_iff.mp h
    have hreacted := hR.react hreact
    split at hrest
    · cases hrest
      exact hreacted
    · exact hR.trans (hR.trans hreacted (hR.moveClock between _ _)) (ih hrest)

theorem pass (hR : AcrossMoves R) {span : Nat} (h : cluster.pass span = some after) :
    R cluster after := hR.passUntil h

/-- A relation across moves holds as time passes on a condition, by induction on the steps. -/
theorem passWhileWithin (hR : AcrossMoves R) {goOn isAwaited : Cluster → Bool} {steps : Nat}
    (h : Cluster.passWhileWithin goOn isAwaited cluster steps = some after) : R cluster after := by
  induction steps generalizing cluster with
  | zero => cases h
  | succ steps ih =>
    obtain ⟨between, hreact, hrest⟩ := Option.bind_eq_some_iff.mp h
    have hreacted := hR.react hreact
    split at hrest
    · cases hrest
      exact hreacted
    · exact hR.trans (hR.trans hreacted (hR.moveClock between _ _)) (ih hrest)

/-- A relation across moves holds as a leader is awaited, by induction on the looks. -/
theorem awaitLeaderUntil (hR : AcrossMoves R) {group : GroupId} {candidates : List MemberId}
    {limit : Millis} {deadline looks : Nat} {result : Except ClusterError MemberId}
    (h : cluster.awaitLeaderUntil group candidates limit deadline looks = some (result, after)) :
    R cluster after := by
  induction looks generalizing cluster with
  | zero =>
    cases h
    exact hR.refl _
  | succ looks ih =>
    obtain ⟨between, hreact, hrest⟩ := Option.bind_eq_some_iff.mp h
    have hreacted := hR.react hreact
    split at hrest
    · cases hrest
      exact hreacted
    · cases hrest
      exact hreacted
    · split at hrest
      · cases hrest
        exact hreacted
      · obtain ⟨passed, hpass, hlook⟩ := Option.bind_eq_some_iff.mp hrest
        exact hR.trans (hR.trans hreacted (hR.pass hpass)) (ih hlook)

theorem awaitLeader (hR : AcrossMoves R) {group : GroupId} {candidates : List MemberId}
    {limit : Millis} {result : Except ClusterError MemberId}
    (h : cluster.awaitLeader group candidates limit = some (result, after)) : R cluster after :=
  hR.awaitLeaderUntil h

/-- A relation across moves holds as sessions are awaited. -/
theorem awaitSessions (hR : AcrossMoves R) {member : MemberId} {group : GroupId} {count : Nat}
    {result : Except ClusterError Unit}
    (h : cluster.awaitSessions member group count = some (result, after)) : R cluster after := by
  obtain ⟨passed, hpass, hrest⟩ := Option.bind_eq_some_iff.mp h
  cases hrest
  exact hR.passWhileWithin hpass

/-- A relation across moves holds as the end of a call is awaited. -/
theorem join (hR : AcrossMoves R) {id : CallId} {result : Option (Except ClusterError Outcome)}
    (h : cluster.join id = some (result, after)) : R cluster after := by
  obtain ⟨passed, hpass, hrest⟩ := Option.bind_eq_some_iff.mp h
  cases hrest
  exact hR.passWhileWithin hpass

end AcrossMoves

/-- All that a cluster does by itself is a run that begins no call. -/
theorem acrossMoves_reaches : AcrossMoves Reaches where
  refl := .refl
  trans := .trans
  turn := turn_reaches
  receive cluster _ := cluster.withNetwork_reaches _
  setTimers {cluster inbox running} hrunning := by
    refine Rearranges.reaches ⟨rfl, rfl, fun other found hget => .inl ?_⟩
    rw [SortedMap.get?_insert] at hget
    split at hget
    · rename_i hsame
      cases hget
      exact ⟨running, hsame ▸ hrunning, rfl⟩
    · exact ⟨found, hget, rfl⟩
  giveUp hcall hstate := ⟨⟨[], .ofStep (.giveUp hcall hstate)⟩, putCall_size hcall _⟩
  resume hcall hstate h := ⟨⟨_, .ofStep (.resume hcall hstate h)⟩, request_size hcall h⟩
  moveClock _ _ _ := Rearranges.reaches (rearranges_of_eq rfl rfl rfl)

section Calls

variable {cluster after : Cluster}

/-- A call begins by a run. -/
theorem begin_run {call : Call} {id : CallId} (h : cluster.begin call = some (id, after)) :
    ∃ attempts, cluster.Run attempts after := by
  obtain ⟨between, hreact, hrest⟩ := Option.bind_eq_some_iff.mp h
  obtain ⟨asked, hrequest, hlast⟩ := Option.bind_eq_some_iff.mp hrest
  obtain ⟨last, hexchange, hdone⟩ := Option.bind_eq_some_iff.mp hlast
  cases hdone
  obtain ⟨⟨attempts, hrun⟩, hsize⟩ := acrossMoves_reaches.react hreact
  obtain ⟨⟨later, hquiet⟩, -⟩ := acrossMoves_reaches.exchange hexchange
  rw [← hsize] at hrequest
  exact ⟨_, (hrun.step (.begin hrequest)).trans hquiet⟩

theorem callWorker_run {inbox : InboxId} {group : GroupId} {demand : Demand} {id : CallId}
    (h : cluster.callWorker inbox group demand = some (id, after)) :
    ∃ attempts, cluster.Run attempts after := begin_run h

theorem callMember_run {member : MemberId} {group : GroupId} {demand : Demand} {id : CallId}
    (h : cluster.callMember member group demand = some (id, after)) :
    ∃ attempts, cluster.Run attempts after := begin_run h

/-- A call to the leader begins by a run. -/
theorem callLeader_run {group : GroupId} {demand : Demand} {limit : Millis} {id : CallId}
    (h : cluster.callLeader group demand limit = some (id, after)) :
    ∃ attempts, cluster.Run attempts after := by
  unfold callLeader at h
  simp only at h
  split at h
  · cases h
    exact ⟨_, .ofStep (.refuse rfl)⟩
  · exact begin_run h

end Calls

end Cluster

end Quorum
