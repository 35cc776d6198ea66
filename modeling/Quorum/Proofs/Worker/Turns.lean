import Quorum.Proofs.Worker.Callers
import Quorum.Proofs.Worker.Events

namespace Quorum

namespace Worker

/-- A part of a turn that spares the parked callers. Others may be told something. -/
structure SparesParked (worker after : Worker) : Prop where
  parked : after.parked = worker.parked
  receipts : worker.receipts <+: after.receipts

namespace SparesParked

variable {worker between after : Worker}

theorem refl (worker : Worker) : worker.SparesParked worker := ⟨rfl, List.prefix_rfl⟩

theorem trans (h : worker.SparesParked between) (hlater : between.SparesParked after) :
    worker.SparesParked after :=
  ⟨hlater.parked.trans h.parked, h.receipts.trans hlater.receipts⟩

theorem answer (worker : Worker) (ticket : Ticket) (outcome : Outcome) :
    worker.SparesParked (worker.answer ticket outcome) := ⟨rfl, List.prefix_append _ _⟩

theorem forsake (worker : Worker) (proposal : PendingProposal) :
    worker.SparesParked (worker.forsake proposal) := .answer worker _ _

/-- Steps that spare parked calls spare them in turn, by induction on the events. -/
theorem foldl {α : Type} {step : Worker → α → Worker}
    (h : ∀ worker event, SparesParked worker (step worker event)) (worker : Worker)
    (events : List α) : worker.SparesParked (events.foldl step worker) := by
  induction events generalizing worker with
  | nil => exact .refl worker
  | cons event rest ih => exact (h worker event).trans (ih _)

end SparesParked

/-- A worker goes on. It notes an applied entry, or it does something that spares its parked
    callers; the history grows by what befalls the callers of parked calls. -/
inductive Run (start : Worker) : List CallerEvent → Worker → Prop
  | start : Run start [] start
  | applied {history : List CallerEvent} {worker : Worker} (h : Run start history worker)
    (entry : AppliedEntry) :
    Run start (history ++ worker.callerEvents entry) (worker.noteApplied entry)
  | other {history : List CallerEvent} {worker after : Worker} (h : Run start history worker)
    (hspares : worker.SparesParked after) : Run start history after

/-- A run keeps the invariant it starts with, by induction on the run. -/
theorem Run.keeps {start worker : Worker} {history : List CallerEvent}
    (h : Run start history worker) (hstart : start.Keeps []) : worker.Keeps history := by
  induction h with
  | start => exact hstart
  | applied _ entry ih => exact (noteApplied_spec ih entry).1
  | other _ hspares ih =>
    intro uid
    rw [hspares.parked]
    exact ih uid

/-- What the history tells callers, they have been told, in this order. -/
theorem Run.told {start worker : Worker} {history : List CallerEvent}
    (h : Run start history worker) (hstart : start.Keeps []) :
    (CallerEvent.toldOver [] history).Sublist worker.receipts := by
  induction h with
  | start => exact List.nil_sublist _
  | applied hbefore entry ih =>
    obtain ⟨own, hreceipts, -⟩ := (noteApplied_spec (hbefore.keeps hstart) entry).2
    rw [hreceipts, CallerEvent.toldOver_append, List.nil_append]
    exact (ih.append (List.Sublist.refl _)).trans (List.sublist_append_left _ own)
  | other _ hspares ih => exact ih.trans hspares.receipts.sublist

section Frames

variable {worker after : Worker}

theorem track_spares (worker : Worker) (index : Nat) (proposal : PendingProposal) :
    worker.SparesParked (worker.track index proposal) := by
  unfold track
  cases worker.proposals.get? index with
  | none => exact ⟨rfl, List.prefix_rfl⟩
  | some older => exact ⟨rfl, List.prefix_append _ _⟩

theorem submit_spares {invocation : Invocation} {operation : Operation} {ticket : Ticket}
    {now : Millis} (h : worker.submit invocation operation ticket now = some after) :
    worker.SparesParked after := by
  have hnode (node : Node) : worker.SparesParked { worker with node } := ⟨rfl, List.prefix_rfl⟩
  have houtcome := submit_outcome h
  generalize worker.node.engine.log.since after.node.engine.log = entries at houtcome
  cases houtcome with
  | refused node failure => exact (hnode node).trans (.answer _ _ _)
  | proposed node index term hentry => exact (hnode node).trans (track_spares _ _ _)

theorem query_spares (worker : Worker) (operation : Operation) (policy : QueryPolicy)
    (ticket : Ticket) : worker.SparesParked (worker.query operation policy ticket) := by
  rcases worker.query_cases operation policy ticket with ⟨outcome, hanswered⟩ | hqueued
  · rw [hanswered]
    exact .answer worker _ _
  · rw [hqueued]
    exact ⟨rfl, List.prefix_rfl⟩

theorem handle_spares {event : WorkerEvent} {now : Millis}
    (h : worker.handle event now = some after) : worker.SparesParked after := by
  cases event with
  | submit invocation operation ticket => exact submit_spares h
  | query operation policy ticket =>
    cases h
    exact query_spares worker operation policy ticket
  | _ =>
    obtain ⟨node, rfl⟩ := handle_eq rfl h
    exact ⟨rfl, List.prefix_rfl⟩

theorem issueReads_spares (h : worker.issueReads = some after) : worker.SparesParked after := by
  unfold issueReads at h
  split at h
  · cases h
    exact .refl worker
  · obtain ⟨node, -, hrest⟩ := Option.bind_eq_some_iff.mp h
    cases hrest
    exact ⟨rfl, List.prefix_rfl⟩

theorem abandonLeadership_spares (worker : Worker) :
    worker.SparesParked worker.abandonLeadership := by
  have hcleared : worker.SparesParked
      { worker with proposals := ∅, reads := worker.reads.drain.2 } := ⟨rfl, List.prefix_rfl⟩
  exact (hcleared.trans (.foldl .forsake _ _)).trans (.foldl (fun _ _ => .answer _ _ _) _ _)

theorem observeRole_spares (worker : Worker) (now : Millis) :
    worker.SparesParked (worker.observeRole now) := by
  unfold observeRole
  simp only
  split
  · exact .refl worker
  · split
    · exact (abandonLeadership_spares worker).trans ⟨rfl, List.prefix_rfl⟩
    · exact ⟨rfl, List.prefix_rfl⟩

theorem resolveStale_spares (worker : Worker) : worker.SparesParked worker.resolveStale := by
  let isStale (index : Nat) := index ≤ worker.node.appliedIndex
  have hkept : worker.SparesParked
      { worker with proposals := worker.proposals.filter fun index _ => !isStale index } :=
    ⟨rfl, List.prefix_rfl⟩
  exact hkept.trans (.foldl .forsake _ _)

theorem serveReads_spares (worker : Worker) : worker.SparesParked worker.serveReads := by
  let reads := (worker.reads.ready (UInt64.ofNat worker.node.appliedIndex)).2
  have htaken : worker.SparesParked { worker with reads } := ⟨rfl, List.prefix_rfl⟩
  exact htaken.trans (.foldl (fun _ _ => .answer _ _ _) _ _)

theorem dispatch_spares {message : Consensus.Message}
    (h : worker.dispatch message = some (.ok after)) : worker.SparesParked after := by
  unfold dispatch at h
  split at h
  · obtain ⟨⟨taken, node⟩, -, hrest⟩ := Node.Call.bind_eq_ok h
    cases taken with
    | ok =>
      cases hrest
      exact ⟨rfl, List.prefix_rfl⟩
    | error error => cases hrest
  · cases h
    exact ⟨rfl, List.prefix_rfl⟩

theorem dispatchAll_spares {messages : List Consensus.Message}
    (h : messages.foldlM dispatch worker = some (.ok after)) : worker.SparesParked after := by
  induction messages generalizing worker with
  | nil =>
    cases h
    exact .refl _
  | cons message rest ih =>
    obtain ⟨between, hfirst, hrest⟩ := Node.Call.bind_eq_ok h
    exact (dispatch_spares hfirst).trans (ih hrest)

end Frames

/-- Noting the applied entries of a bundle is a part of a run. -/
theorem Run.noteAll {start worker : Worker} {history : List CallerEvent}
    (h : Run start history worker) (entries : List AppliedEntry) :
    ∃ later, Run start (history ++ later) (entries.foldl noteApplied worker) := by
  induction entries generalizing worker history with
  | nil => exact ⟨[], by simpa using h⟩
  | cons entry rest ih =>
    obtain ⟨later, hrest⟩ := ih (h.applied entry)
    exact ⟨worker.callerEvents entry ++ later, by rwa [← List.append_assoc]⟩

/-- A bundle is a run of caller events. -/
theorem Run.takeBundle {start worker after : Worker} {history : List CallerEvent}
    (h : Run start history worker) {bundle : Bundle} {now : Millis}
    (hbundle : worker.takeBundle bundle now = some (.ok after)) :
    ∃ later, Run start (history ++ later) after := by
  obtain ⟨sent, hsent, hrest⟩ := Node.Call.bind_eq_ok hbundle
  obtain ⟨later, hnoted⟩ := (h.other (dispatchAll_spares hsent)).noteAll bundle.applied
  let noted := bundle.applied.foldl noteApplied sent
  let reads := bundle.reads.foldl (fun reads read =>
    reads.confirm read.context (UInt64.ofNat read.index)) noted.reads
  have hconfirmed : noted.SparesParked { noted with reads } := ⟨rfl, List.prefix_rfl⟩
  cases hrest
  exact ⟨later, (((hnoted.other hconfirmed).other (observeRole_spares _ now)).other
    (resolveStale_spares _)).other (serveReads_spares _)⟩

/-- The ready loop is a run of caller events, by induction on its rounds. -/
theorem Run.processReady {start worker after : Worker} {history : List CallerEvent}
    (h : Run start history worker) {now : Millis} {rounds : Nat}
    (hready : worker.processReady now rounds = some (.ok after)) :
    ∃ later, Run start (history ++ later) after := by
  induction rounds generalizing worker history with
  | zero => cases hready
  | succ rounds ih =>
    obtain ⟨⟨bundle?, node⟩, -, hrest⟩ := Node.Call.bind_eq_ok hready
    have hnode : Run start history { worker with node } := h.other ⟨rfl, List.prefix_rfl⟩
    cases bundle? with
    | none =>
      cases hrest
      exact ⟨[], by simpa using hnode.other (observeRole_spares _ now)⟩
    | some bundle =>
      obtain ⟨taken, htaken, hlast⟩ := Node.Call.bind_eq_ok hrest
      obtain ⟨later, hbundle⟩ := hnode.takeBundle htaken
      obtain ⟨last, hrun⟩ := ih hbundle hlast
      exact ⟨later ++ last, by rwa [← List.append_assoc]⟩

/-- What a worker comes to does not depend on how many rounds it may take. -/
theorem processReady_of_le {worker : Worker} {now : Millis} {rounds more : Nat}
    {result : Except NodeError Worker} (hle : rounds ≤ more)
    (h : worker.processReady now rounds = some result) :
    worker.processReady now more = some result := by
  -- The induction is on the fewer rounds: they suffice, so the bundles run out before they do.
  induction rounds generalizing worker more with
  | zero => cases h
  | succ rounds ih =>
    cases more with
    | zero => omega
    | succ more =>
      have hfewer : rounds ≤ more := Nat.le_of_succ_le_succ hle
      refine Node.Call.bind_eq_some_of_imp h fun polled hrest => ?_
      obtain ⟨bundle?, node⟩ := polled
      cases bundle? with
      | none => exact hrest
      | some bundle =>
        exact Node.Call.bind_eq_some_of_imp hrest fun taken hlast => ih hfewer hlast

/-- A turn is a part of a run. -/
theorem Run.turn {start worker after : Worker} {history : List CallerEvent}
    (h : Run start history worker) {event : WorkerEvent} {now : Millis}
    (hturn : worker.turn event now = some (.ok after)) :
    ∃ later, Run start (history ++ later) after := by
  obtain ⟨handled, hhandled, hrest⟩ := Node.Call.bind_eq_ok hturn
  obtain ⟨issued, hissued, hready⟩ := Node.Call.bind_eq_ok hrest
  have hhandle := handle_spares (Node.Call.lift_eq_ok hhandled)
  have hissue := issueReads_spares (Node.Call.lift_eq_ok hissued)
  exact ((h.other hhandle).other hissue).processReady hready

/-- Takes events, one after the other. -/
def turns (worker : Worker) (events : List (WorkerEvent × Millis)) : Node.Call Worker :=
  events.foldlM (fun worker event => worker.turn event.1 event.2) worker

/-- Turns are a run of caller events, by induction on the turns. -/
theorem Run.turns {start worker after : Worker} {history : List CallerEvent}
    (h : Run start history worker) {events : List (WorkerEvent × Millis)}
    (hturns : worker.turns events = some (.ok after)) :
    ∃ later, Run start (history ++ later) after := by
  induction events generalizing worker history with
  | nil =>
    cases hturns
    exact ⟨[], by simpa using h⟩
  | cons event rest ih =>
    obtain ⟨between, hfirst, hrest⟩ := Node.Call.bind_eq_ok hturns
    obtain ⟨later, hturn⟩ := h.turn hfirst
    obtain ⟨last, hrun⟩ := ih hturn hrest
    exact ⟨later ++ last, by rwa [← List.append_assoc]⟩

/-- The answers to parked calls go by their tokens. At any moment of a run the caller that a worker
    keeps under a token is the one that was parked last since a call with the token was last
    answered; those that were parked before it have been told that nothing will follow, and what the
    history tells callers, they have been told in this order. When an entry is applied, the answers
    to parked calls are told to the callers that are kept under their tokens, whichever calls these
    made, and to nobody else; besides, at most the caller of the proposal for the entry's place is
    told something. -/
theorem answers_go_by_token {group : GroupId} {node : Node} {started : Millis}
    {history : List CallerEvent} {worker : Worker}
    (h : Run (new group node started) history worker) (entry : AppliedEntry) :
    (∀ uid, worker.parked.get? uid =
      (CallerEvent.waitingFor history uid).head?.map Caller.ticket) ∧
    (∀ uid, ∀ caller ∈ (CallerEvent.waitingFor history uid).tail,
      (caller.ticket, Receipt.abandoned) ∈ worker.receipts) ∧
    (CallerEvent.toldOver [] history).Sublist worker.receipts ∧
    ∃ own, (worker.noteApplied entry).receipts =
        worker.receipts ++ CallerEvent.toldOver history (worker.callerEvents entry) ++ own ∧
      (own = [] ∨ worker.parks? entry = none ∧ ∃ proposal outcome,
        worker.proposals.get? entry.index = some proposal ∧
          own = [(proposal.ticket, .outcome outcome)]) := by
  have hkeeps : worker.Keeps history := h.keeps (keeps_new group node started)
  have htold := h.told (keeps_new group node started)
  exact ⟨hkeeps, fun uid caller hmem =>
    htold.subset (CallerEvent.abandoned_of_overtaken history uid caller hmem), htold,
    (noteApplied_spec hkeeps entry).2⟩

/-- Two sessions make calls with the same token, which wait at different semaphores. -/
def sharedTokenEvents : List (WorkerEvent × Millis) :=
  let acquire (session : SessionId) (name : String) (ticket : Ticket) : WorkerEvent :=
    .submit { session := some session, uid := some (.ofNat 9) }
      (.semaphore name (.acquire 1 none)) ticket
  [(.campaign, 0), (.submit {} (.session (.create "a")) 1, 0),
    (.submit {} (.session (.create "b")) 2, 0), (acquire 1 "s" 3, 0), (acquire 2 "t" 4, 0)]

/-- An entry that answers a call with that token. -/
def grantEntry : AppliedEntry where
  index := 100
  term := 1
  invocation := {}
  answer := .done (.ok (.bool true))
  notes := [⟨.ofNat 9, some 1, SemaphoreOp.acquireKind, .ok (.bool true)⟩]

/-- A worker of a group of one that has taken events. -/
def soleAfter (events : List (WorkerEvent × Millis)) : Option Worker :=
  let started : Node.Call Worker := do
    let node ← Node.new 1 [1] {}
    (new .default node 0).turns events
  started.run.bind Except.toOption

/-- A worker that has run from the start has such a run. -/
theorem run_of_soleAfter {events : List (WorkerEvent × Millis)} {worker : Worker}
    (h : soleAfter events = some worker) :
    ∃ (node : Node) (history : List CallerEvent), Run (new .default node 0) history worker := by
  obtain ⟨reached, hreached, hworker⟩ := Option.bind_eq_some_iff.mp h
  cases reached with
  | error error => cases hworker
  | ok reached =>
    cases hworker
    obtain ⟨node, -, hturns⟩ := Node.Call.bind_eq_ok hreached
    obtain ⟨history, hrun⟩ := Run.start.turns hturns
    exact ⟨node, history, hrun⟩

/-- Of two calls with one token the answer goes to the caller that was parked last. -/
theorem last_parked_answered :
    ∃ (node : Node) (history : List CallerEvent) (worker : Worker),
      Run (new .default node 0) history worker ∧
      (CallerEvent.waitingFor history (.ofNat 9)).head?.map Caller.ticket = some 4 ∧
      (worker.noteApplied grantEntry).receipts =
        worker.receipts ++ [(4, .outcome (.committed (.bool true)))] := by
  have hview : (soleAfter sharedTokenEvents).map (fun worker =>
      (worker.parked.get? (.ofNat 9), worker.proposals.get? grantEntry.index)) =
      some (some 4, none) := by
    decide +kernel
  obtain ⟨worker, hworker, hfields⟩ := Option.map_eq_some_iff.mp hview
  obtain ⟨hparked, hproposals⟩ := Prod.mk.inj hfields
  obtain ⟨node, history, hrun⟩ := run_of_soleAfter hworker
  obtain ⟨hkept, -, -, own, htold, hown⟩ := answers_go_by_token hrun grantEntry
  have hlast := (hkept (.ofNat 9)).symm.trans hparked
  have hparks : worker.parks? grantEntry = none := by rw [parks?, hproposals, Option.bind_none]
  have hnobody : own = [] := by
    rcases hown with hnil | ⟨-, proposal, outcome, hproposal, -⟩
    · exact hnil
    · rw [hproposals] at hproposal
      cases hproposal
  refine ⟨node, history, worker, hrun, hlast, ?_⟩
  obtain ⟨caller, hcaller, hticket⟩ := Option.map_eq_some_iff.mp hlast
  have hevents : worker.callerEvents grantEntry = grantEntry.notes.map .noted := by
    rw [callerEvents, hparks, Option.map_none, Option.toList_none, List.append_nil]
  rw [htold, hnobody, hevents, List.append_nil, ← hticket]
  simp only [grantEntry, List.map_cons, List.map_nil, CallerEvent.toldOver, CallerEvent.told,
    hcaller, List.append_nil]
  rfl

/-- The second caller takes the first one's place, and then the first call gets its permit. The
    second caller is told so, although its call waits still, and the first one hears nothing. -/
theorem answer_reaches_other_call :
    (soleAfter (sharedTokenEvents ++ [(.submit {} (.semaphore "s" (.init 1)) 5, 0)])).map
        (fun worker => (worker.receipts.drop 2,
          (worker.node.machine.semaphores.get? "t").map fun semaphore =>
            semaphore.waiters.map AcquireWaiter.session)) =
      some ([(3, .parked), (3, .abandoned), (4, .parked),
        (4, .outcome (.committed (.bool true))), (5, .outcome (.committed (.bool true)))],
        some [some 2]) := by
  decide +kernel

end Worker

end Quorum
