import Mathlib.Data.List.Pairwise
import Quorum.Proofs.Worker.Rules
import Quorum.Proofs.Worker.Submissions

namespace Quorum

/-- The tickets of the submissions that were accepted. -/
def acceptedTickets (history : List SubmissionEvent) : List Ticket :=
  history.filterMap fun
    | .accepted submission => some submission.ticket
    | _ => none

theorem acceptedTickets_append (history later : List SubmissionEvent) :
    acceptedTickets (history ++ later) = acceptedTickets history ++ acceptedTickets later :=
  List.filterMap_append

theorem ticket_mem_acceptedTickets {history : List SubmissionEvent} {submission : Submission}
    (h : .accepted submission ∈ history) : submission.ticket ∈ acceptedTickets history :=
  List.mem_filterMap.mpr ⟨.accepted submission, h, rfl⟩

namespace Worker

/-- A part of a turn that leaves submissions alone. Others may be told something. -/
structure SparesSubmissions (worker after : Worker) (accepted : List Ticket) : Prop where
  proposals : after.proposals = worker.proposals
  parked : after.parked = worker.parked
  receipts : ∃ told, after.receipts = worker.receipts ++ told ∧
    ∀ receipt ∈ told, receipt.1 ∉ accepted

/-- A worker goes on. Its history is what settles submissions. -/
inductive SubmissionRun (start : Worker) : List SubmissionEvent → Worker → Prop
  | start : SubmissionRun start [] start
  /-- A submission is accepted, and nobody was told anything under its ticket. -/
  | accepted {history : List SubmissionEvent} {worker : Worker}
    (h : SubmissionRun start history worker) (submission : Submission)
    (hfresh : submission.ticket ∉ acceptedTickets history)
    (hunheard : ∀ receipt ∈ worker.receipts, receipt.1 ≠ submission.ticket) :
    SubmissionRun start (history ++ [.accepted submission])
      (worker.track submission.index submission.proposal)
  | applied {history : List SubmissionEvent} {worker : Worker}
    (h : SubmissionRun start history worker) (entry : AppliedEntry) :
    SubmissionRun start (history ++ [.applied entry]) (worker.noteApplied entry)
  | passed {history : List SubmissionEvent} {worker : Worker}
    (h : SubmissionRun start history worker) :
    SubmissionRun start (history ++ [.passed worker.node.appliedIndex]) worker.resolveStale
  /-- The lead is seen to be lost. The tickets of reads are not those of submissions. -/
  | deposed {history : List SubmissionEvent} {worker : Worker}
    (h : SubmissionRun start history worker)
    (hreads : ∀ read ∈ worker.reads.drain.1, read.ticket ∉ acceptedTickets history) :
    SubmissionRun start (history ++ [.deposed]) worker.abandonLeadership
  | other {history : List SubmissionEvent} {worker after : Worker}
    (h : SubmissionRun start history worker)
    (hspares : worker.SparesSubmissions after (acceptedTickets history)) :
    SubmissionRun start history after

/-- Only what was accepted is kept. -/
def acceptedRule (history : List SubmissionEvent) : CallerRule :=
  .ofTickets (· ∈ acceptedTickets history) (fun _ => True) (fun _ => True) (fun _ _ => trivial)
    fun _ _ => trivial

theorem Obeys.acceptedRule_append {worker : Worker} {history : List SubmissionEvent}
    (h : worker.Obeys (acceptedRule history)) (later : List SubmissionEvent) :
    worker.Obeys (acceptedRule (history ++ later)) := by
  have hmore (ticket : Ticket) (hmem : ticket ∈ acceptedTickets history) :
      ticket ∈ acceptedTickets (history ++ later) := by
    rw [acceptedTickets_append]
    exact List.mem_append_left _ hmem
  exact h.mono (fun kept => hmore kept.ticket) hmore (fun _ _ => trivial) fun _ _ _ => trivial

namespace SubmissionRun

variable {group : GroupId} {node : Node} {started : Millis} {history : List SubmissionEvent}
  {worker : Worker}

theorem obeys (h : SubmissionRun (new group node started) history worker) :
    worker.Obeys (acceptedRule history) := by
  induction h with
  | start => exact .new group node started
  | accepted _ submission _ _ ih =>
    refine (ih.acceptedRule_append _).track ?_
    change submission.ticket ∈ _
    rw [acceptedTickets_append]
    exact List.mem_append_right _ (List.mem_singleton_self _)
  | applied _ entry ih =>
    exact (ih.acceptedRule_append _).noteApplied ⟨fun _ _ => trivial, fun _ _ => trivial⟩
  | passed _ ih => exact (ih.acceptedRule_append _).resolveStale
  | deposed _ _ ih => exact (ih.acceptedRule_append _).abandonLeadership
  | other _ hspares ih =>
    refine ⟨?_, ?_, ReadQueue.all_true _, fun _ _ => trivial⟩
    · rw [hspares.proposals]
      exact ih.proposals
    · rw [hspares.parked]
      exact ih.parked

/-- A submission that has just been accepted is kept, under its ticket alone. -/
theorem fate_accepted (h : SubmissionRun (new group node started) history worker)
    {submission : Submission} (hfresh : submission.ticket ∉ acceptedTickets history)
    (hunheard : ∀ receipt ∈ worker.receipts, receipt.1 ≠ submission.ticket) :
    Fate (worker.track submission.index submission.proposal) submission none := by
  have hobeys := h.obeys
  have hfree : ∀ index proposal, worker.proposals.get? index = some proposal →
      proposal.ticket ≠ submission.ticket :=
    fun index proposal hget hsame => hfresh (hsame ▸ hobeys.proposals index proposal hget)
  have htold : worker.receiptsOf submission.ticket = [] := by
    rw [receiptsOf, List.map_eq_nil_iff]
    exact List.filter_eq_nil_iff.mpr fun receipt hmem => by simp [hunheard receipt hmem]
  have hinsert : ∀ between : Worker, between.proposals = worker.proposals →
      between.parked = worker.parked → between.receiptsOf submission.ticket = [] →
      Fate { between with
        proposals := between.proposals.insert submission.index submission.proposal }
        submission none := by
    intro between hproposals hparked hnothing
    refine .pending (fun index proposal => ?_) (fun uid hget => hfresh ?_) hnothing
    · change (between.proposals.insert submission.index submission.proposal).get? index = _ ∧ _ ↔ _
      rw [SortedMap.get?_insert, hproposals]
      split
      · rename_i hindex
        constructor
        · rintro ⟨hsome, -⟩
          exact ⟨hindex.symm, (Option.some.inj hsome).symm⟩
        · rintro ⟨-, rfl⟩
          exact ⟨rfl, rfl⟩
      · rename_i hother
        refine iff_of_false ?_ fun hsame => hother hsame.1.symm
        rintro ⟨hget, hsame⟩
        exact hfree index proposal hget hsame
    · exact hobeys.parked uid _ (hparked ▸ hget)
  unfold track
  cases hget : worker.proposals.get? submission.index with
  | none => exact hinsert worker rfl rfl htold
  | some older =>
    refine hinsert _ rfl rfl ?_
    rw [receiptsOf_tell_of_ne _ (hfree _ older hget)]
    exact htold

/-- A history that ends with an event, and an event in it. -/
theorem split_concat {earlier later : List SubmissionEvent} {last event : SubmissionEvent}
    (h : history ++ [last] = earlier ++ event :: later) :
    (later = [] ∧ history = earlier ∧ last = event) ∨
      ∃ before, later = before ++ [last] ∧ history = earlier ++ event :: before := by
  rcases List.eq_nil_or_concat' later with rfl | ⟨before, final, rfl⟩
  · obtain ⟨hhistory, hlast⟩ := List.append_inj' h rfl
    exact .inl ⟨rfl, hhistory, List.singleton_inj.mp hlast⟩
  · rw [← List.cons_append, ← List.append_assoc] at h
    obtain ⟨hhistory, hlast⟩ := List.append_inj' h rfl
    exact .inr ⟨before, by rw [List.singleton_inj.mp hlast], hhistory⟩

/-- What the caller of an accepted submission was told is decided by the first event that settles
    it. -/
theorem fate (h : SubmissionRun (new group node started) history worker)
    {earlier later : List SubmissionEvent} {submission : Submission}
    (hsplit : history = earlier ++ .accepted submission :: later) :
    Fate worker submission (later.findSome? submission.reply?) := by
  have hmove (before : List SubmissionEvent) (last : SubmissionEvent) :
      (before ++ [last]).findSome? submission.reply? =
        (before.findSome? submission.reply?).or (submission.reply? last) := by
    rw [List.findSome?_append, List.findSome?_singleton]
  have hown : ∀ history before, history = earlier ++ .accepted submission :: before →
      submission.ticket ∈ acceptedTickets history := by
    rintro history before rfl
    exact ticket_mem_acceptedTickets (by simp)
  -- The last event is the acceptance itself, or the acceptance is in what came before it.
  induction h generalizing later with
  | start => exact absurd hsplit (by simp)
  | accepted hrun other hfresh hunheard ih =>
    rcases split_concat hsplit with ⟨rfl, rfl, hlast⟩ | ⟨before, rfl, hbefore⟩
    · cases hlast
      exact hrun.fate_accepted hfresh hunheard
    · rw [hmove]
      refine (ih hbefore).track fun hsame => hfresh ?_
      rw [hsame]
      exact hown _ before hbefore
  | applied _ entry ih =>
    rcases split_concat hsplit with ⟨-, -, hlast⟩ | ⟨before, rfl, hbefore⟩
    · cases hlast
    · rw [hmove]
      exact (ih hbefore).noteApplied entry
  | passed _ ih =>
    rcases split_concat hsplit with ⟨-, -, hlast⟩ | ⟨before, rfl, hbefore⟩
    · cases hlast
    · rw [hmove]
      exact (ih hbefore).resolveStale
  | deposed _ hreads ih =>
    rcases split_concat hsplit with ⟨-, -, hlast⟩ | ⟨before, rfl, hbefore⟩
    · cases hlast
    · rw [hmove]
      refine (ih hbefore).abandonLeadership fun read hmem hsame => hreads read hmem ?_
      rw [hsame]
      exact hown _ before hbefore
  | other _ hspares ih =>
    obtain ⟨told, hreceipts, hothers⟩ := hspares.receipts
    refine (ih hsplit).spared ⟨fun _ _ _ => by rw [hspares.proposals], fun _ => by
      rw [hspares.parked], ?_⟩
    rw [receiptsOf, hreceipts, List.filter_append, List.map_append]
    have hnone : told.filter (fun receipt => receipt.1 = submission.ticket) = [] := by
      refine List.filter_eq_nil_iff.mpr fun receipt hmem hsame => hothers receipt hmem ?_
      rw [of_decide_eq_true hsame]
      exact hown _ later hsplit
    rw [hnone]
    exact List.append_nil _

end SubmissionRun

namespace SparesSubmissions

variable {worker between after : Worker} {accepted : List Ticket}

theorem of_eq (hproposals : after.proposals = worker.proposals)
    (hparked : after.parked = worker.parked) (hreceipts : after.receipts = worker.receipts) :
    worker.SparesSubmissions after accepted :=
  ⟨hproposals, hparked, [], by rw [hreceipts, List.append_nil], fun _ hmem => (nomatch hmem)⟩

theorem trans (h : worker.SparesSubmissions between accepted)
    (hlater : between.SparesSubmissions after accepted) :
    worker.SparesSubmissions after accepted := by
  obtain ⟨first, hfirst, hothers⟩ := h.receipts
  obtain ⟨second, hsecond, hrest⟩ := hlater.receipts
  refine ⟨hlater.proposals.trans h.proposals, hlater.parked.trans h.parked, first ++ second, ?_,
    List.forall_mem_append.mpr ⟨hothers, hrest⟩⟩
  rw [hsecond, hfirst, List.append_assoc]

theorem answer (worker : Worker) {ticket : Ticket} (hother : ticket ∉ accepted) (outcome : Outcome) :
    worker.SparesSubmissions (worker.answer ticket outcome) accepted :=
  ⟨rfl, rfl, [(ticket, .outcome outcome)], rfl, List.forall_mem_singleton.mpr hother⟩

theorem foldl_answer {α : Type} {ticket : α → Ticket} {outcome : Worker → α → Outcome}
    (worker : Worker) {items : List α} (hothers : ∀ item ∈ items, ticket item ∉ accepted) :
    worker.SparesSubmissions (items.foldl (fun worker item =>
      worker.answer (ticket item) (outcome worker item)) worker) accepted := by
  induction items generalizing worker with
  | nil => exact of_eq rfl rfl rfl
  | cons item rest ih =>
    obtain ⟨hitem, hrest⟩ := List.forall_mem_cons.mp hothers
    exact (answer worker hitem _).trans (ih _ hrest)

theorem dispatchAll {messages : List Consensus.Message}
    (h : messages.foldlM dispatch worker = some (.ok after)) :
    worker.SparesSubmissions after accepted := by
  induction messages generalizing worker with
  | nil =>
    cases h
    exact of_eq rfl rfl rfl
  | cons message rest ih =>
    obtain ⟨between, hfirst, hrest⟩ := Node.Call.bind_eq_ok h
    refine trans ?_ (ih hrest)
    unfold Worker.dispatch at hfirst
    split at hfirst
    · obtain ⟨⟨taken, node⟩, -, htaken⟩ := Node.Call.bind_eq_ok hfirst
      cases taken with
      | ok =>
        cases htaken
        exact of_eq rfl rfl rfl
      | error error => cases htaken
    · cases hfirst
      exact of_eq rfl rfl rfl

theorem issueReads (h : worker.issueReads = some after) :
    worker.SparesSubmissions after accepted := by
  unfold Worker.issueReads at h
  split at h
  · cases h
    exact of_eq rfl rfl rfl
  · obtain ⟨node, -, hrest⟩ := Option.bind_eq_some_iff.mp h
    cases hrest
    exact of_eq rfl rfl rfl

end SparesSubmissions

/-- Submissions and reads are kept under the tickets of requests, and nobody else is told
    anything. -/
def requestRule (events : List WorkerEvent) : CallerRule :=
  .ofTickets (fun ticket => ∃ invocation operation, .submit invocation operation ticket ∈ events)
    (fun ticket => ∃ operation policy, .query operation policy ticket ∈ events)
    (fun ticket => ∃ event ∈ events, event.ticket? = some ticket)
    (fun _ ⟨_, _, hmem⟩ => ⟨_, hmem, rfl⟩) fun _ ⟨_, _, hmem⟩ => ⟨_, hmem, rfl⟩

/-- A worker that has taken events whose requests have tickets of their own, as a run. -/
structure Progress (start : Worker) (events : List WorkerEvent) (history : List SubmissionEvent)
    (worker : Worker) : Prop where
  run : SubmissionRun start history worker
  obeys : worker.Obeys (requestRule events)
  accepted : ∀ submission, .accepted submission ∈ history →
    .submit submission.invocation submission.operation submission.ticket ∈ events
  distinct : (events.filterMap WorkerEvent.ticket?).Nodup

namespace Progress

variable {start worker after : Worker} {events : List WorkerEvent}
  {history : List SubmissionEvent}

/-- Two calls of a history have different tickets. -/
theorem eq_of_ticket? (h : Progress start events history worker) {first second : WorkerEvent}
    {ticket : Ticket} (hfirst : first ∈ events) (hsecond : second ∈ events)
    (hticket : first.ticket? = some ticket) (hother : second.ticket? = some ticket) :
    first = second := by
  have hpairs := List.pairwise_filterMap.mp h.distinct
  have hsymm : Std.Symm fun first second : WorkerEvent => ∀ ticket, first.ticket? = some ticket →
      ∀ other, second.ticket? = some other → ticket ≠ other :=
    ⟨fun _ _ hapart other hsecond ticket hfirst heq => hapart ticket hfirst other hsecond heq.symm⟩
  by_contra hne
  exact hpairs.forall hfirst hsecond hne ticket hticket ticket hother rfl

/-- An accepted submission was submitted with its ticket. -/
theorem submit_of_mem (h : Progress start events history worker) {ticket : Ticket}
    (hmem : ticket ∈ acceptedTickets history) :
    ∃ invocation operation, .submit invocation operation ticket ∈ events := by
  obtain ⟨event, hevent, hticket⟩ := List.mem_filterMap.mp hmem
  cases event with
  | accepted submission =>
    cases hticket
    exact ⟨_, _, h.accepted submission hevent⟩
  | applied entry => cases hticket
  | passed index => cases hticket
  | deposed => cases hticket

/-- The tickets of reads are not those of submissions. -/
theorem read_not_mem (h : Progress start events history worker) {read : QueuedRead}
    (hread : (requestRule events).read read) : read.ticket ∉ acceptedTickets history := by
  intro hmem
  obtain ⟨operation, policy, hquery⟩ := hread
  obtain ⟨invocation, submitted, hsubmit⟩ := h.submit_of_mem hmem
  cases h.eq_of_ticket? hquery hsubmit rfl rfl

/-- A step that spares the submissions accepted so far goes on with the same history. -/
theorem other (h : Progress start events history worker)
    (hobeys : after.Obeys (requestRule events))
    (hspares : worker.SparesSubmissions after (acceptedTickets history)) :
    Progress start events history after :=
  ⟨h.run.other hspares, hobeys, h.accepted, h.distinct⟩

/-- What settles submissions, and is not the acceptance of another one. -/
theorem extend (h : Progress start events history worker) {event : SubmissionEvent}
    (hevent : ∀ submission, event ≠ .accepted submission)
    (hrun : SubmissionRun start (history ++ [event]) after)
    (hobeys : after.Obeys (requestRule events)) :
    Progress start events (history ++ [event]) after := by
  refine ⟨hrun, hobeys, fun submission hmem => ?_, h.distinct⟩
  rcases List.mem_append.mp hmem with hold | hnew
  · exact h.accepted submission hold
  · exact absurd (List.mem_singleton.mp hnew).symm (hevent submission)

/-- An applied entry is one event. -/
theorem noteApplied (h : Progress start events history worker) (entry : AppliedEntry) :
    Progress start events (history ++ [.applied entry]) (worker.noteApplied entry) :=
  h.extend (fun _ => nofun) (h.run.applied entry)
    (h.obeys.noteApplied ⟨fun _ _ => trivial, fun _ _ => trivial⟩)

/-- Applied entries are events one after another, by induction on the entries. -/
theorem noteAll (h : Progress start events history worker) (entries : List AppliedEntry) :
    ∃ later, Progress start events (history ++ later) (entries.foldl Worker.noteApplied worker) := by
  induction entries generalizing worker history with
  | nil => exact ⟨[], by rwa [List.append_nil]⟩
  | cons entry rest ih =>
    obtain ⟨later, hrest⟩ := ih (h.noteApplied entry)
    exact ⟨[.applied entry] ++ later, by rwa [← List.append_assoc]⟩

/-- A changed role is an event only where leadership is lost. -/
theorem observeRole (h : Progress start events history worker) (now : Millis) :
    ∃ later, Progress start events (history ++ later) (worker.observeRole now) := by
  have hobeys := h.obeys.observeRole now
  unfold Worker.observeRole at hobeys ⊢
  simp only at hobeys ⊢
  split at hobeys
  · rename_i hsame
    rw [if_pos hsame]
    exact ⟨[], by rwa [List.append_nil]⟩
  · rename_i hchanged
    rw [if_neg hchanged]
    split at hobeys
    · rename_i hleader
      rw [if_pos hleader]
      have hreads : ∀ read ∈ worker.reads.drain.1, read.ticket ∉ acceptedTickets history :=
        fun read hmem => h.read_not_mem (h.obeys.reads.drain.1 read hmem)
      have hdeposed : Progress start events (history ++ [.deposed]) worker.abandonLeadership :=
        h.extend (fun _ => nofun) (h.run.deposed hreads) h.obeys.abandonLeadership
      exact ⟨[.deposed], hdeposed.other hobeys (.of_eq rfl rfl rfl)⟩
    · rename_i hfollower
      rw [if_neg hfollower]
      exact ⟨[], by simpa only [List.append_nil] using h.other hobeys (.of_eq rfl rfl rfl)⟩

/-- Resolving stale proposals is one event, at the applied index. -/
theorem resolveStale (h : Progress start events history worker) :
    Progress start events (history ++ [.passed worker.node.appliedIndex]) worker.resolveStale :=
  h.extend (fun _ => nofun) h.run.passed h.obeys.resolveStale

/-- Serving reads answers no submission. -/
theorem serveReads (h : Progress start events history worker) :
    Progress start events history worker.serveReads := by
  obtain ⟨hready, -⟩ := h.obeys.reads.ready (UInt64.ofNat worker.node.appliedIndex)
  let reads := (worker.reads.ready (UInt64.ofNat worker.node.appliedIndex)).2
  have htaken : worker.SparesSubmissions { worker with reads } (acceptedTickets history) :=
    .of_eq rfl rfl rfl
  exact h.other h.obeys.serveReads (htaken.trans (.foldl_answer _ fun read hmem =>
    h.read_not_mem (hready read hmem)))

/-- A bundle is a run of submission events. -/
theorem takeBundle (h : Progress start events history worker) {bundle : Bundle} {now : Millis}
    (hbundle : worker.takeBundle bundle now = some (.ok after)) :
    ∃ later, Progress start events (history ++ later) after := by
  obtain ⟨sent, hsent, hrest⟩ := Node.Call.bind_eq_ok hbundle
  have hdispatched := h.other (h.obeys.dispatchAll hsent) (.dispatchAll hsent)
  obtain ⟨noted, hnoted⟩ := hdispatched.noteAll bundle.applied
  have hconfirmed := hnoted.other (hnoted.obeys.confirmAll bundle.reads) (.of_eq rfl rfl rfl)
  obtain ⟨observed, hobserved⟩ := hconfirmed.observeRole now
  have hpassed := hobserved.resolveStale.serveReads
  cases hrest
  rw [List.append_assoc, List.append_assoc] at hpassed
  exact ⟨_, hpassed⟩

/-- The ready loop is a run of submission events, by induction on its rounds. -/
theorem processReady (h : Progress start events history worker) {now : Millis} {rounds : Nat}
    (hready : worker.processReady now rounds = some (.ok after)) :
    ∃ later, Progress start events (history ++ later) after := by
  induction rounds generalizing worker history with
  | zero => cases hready
  | succ rounds ih =>
    obtain ⟨⟨bundle?, node⟩, -, hrest⟩ := Node.Call.bind_eq_ok hready
    have hnode : Progress start events history { worker with node } :=
      h.other (h.obeys.withNode node) (.of_eq rfl rfl rfl)
    cases bundle? with
    | none =>
      cases hrest
      exact hnode.observeRole now
    | some bundle =>
      obtain ⟨taken, htaken, hlast⟩ := Node.Call.bind_eq_ok hrest
      obtain ⟨later, hbundle⟩ := hnode.takeBundle htaken
      obtain ⟨last, hrun⟩ := ih hbundle hlast
      exact ⟨later ++ last, by rwa [← List.append_assoc]⟩

/-- A request with a ticket that no earlier one had. -/
def IsFresh (events : List WorkerEvent) (event : WorkerEvent) : Prop :=
  ∀ ticket, event.ticket? = some ticket → ∀ earlier ∈ events, earlier.ticket? ≠ some ticket

theorem widen (h : Progress start events history worker) {event : WorkerEvent}
    (hfresh : IsFresh events event) : Progress start (events ++ [event]) history worker := by
  have hmem {other : WorkerEvent} (hother : other ∈ events) : other ∈ events ++ [event] :=
    List.mem_append_left _ hother
  refine ⟨h.run, ?_, fun submission haccepted => hmem (h.accepted submission haccepted), ?_⟩
  · exact h.obeys.mono (fun _ ⟨_, _, hsubmit⟩ => ⟨_, _, hmem hsubmit⟩)
      (fun _ ⟨_, _, hsubmit⟩ => ⟨_, _, hmem hsubmit⟩) (fun _ ⟨_, _, hquery⟩ => ⟨_, _, hmem hquery⟩)
      fun _ _ ⟨_, hevent, hticket⟩ => ⟨_, hmem hevent, hticket⟩
  · rw [List.filterMap_append, List.nodup_append]
    refine ⟨h.distinct, ?_, ?_⟩
    · cases hticket : event.ticket? with
      | none => simp [hticket]
      | some ticket => simp [hticket]
    · intro ticket hold other hnew heq
      obtain ⟨earlier, hearlier, hticket⟩ := List.mem_filterMap.mp hold
      obtain ⟨last, hlast, hother⟩ := List.mem_filterMap.mp hnew
      rw [List.mem_singleton.mp hlast] at hother
      exact hfresh other hother earlier hearlier (heq ▸ hticket)

/-- Nobody was told anything under a fresh ticket. -/
theorem unheard (h : Progress start events history worker) {event : WorkerEvent}
    (hfresh : IsFresh events event) {ticket : Ticket} (hticket : event.ticket? = some ticket) :
    ticket ∉ acceptedTickets history ∧ ∀ receipt ∈ worker.receipts, receipt.1 ≠ ticket := by
  constructor
  · intro hmem
    obtain ⟨invocation, operation, hsubmit⟩ := h.submit_of_mem hmem
    exact hfresh ticket hticket _ hsubmit rfl
  · intro receipt hmem hsame
    obtain ⟨earlier, hearlier, hother⟩ := h.obeys.receipts receipt hmem
    exact hfresh ticket hticket earlier hearlier (hsame ▸ hother)

/-- A submission is accepted, or answered at once and left out. -/
theorem submit (h : Progress start events history worker) {invocation : Invocation}
    {operation : Operation} {ticket : Ticket} {now : Millis}
    (hfresh : IsFresh events (.submit invocation operation ticket))
    (hsubmit : worker.submit invocation operation ticket now = some after) :
    ∃ later, Progress start (events ++ [.submit invocation operation ticket]) (history ++ later)
      after := by
  obtain ⟨hunknown, hunheard⟩ := h.unheard hfresh rfl
  have hwide := h.widen hfresh
  have hasked : (.submit invocation operation ticket : WorkerEvent) ∈
      events ++ [.submit invocation operation ticket] :=
    List.mem_append_right _ (List.mem_singleton_self _)
  have hobeys := hwide.obeys.submit
    ⟨fun _ => ⟨invocation, operation, hasked⟩, fun _ => ⟨_, hasked, rfl⟩⟩ hsubmit
  have hnode (node : Node) := hwide.other (hwide.obeys.withNode node) (.of_eq rfl rfl rfl)
  have houtcome := submit_outcome hsubmit
  generalize worker.node.engine.log.since after.node.engine.log = entries at houtcome
  cases houtcome with
  | refused node failure =>
    exact ⟨[], by
      simpa only [List.append_nil] using (hnode node).other hobeys (.answer _ hunknown _)⟩
  | proposed node index term hentry =>
    let submission : Submission := { index, term, invocation, operation, ticket }
    refine ⟨[.accepted submission], (hnode node).run.accepted submission hunknown hunheard, hobeys,
      fun other hmem => ?_, (hnode node).distinct⟩
    rcases List.mem_append.mp hmem with hold | hnew
    · exact (hnode node).accepted other hold
    · cases List.mem_singleton.mp hnew
      exact hasked

/-- A query is no submission. -/
theorem query (h : Progress start events history worker) {operation : Operation}
    {policy : QueryPolicy} {ticket : Ticket}
    (hfresh : IsFresh events (.query operation policy ticket)) :
    Progress start (events ++ [.query operation policy ticket]) history
      (worker.query operation policy ticket) := by
  obtain ⟨hunknown, -⟩ := h.unheard hfresh rfl
  have hwide := h.widen hfresh
  have hasked : (.query operation policy ticket : WorkerEvent) ∈
      events ++ [.query operation policy ticket] :=
    List.mem_append_right _ (List.mem_singleton_self _)
  refine hwide.other (hwide.obeys.query
    ⟨⟨operation, policy, hasked⟩, fun _ => ⟨_, hasked, rfl⟩⟩) ?_
  rcases worker.query_cases operation policy ticket with ⟨outcome, hanswered⟩ | hqueued
  · rw [hanswered]
    exact .answer worker hunknown _
  · rw [hqueued]
    exact .of_eq rfl rfl rfl

theorem handle (h : Progress start events history worker) {event : WorkerEvent} {now : Millis}
    (hfresh : IsFresh events event) (hhandle : worker.handle event now = some after) :
    ∃ later, Progress start (events ++ [event]) (history ++ later) after := by
  cases event with
  | submit invocation operation ticket => exact h.submit hfresh hhandle
  | query operation policy ticket =>
    cases hhandle
    exact ⟨[], by simpa only [List.append_nil] using h.query hfresh⟩
  | _ =>
    obtain ⟨node, rfl⟩ := handle_eq rfl hhandle
    have hwide := h.widen hfresh
    exact ⟨[], by
      simpa only [List.append_nil] using hwide.other (hwide.obeys.withNode node) (.of_eq rfl rfl rfl)⟩

/-- A turn is a run of submission events. -/
theorem turn (h : Progress start events history worker) {event : WorkerEvent} {now : Millis}
    (hfresh : IsFresh events event) (hturn : worker.turn event now = some (.ok after)) :
    ∃ later, Progress start (events ++ [event]) (history ++ later) after := by
  obtain ⟨handled, hhandled, hissue⟩ := Node.Call.bind_eq_ok hturn
  obtain ⟨issued, hissued, hready⟩ := Node.Call.bind_eq_ok hissue
  obtain ⟨first, hfirst⟩ := h.handle hfresh (Node.Call.lift_eq_ok hhandled)
  have hissued := Node.Call.lift_eq_ok hissued
  obtain ⟨later, hlater⟩ := (hfirst.other (hfirst.obeys.issueReads hissued)
    (.issueReads hissued)).processReady hready
  exact ⟨first ++ later, by rwa [← List.append_assoc]⟩

/-- The turns of a worker are a run, if every request has a ticket of its own. -/
theorem turns (h : Progress start events history worker) {taken : List (WorkerEvent × Millis)}
    (hdistinct : ((events ++ taken.map (·.1)).filterMap WorkerEvent.ticket?).Nodup)
    (hturns : worker.turns taken = some (.ok after)) :
    ∃ later, Progress start (events ++ taken.map (·.1)) (history ++ later) after := by
  induction taken generalizing worker events history with
  | nil =>
    cases hturns
    exact ⟨[], by simpa using h⟩
  | cons event rest ih =>
    obtain ⟨between, hfirst, hrest⟩ := Node.Call.bind_eq_ok hturns
    have hfresh : IsFresh events event.1 := by
      intro ticket hticket earlier hearlier hsame
      rw [List.filterMap_append, List.nodup_append] at hdistinct
      exact hdistinct.2.2 ticket (List.mem_filterMap.mpr ⟨earlier, hearlier, hsame⟩) ticket
        (List.mem_filterMap.mpr ⟨event.1, List.mem_cons_self, hticket⟩) rfl
    obtain ⟨later, hturn⟩ := h.turn hfresh hfirst
    rw [List.map_cons, List.append_cons] at hdistinct ⊢
    obtain ⟨last, hlast⟩ := ih hturn hdistinct hrest
    exact ⟨later ++ last, by rwa [← List.append_assoc]⟩

end Progress

theorem progress_new (group : GroupId) (node : Node) (started : Millis) :
    Progress (new group node started) [] [] (new group node started) :=
  ⟨.start, .new group node started, fun _ hmem => (nomatch hmem), List.nodup_nil⟩

theorem foldl_answer_kept {α : Type} {ticket : α → Ticket} {outcome : Worker → α → Outcome}
    (worker : Worker) (items : List α) :
    let after := items.foldl (fun worker item => worker.answer (ticket item) (outcome worker item))
      worker
    after.proposals = worker.proposals ∧ after.node = worker.node := by
  induction items generalizing worker with
  | nil => exact ⟨rfl, rfl⟩
  | cons item rest ih => exact ih _

theorem resolveStale_pending {worker : Worker} {index : Nat} {proposal : PendingProposal}
    (hget : worker.resolveStale.proposals.get? index = some proposal) :
    worker.resolveStale.node.appliedIndex < index := by
  let kept : Worker := { worker with
    proposals := worker.proposals.filter fun index _ => !decide (index ≤ worker.node.appliedIndex) }
  let given := (worker.proposals.filter fun index _ => index ≤ worker.node.appliedIndex).values
  obtain ⟨hproposals, -, hnode⟩ : worker.resolveStale.proposals = kept.proposals ∧ _ ∧
    worker.resolveStale.node = worker.node := forsakeAll_kept kept given
  rw [hproposals, SortedMap.get?_filter, Option.filter_eq_some_iff] at hget
  rw [hnode]
  exact Nat.not_le.mp (by simpa using hget.2)

/-- After a bundle nothing is pending up to the index that it leaves applied. -/
theorem takeBundle_pending {worker after : Worker} {bundle : Bundle} {now : Millis}
    (h : worker.takeBundle bundle now = some (.ok after)) {index : Nat} {proposal : PendingProposal}
    (hget : after.proposals.get? index = some proposal) : after.node.appliedIndex < index := by
  have hserved : ∀ resolved : Worker, after = resolved.resolveStale.serveReads →
      after.node.appliedIndex < index := by
    rintro resolved rfl
    let reads := resolved.resolveStale.reads.ready
      (UInt64.ofNat resolved.resolveStale.node.appliedIndex)
    obtain ⟨hproposals, hnode⟩ := foldl_answer_kept
      { resolved.resolveStale with reads := reads.2 } reads.1
    change resolved.resolveStale.serveReads.proposals = _ at hproposals
    change resolved.resolveStale.serveReads.node = _ at hnode
    rw [hproposals] at hget
    rw [hnode]
    exact resolveStale_pending hget
  obtain ⟨sent, -, hrest⟩ := Node.Call.bind_eq_ok h
  cases hrest
  exact hserved _ rfl

/-- Once the lead is seen to be lost, nothing is pending. -/
theorem observeRole_pending {worker : Worker} (hleader : worker.lastRole = .leader)
    (hlost : worker.node.role ≠ .leader ∨ worker.node.term ≠ worker.lastTerm) (now : Millis) :
    (worker.observeRole now).proposals = ∅ := by
  have hchanged : ¬ (worker.node.role = worker.lastRole ∧ worker.node.term = worker.lastTerm) := by
    rw [hleader]
    exact fun hsame => hlost.elim (absurd hsame.1) (absurd hsame.2)
  unfold observeRole
  simp only
  rw [if_neg hchanged, if_pos hleader]
  obtain ⟨hanswered, -⟩ := foldl_answer_kept (worker.proposals.values.foldl forsake
    { worker with proposals := ∅, reads := worker.reads.drain.2 }) worker.reads.drain.1
  exact hanswered.trans (forsakeAll_kept _ _).1

/-- What a submission's caller is told comes of its own entry, or says that the fate of the
    submission is not known, or that nothing will follow for another one has its place. -/
theorem reply?_cases {submission : Submission} {events : List SubmissionEvent} {receipt : Receipt}
    (h : events.findSome? submission.reply? = some receipt) :
    (∃ entry, .applied entry ∈ events ∧ entry.index = submission.index ∧
        entry.term = submission.term ∧ receipt = submission.replyTo entry) ∨
      receipt = submission.unknown ∨
      receipt = .abandoned ∧ ∃ other, .accepted other ∈ events ∧
        other.index = submission.index := by
  obtain ⟨event, hmem, hreply⟩ := List.exists_of_findSome?_eq_some h
  cases event with
  | accepted other =>
    obtain ⟨hindex, hreceipt⟩ := Option.ite_none_right_eq_some.mp hreply
    exact .inr (.inr ⟨(Option.some.inj hreceipt).symm, other, hmem, hindex⟩)
  | applied entry =>
    obtain ⟨hindex, hreceipt⟩ := Option.ite_none_right_eq_some.mp hreply
    by_cases hterm : entry.term = submission.term
    · exact .inl ⟨entry, hmem, hindex, hterm, (Option.some.inj hreceipt).symm⟩
    · refine .inr (.inl ?_)
      rw [← Option.some.inj hreceipt]
      exact if_pos (Ne.symm hterm)
  | passed index =>
    obtain ⟨-, hreceipt⟩ := Option.ite_none_right_eq_some.mp hreply
    exact .inr (.inl (Option.some.inj hreceipt).symm)
  | deposed => exact .inr (.inl (Option.some.inj hreply).symm)

/-- The caller of an accepted submission is told one thing, and a second one only if the first was
    that its call waits in a replica's queue. The submission is pending until then. The result of an
    entry, or that the call waits, is told only when an entry is applied that has the place and the
    term of the submission; else the caller is told that the fate of its call is not known, and
    whether it may repeat it, or is told nothing because another submission was accepted at its
    place. After a bundle nothing is pending up to the index that it leaves applied, and nothing at
    all once the lead is seen to be lost. -/
theorem answered_once_by_own_entry {group : GroupId} {node : Node} {started : Millis}
    {history earlier later : List SubmissionEvent} {worker : Worker} {submission : Submission}
    (h : SubmissionRun (new group node started) history worker)
    (hsplit : history = earlier ++ .accepted submission :: later) :
    let reply := later.findSome? submission.reply?
    (worker.proposals.get? submission.index = some submission.proposal ↔ reply = none) ∧
    (worker.receiptsOf submission.ticket = reply.toList ∨
      reply = some .parked ∧ ∃ last, worker.receiptsOf submission.ticket = [.parked, last]) ∧
    (∀ receipt, reply = some receipt →
      (∃ entry, .applied entry ∈ later ∧ entry.index = submission.index ∧
        entry.term = submission.term ∧ receipt = submission.replyTo entry) ∨
      receipt = .outcome (.indeterminate (submission.invocation.isRetrySafe ||
        submission.operation.isReadOnly)) ∨
      receipt = .abandoned ∧ ∃ other, .accepted other ∈ later ∧
        other.index = submission.index) ∧
    (∀ bundle now after, worker.takeBundle bundle now = some (.ok after) →
      ∀ index proposal, after.proposals.get? index = some proposal →
        after.node.appliedIndex < index) ∧
    (worker.lastRole = .leader →
      worker.node.role ≠ .leader ∨ worker.node.term ≠ worker.lastTerm →
      ∀ now, (worker.observeRole now).proposals = ∅) := by
  intro reply
  have hfate : Fate worker submission reply := h.fate hsplit
  exact ⟨hfate.get?_eq_some_iff, hfate.receiptsOf_eq, fun receipt => reply?_cases,
    fun bundle now after htaken index proposal => takeBundle_pending htaken,
    fun hleader hlost now => observeRole_pending hleader hlost now⟩

/-- A worker that has run from the start has such a history. -/
theorem progress_of_soleAfter {events : List (WorkerEvent × Millis)} {worker : Worker}
    (h : soleAfter events = some worker)
    (hdistinct : ((events.map (·.1)).filterMap WorkerEvent.ticket?).Nodup) :
    ∃ (node : Node) (history : List SubmissionEvent),
      Progress (new .default node 0) (events.map (·.1)) history worker := by
  obtain ⟨reached, hreached, hworker⟩ := Option.bind_eq_some_iff.mp h
  cases reached with
  | error error => cases hworker
  | ok reached =>
    cases hworker
    obtain ⟨node, -, hturns⟩ := Node.Call.bind_eq_ok hreached
    obtain ⟨history, hprogress⟩ := (progress_new .default node 0).turns hdistinct hturns
    exact ⟨node, history, hprogress⟩

/-- A leader has served two requests, and a third one is accepted at place 100. Its caller is told
    the result of its own entry. If another leader's entry is applied at the place, the caller is
    told that its call may have taken effect, and not to repeat it. -/
theorem release_answered_by_own_entry :
    let events : List (WorkerEvent × Millis) :=
      [(.campaign, 0), (.submit {} (.session (.create "a")) 1, 0),
        (.submit {} (.semaphore "s" (.init 0)) 2, 0)]
    let submission : Submission :=
      { index := 100, term := 1, invocation := {}, operation := .semaphore "s" (.release 1)
        ticket := 9 }
    let own : AppliedEntry :=
      { index := 100, term := 1, invocation := {}, answer := .done (.ok .unit), notes := [] }
    ∃ (node : Node) (history : List SubmissionEvent) (worker : Worker),
      soleAfter events = some worker ∧
      SubmissionRun (new .default node 0) history worker ∧
      let accepted := worker.track submission.index submission.proposal
      (accepted.noteApplied own).receiptsOf 9 = [.outcome (.committed .unit)] ∧
      (accepted.noteApplied { own with term := 2 }).receiptsOf 9 =
        [.outcome (.indeterminate false)] ∧
      (accepted.noteApplied { own with term := 2 }).proposals.get? 100 ≠
        some submission.proposal := by
  intro events submission own
  have hreached : (soleAfter events).isSome = true := by decide +kernel
  obtain ⟨worker, hworker⟩ := Option.isSome_iff_exists.mp hreached
  obtain ⟨node, history, hprogress⟩ := progress_of_soleAfter hworker (by decide)
  have hfresh : Progress.IsFresh (events.map (·.1))
      (.submit submission.invocation submission.operation submission.ticket) := by
    rintro ticket ⟨⟩
    decide
  obtain ⟨hunknown, hunheard⟩ := hprogress.unheard hfresh rfl
  have haccepted := hprogress.run.accepted submission hunknown hunheard
  have hsplit (entry : AppliedEntry) :
      history ++ [.accepted submission] ++ [.applied entry] =
        history ++ .accepted submission :: [.applied entry] := List.append_assoc _ _ _
  obtain ⟨-, htold, -⟩ := answered_once_by_own_entry (haccepted.applied own) (hsplit own)
  obtain ⟨hpending, hforeign, -⟩ := answered_once_by_own_entry
    (haccepted.applied { own with term := 2 }) (hsplit { own with term := 2 })
  have hresult : [SubmissionEvent.applied own].findSome? submission.reply? =
      some (.outcome (.committed .unit)) := rfl
  have hunsure : [SubmissionEvent.applied { own with term := 2 }].findSome? submission.reply? =
      some (.outcome (.indeterminate false)) := rfl
  rw [hresult] at htold
  rw [hunsure] at hpending hforeign
  refine ⟨node, history, worker, hworker, hprogress.run, ?_, ?_, ?_⟩
  · exact htold.resolve_right fun hparked => by cases hparked.1
  · exact hforeign.resolve_right fun hparked => by cases hparked.1
  · exact fun hget => by cases hpending.mp hget

end Worker

end Quorum
