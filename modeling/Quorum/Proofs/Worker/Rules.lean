import Quorum.Proofs.ReadQueue
import Quorum.Proofs.Replica
import Quorum.Proofs.Worker.Turns

namespace Quorum

/-- What a worker may keep, and what it may tell. -/
structure CallerRule where
  proposal : PendingProposal → Prop
  parked : Ticket → Prop
  read : QueuedRead → Prop
  told : Ticket → Receipt → Prop
  /-- The results that a replica may give to the callers of submissions. -/
  result : Reply → Prop
  forsaken {kept : PendingProposal} (h : proposal kept) :
    told kept.ticket (.outcome (.indeterminate kept.retryable))
  displaced {kept : PendingProposal} (h : proposal kept) : told kept.ticket .abandoned
  answered {kept : PendingProposal} (h : proposal kept) {reply : Reply} (hreply : result reply) :
    told kept.ticket (.outcome (.ofResult reply))
  parks {kept : PendingProposal} (h : proposal kept) :
    parked kept.ticket ∧ told kept.ticket .parked
  overtaken {ticket : Ticket} (h : parked ticket) : told ticket .abandoned
  noted {ticket : Ticket} (h : parked ticket) {reply : Reply} (hreply : result reply) :
    told ticket (.outcome (.ofResult reply))
  read_told {kept : QueuedRead} (h : read kept) (outcome : Outcome) :
    told kept.ticket (.outcome outcome)
  applied (machine : Machine) (command : Command) :
    (∀ reply, (machine.apply command).answer = .done reply → result reply) ∧
      ∀ note ∈ (machine.apply command).notes, result note.result

/-- What an event brings may be kept, and its caller may be told that it is refused. -/
def CallerRule.Admits (rule : CallerRule) : WorkerEvent → Prop
  | .submit invocation operation ticket =>
    (∀ term, rule.proposal { term, retryable := isRetryable invocation operation, ticket }) ∧
      ∀ failure, rule.told ticket (.outcome (.failed failure))
  | .query operation _ ticket =>
    rule.read { operation, ticket } ∧ ∀ outcome, rule.told ticket (.outcome outcome)
  | _ => True

namespace CallerRule

/-- The rule that some tickets may be kept by submissions and some by reads, and some be told
    anything. -/
def ofTickets (submits reads told : Ticket → Prop)
    (hsubmits : ∀ ticket, submits ticket → told ticket)
    (hreads : ∀ ticket, reads ticket → told ticket) : CallerRule where
  proposal kept := submits kept.ticket
  parked := submits
  read kept := reads kept.ticket
  told ticket _ := told ticket
  result _ := True
  forsaken h := hsubmits _ h
  displaced h := hsubmits _ h
  answered h _ _ := hsubmits _ h
  parks h := ⟨h, hsubmits _ h⟩
  overtaken h := hsubmits _ h
  noted h _ _ := hsubmits _ h
  read_told h _ := hreads _ h
  applied _ _ := ⟨fun _ _ => trivial, fun _ _ => trivial⟩

end CallerRule

/-- The results that an applied entry gives are as the rule has them. -/
structure AppliedEntry.Obeys (entry : AppliedEntry) (rule : CallerRule) : Prop where
  answer : ∀ reply, entry.answer = .done reply → rule.result reply
  notes : ∀ note ∈ entry.notes, rule.result note.result

section Entries

variable {rule : CallerRule}

/-- An entry is answered by the machine, whose answers the rule admits. -/
theorem Replica.applyEntry_obeys {replica after : Replica} {entry : Consensus.Entry}
    {applied : List AppliedEntry} (h : replica.applyEntry entry = .ok (after, applied)) :
    ∀ found ∈ applied, found.Obeys rule := by
  unfold Replica.applyEntry at h
  split at h
  · cases h
    exact fun found hmem => absurd hmem List.not_mem_nil
  · rename_i data _
    cases hdecode : Command.decode data with
    | error error =>
      rw [hdecode] at h
      cases h
    | ok command =>
      rw [hdecode] at h
      cases h
      intro found hmem
      obtain ⟨hanswer, hnotes⟩ := rule.applied replica.machine command
      rw [List.mem_singleton.mp hmem]
      exact ⟨hanswer, hnotes⟩

/-- Entries are answered by the machine in turn, by induction on them. -/
theorem Replica.applyEntries_obeys {replica after : Replica} {entries : List Consensus.Entry}
    {applied : List AppliedEntry} (h : replica.applyEntries entries = .ok (after, applied)) :
    ∀ found ∈ applied, found.Obeys rule := by
  induction entries generalizing replica applied with
  | nil =>
    cases h
    exact fun found hmem => absurd hmem List.not_mem_nil
  | cons entry rest ih =>
    obtain ⟨between, first, later, hfirst, hlater, rfl⟩ := applyEntries_cons_eq_ok h
    intro found hmem
    rcases List.mem_append.mp hmem with hnow | hthen
    · exact applyEntry_obeys hfirst found hnow
    · exact ih hlater found hthen

theorem Node.apply_obeys {node after : Node} {entries : List Consensus.Entry}
    {applied : List AppliedEntry} (h : node.apply entries = some (.ok (after, applied))) :
    ∀ found ∈ applied, found.Obeys rule := by
  unfold Node.apply at h
  split at h
  · rename_i happlied
    cases h
    exact Replica.applyEntries_obeys happlied
  · cases h

theorem Node.pollReady_obeys {node after : Node} {bundle : Bundle}
    (h : node.pollReady = some (.ok (bundle, after))) :
    ∀ found ∈ bundle.applied, found.Obeys rule := by
  obtain ⟨⟨batch, taken⟩, -, hstore⟩ := Node.Call.bind_eq_ok h
  obtain ⟨⟨stored, saved⟩, -, happly⟩ := Node.Call.bind_eq_ok hstore
  cases stored with
  | error error => cases happly
  | ok =>
    obtain ⟨⟨applied, first⟩, hfirst, hsettle⟩ := Node.Call.bind_eq_ok happly
    obtain ⟨⟨sequel, settled⟩, -, hcommit⟩ := Node.Call.bind_eq_ok hsettle
    obtain ⟨⟨noError, committed⟩, -, hagain⟩ := Node.Call.bind_eq_ok hcommit
    obtain ⟨⟨last, later⟩, hlater, hnote⟩ := Node.Call.bind_eq_ok hagain
    obtain ⟨⟨noAnswer, noted⟩, -, hdone⟩ := Node.Call.bind_eq_ok hnote
    cases hdone
    intro found hmem
    rcases List.mem_append.mp hmem with hnow | hthen
    · exact apply_obeys hfirst found hnow
    · exact apply_obeys hlater found hthen

/-- What a node hands out as applied went through the state machine. -/
theorem Node.poll_obeys {node after : Node} {bundle : Bundle}
    (h : node.poll = some (.ok (some bundle, after))) :
    ∀ found ∈ bundle.applied, found.Obeys rule := by
  unfold Node.poll at h
  split at h
  · obtain ⟨⟨polled, node⟩, hpolled, hrest⟩ := Node.Call.bind_eq_ok h
    cases hrest
    exact pollReady_obeys hpolled
  · cases h

end Entries

namespace Worker

/-- What the worker keeps, and has told so far, is as the rule has it. -/
structure Obeys (worker : Worker) (rule : CallerRule) : Prop where
  proposals : ∀ index kept, worker.proposals.get? index = some kept → rule.proposal kept
  parked : ∀ uid ticket, worker.parked.get? uid = some ticket → rule.parked ticket
  reads : worker.reads.All rule.read
  receipts : ∀ receipt ∈ worker.receipts, rule.told receipt.1 receipt.2

namespace Obeys

variable {worker after : Worker} {rule : CallerRule}

theorem new (group : GroupId) (node : Node) (now : Millis) :
    (Worker.new group node now).Obeys rule :=
  ⟨fun _ _ hget => (nomatch hget), fun _ _ hget => (nomatch hget), ReadQueue.all_empty,
    fun _ hmem => (nomatch hmem)⟩

/-- A worker that obeys a rule obeys one that allows more. -/
theorem mono (h : worker.Obeys rule) {other : CallerRule}
    (hproposal : ∀ kept, rule.proposal kept → other.proposal kept)
    (hparked : ∀ ticket, rule.parked ticket → other.parked ticket)
    (hread : ∀ kept, rule.read kept → other.read kept)
    (htold : ∀ ticket receipt, rule.told ticket receipt → other.told ticket receipt) :
    worker.Obeys other :=
  ⟨fun index kept hget => hproposal kept (h.proposals index kept hget),
    fun uid ticket hget => hparked ticket (h.parked uid ticket hget), h.reads.mono hread,
    fun receipt hmem => htold _ _ (h.receipts receipt hmem)⟩

theorem withNode (h : worker.Obeys rule) (node : Node) :
    { worker with node }.Obeys rule := ⟨h.proposals, h.parked, h.reads, h.receipts⟩

theorem withProposals (h : worker.Obeys rule) {proposals : SortedMap Nat PendingProposal}
    (hproposals : ∀ index kept, proposals.get? index = some kept → rule.proposal kept) :
    { worker with proposals }.Obeys rule := ⟨hproposals, h.parked, h.reads, h.receipts⟩

theorem withParked (h : worker.Obeys rule) {parked : SortedMap InvocationUid Ticket}
    (hparked : ∀ uid ticket, parked.get? uid = some ticket → rule.parked ticket) :
    { worker with parked }.Obeys rule := ⟨h.proposals, hparked, h.reads, h.receipts⟩

theorem withReads (h : worker.Obeys rule) {reads : ReadQueue QueuedRead}
    (hreads : reads.All rule.read) : { worker with reads }.Obeys rule :=
  ⟨h.proposals, h.parked, hreads, h.receipts⟩

/-- A worker may be told what the rule admits. -/
theorem tell (h : worker.Obeys rule) {ticket : Ticket} {receipt : Receipt}
    (htold : rule.told ticket receipt) : (worker.tell ticket receipt).Obeys rule := by
  refine ⟨h.proposals, h.parked, h.reads, fun other hmem => ?_⟩
  rcases List.mem_append.mp hmem with hold | hnew
  · exact h.receipts other hold
  · rw [List.mem_singleton.mp hnew]
    exact htold

theorem answer (h : worker.Obeys rule) {ticket : Ticket} {outcome : Outcome}
    (htold : rule.told ticket (.outcome outcome)) : (worker.answer ticket outcome).Obeys rule :=
  h.tell htold

/-- Telling many what the rule allows. -/
theorem foldl_answer {α : Type} {ticket : α → Ticket} {outcome : Worker → α → Outcome}
    (h : worker.Obeys rule) (items : List α)
    (htold : ∀ item ∈ items, ∀ outcome, rule.told (ticket item) (.outcome outcome)) :
    (items.foldl (fun worker item => worker.answer (ticket item) (outcome worker item))
      worker).Obeys rule := by
  induction items generalizing worker with
  | nil => exact h
  | cons item rest ih =>
    obtain ⟨hitem, hrest⟩ := List.forall_mem_cons.mp htold
    exact ih (h.answer (hitem _)) hrest

/-- A proposal that the rule admits may be tracked. -/
theorem track (h : worker.Obeys rule) {index : Nat} {kept : PendingProposal}
    (hkept : rule.proposal kept) : (worker.track index kept).Obeys rule := by
  have hinsert {between : Worker} (hbetween : between.Obeys rule) :
      { between with proposals := between.proposals.insert index kept }.Obeys rule :=
    hbetween.withProposals <| SortedMap.forall_insert hbetween.proposals hkept
  unfold Worker.track
  cases hget : worker.proposals.get? index with
  | none => exact hinsert h
  | some older => exact hinsert (h.tell (rule.displaced (h.proposals index older hget)))

/-- A notification reaches a parked ticket with a result that the rule admits. -/
theorem notify (h : worker.Obeys rule) {note : Notification} (hnote : rule.result note.result) :
    (worker.notify note).Obeys rule := by
  unfold Worker.notify
  cases hget : worker.parked.get? note.uid with
  | none => exact h
  | some ticket =>
    have herased := h.withParked (SortedMap.forall_erase h.parked note.uid)
    exact herased.answer (rule.noted (h.parked note.uid ticket hget) hnote)

theorem notifyAll (h : worker.Obeys rule) {notes : List Notification}
    (hnotes : ∀ note ∈ notes, rule.result note.result) :
    (notes.foldl Worker.notify worker).Obeys rule := by
  induction notes generalizing worker with
  | nil => exact h
  | cons note rest ih =>
    obtain ⟨hnote, hrest⟩ := List.forall_mem_cons.mp hnotes
    exact ih (h.notify hnote) hrest

/-- The ticket of an admitted proposal may be parked. -/
theorem park (h : worker.Obeys rule) {kept : PendingProposal} (hkept : rule.proposal kept)
    (uid : InvocationUid) : (worker.park uid kept.ticket).Obeys rule := by
  obtain ⟨hparked, htold⟩ := rule.parks hkept
  have hinsert {between : Worker} (hbetween : between.Obeys rule) :
      ({ between with parked := between.parked.insert uid kept.ticket }.tell kept.ticket
        .parked).Obeys rule :=
    (hbetween.withParked (SortedMap.forall_insert hbetween.parked hparked)).tell htold
  unfold Worker.park
  cases hget : worker.parked.get? uid with
  | none => exact hinsert h
  | some older => exact hinsert (h.tell (rule.overtaken (h.parked uid older hget)))

theorem forsake (h : worker.Obeys rule) {kept : PendingProposal} (hkept : rule.proposal kept) :
    (worker.forsake kept).Obeys rule := h.answer (rule.forsaken hkept)

/-- Proposals are given up in turn, by induction on them. -/
theorem forsakeAll (h : worker.Obeys rule) {given : List PendingProposal}
    (hgiven : ∀ kept ∈ given, rule.proposal kept) :
    (given.foldl Worker.forsake worker).Obeys rule := by
  induction given generalizing worker with
  | nil => exact h
  | cons kept rest ih =>
    obtain ⟨hkept, hrest⟩ := List.forall_mem_cons.mp hgiven
    exact ih (h.forsake hkept) hrest

theorem answerProposal (h : worker.Obeys rule) {kept : PendingProposal}
    (hkept : rule.proposal kept) {entry : AppliedEntry} (hentry : entry.Obeys rule) :
    (worker.answerProposal kept entry).Obeys rule := by
  unfold Worker.answerProposal
  split
  · exact h.forsake hkept
  · split
    · rename_i reply hanswer
      exact h.answer (rule.answered hkept (hentry.answer reply hanswer))
    · exact h.park hkept _
    · exact h.forsake hkept

/-- An applied entry that obeys the rule keeps a worker that does. -/
theorem noteApplied (h : worker.Obeys rule) {entry : AppliedEntry} (hentry : entry.Obeys rule) :
    (worker.noteApplied entry).Obeys rule := by
  have hnotified := h.notifyAll hentry.notes
  unfold Worker.noteApplied
  simp only
  split
  · exact hnotified
  · rename_i kept hget
    have herased := hnotified.withProposals (SortedMap.forall_erase hnotified.proposals entry.index)
    exact herased.answerProposal (hnotified.proposals entry.index kept hget) hentry

theorem noteAll (h : worker.Obeys rule) {entries : List AppliedEntry}
    (hentries : ∀ entry ∈ entries, entry.Obeys rule) :
    (entries.foldl Worker.noteApplied worker).Obeys rule := by
  induction entries generalizing worker with
  | nil => exact h
  | cons entry rest ih =>
    obtain ⟨hentry, hrest⟩ := List.forall_mem_cons.mp hentries
    exact ih (h.noteApplied hentry) hrest

theorem resolveStale (h : worker.Obeys rule) : worker.resolveStale.Obeys rule := by
  have hkept := h.withProposals (SortedMap.forall_filter h.proposals
    fun index _ => !decide (index ≤ worker.node.appliedIndex))
  refine hkept.forsakeAll fun kept hmem => ?_
  obtain ⟨index, hget⟩ := SortedMap.mem_values.mp hmem
  exact SortedMap.forall_filter h.proposals _ index kept hget

theorem abandonLeadership (h : worker.Obeys rule) : worker.abandonLeadership.Obeys rule := by
  obtain ⟨hreads, hempty⟩ := h.reads.drain
  have hcleared : { worker with proposals := ∅, reads := worker.reads.drain.2 }.Obeys rule :=
    ⟨fun _ _ hget => (nomatch hget), h.parked, hempty, h.receipts⟩
  have hproposals : ∀ kept ∈ worker.proposals.values, rule.proposal kept := by
    intro kept hmem
    obtain ⟨index, hget⟩ := SortedMap.mem_values.mp hmem
    exact h.proposals index kept hget
  exact (hcleared.forsakeAll hproposals).foldl_answer _ fun read hmem outcome =>
    rule.read_told (hreads read hmem) outcome

theorem observeRole (h : worker.Obeys rule) (now : Millis) :
    (worker.observeRole now).Obeys rule := by
  unfold Worker.observeRole
  simp only
  split
  · exact h
  · split
    · have habandoned := h.abandonLeadership
      exact ⟨habandoned.proposals, habandoned.parked, habandoned.reads, habandoned.receipts⟩
    · exact ⟨h.proposals, h.parked, h.reads, h.receipts⟩

theorem serveReads (h : worker.Obeys rule) : worker.serveReads.Obeys rule := by
  obtain ⟨hready, hleft⟩ := h.reads.ready (UInt64.ofNat worker.node.appliedIndex)
  have htaken : { worker with
      reads := (worker.reads.ready (UInt64.ofNat worker.node.appliedIndex)).2 }.Obeys rule :=
    ⟨h.proposals, h.parked, hleft, h.receipts⟩
  exact htaken.foldl_answer _ fun read hmem outcome => rule.read_told (hready read hmem) outcome

theorem issueReads (h : worker.Obeys rule) (hissue : worker.issueReads = some after) :
    after.Obeys rule := by
  unfold Worker.issueReads at hissue
  split at hissue
  · cases hissue
    exact h
  · obtain ⟨node, -, hrest⟩ := Option.bind_eq_some_iff.mp hissue
    cases hrest
    exact ⟨h.proposals, h.parked, h.reads.issue, h.receipts⟩

theorem dispatch (h : worker.Obeys rule) {message : Consensus.Message}
    (hdispatch : worker.dispatch message = some (.ok after)) : after.Obeys rule := by
  unfold Worker.dispatch at hdispatch
  split at hdispatch
  · obtain ⟨⟨taken, node⟩, -, hrest⟩ := Node.Call.bind_eq_ok hdispatch
    cases taken with
    | ok =>
      cases hrest
      exact h.withNode node
    | error error => cases hrest
  · cases hdispatch
    exact ⟨h.proposals, h.parked, h.reads, h.receipts⟩

theorem dispatchAll (h : worker.Obeys rule) {messages : List Consensus.Message}
    (hdispatch : messages.foldlM Worker.dispatch worker = some (.ok after)) :
    after.Obeys rule := by
  induction messages generalizing worker with
  | nil =>
    cases hdispatch
    exact h
  | cons message rest ih =>
    obtain ⟨between, hfirst, hrest⟩ := Node.Call.bind_eq_ok hdispatch
    exact ih (h.dispatch hfirst) hrest

/-- Reads that are confirmed stay as the rule has them. -/
theorem confirmAll (h : worker.Obeys rule) (states : List Consensus.ReadState) :
    { worker with reads := states.foldl (fun reads (state : Consensus.ReadState) =>
        reads.confirm state.context (UInt64.ofNat state.index)) worker.reads }.Obeys rule := by
  have hconfirmed : ∀ reads : ReadQueue QueuedRead, reads.All rule.read →
      (states.foldl (fun reads (state : Consensus.ReadState) =>
        reads.confirm state.context (UInt64.ofNat state.index)) reads).All rule.read := by
    induction states with
    | nil => exact fun reads hreads => hreads
    | cons state rest ih => exact fun reads hreads => ih _ (hreads.confirm _ _)
  exact h.withReads (hconfirmed worker.reads h.reads)

/-- A bundle of entries that obey the rule keeps a worker that does. -/
theorem takeBundle (h : worker.Obeys rule) {bundle : Bundle} {now : Millis}
    (hentries : ∀ entry ∈ bundle.applied, entry.Obeys rule)
    (hbundle : worker.takeBundle bundle now = some (.ok after)) : after.Obeys rule := by
  obtain ⟨sent, hsent, hrest⟩ := Node.Call.bind_eq_ok hbundle
  have hnoted := (h.dispatchAll hsent).noteAll hentries
  cases hrest
  exact ((hnoted.confirmAll bundle.reads).observeRole now).resolveStale.serveReads

/-- The ready loop keeps the rule, by induction on its rounds. -/
theorem processReady (h : worker.Obeys rule) {now : Millis} {rounds : Nat}
    (hready : worker.processReady now rounds = some (.ok after)) : after.Obeys rule := by
  induction rounds generalizing worker with
  | zero => cases hready
  | succ rounds ih =>
    obtain ⟨⟨bundle?, node⟩, hpoll, hrest⟩ := Node.Call.bind_eq_ok hready
    cases bundle? with
    | none =>
      cases hrest
      exact (h.withNode node).observeRole now
    | some bundle =>
      obtain ⟨taken, htaken, hlast⟩ := Node.Call.bind_eq_ok hrest
      exact ih ((h.withNode node).takeBundle (Node.poll_obeys hpoll) htaken) hlast

theorem submit (h : worker.Obeys rule) {invocation : Invocation} {operation : Operation}
    {ticket : Ticket} {now : Millis} (hadmits : rule.Admits (.submit invocation operation ticket))
    (hsubmit : worker.submit invocation operation ticket now = some after) :
    after.Obeys rule := by
  obtain ⟨hkept, hrefused⟩ := hadmits
  have houtcome := submit_outcome hsubmit
  generalize worker.node.engine.log.since after.node.engine.log = entries at houtcome
  cases houtcome with
  | refused node failure => exact (h.withNode node).answer (hrefused failure)
  | proposed node index term hentry => exact (h.withNode node).track (hkept term)

theorem query (h : worker.Obeys rule) {operation : Operation} {policy : QueryPolicy}
    {ticket : Ticket} (hadmits : rule.Admits (.query operation policy ticket)) :
    (worker.query operation policy ticket).Obeys rule := by
  obtain ⟨hread, htold⟩ := hadmits
  rcases worker.query_cases operation policy ticket with ⟨outcome, hanswered⟩ | hqueued
  · rw [hanswered]
    exact h.answer (htold outcome)
  · rw [hqueued]
    exact h.withReads (h.reads.push hread)

/-- An admitted event keeps the rule, by cases on the event. -/
theorem handle (h : worker.Obeys rule) {event : WorkerEvent} {now : Millis}
    (hadmits : rule.Admits event) (hhandle : worker.handle event now = some after) :
    after.Obeys rule := by
  cases event with
  | submit invocation operation ticket => exact h.submit hadmits hhandle
  | query operation policy ticket =>
    cases hhandle
    exact h.query hadmits
  | _ =>
    obtain ⟨node, rfl⟩ := handle_eq rfl hhandle
    exact h.withNode node

/-- The part of a turn that follows on an event. -/
theorem finish (h : worker.Obeys rule) {issued : Worker} {now : Millis} {rounds : Nat}
    (hissued : worker.issueReads = some issued)
    (hready : issued.processReady now rounds = some (.ok after)) : after.Obeys rule :=
  (h.issueReads hissued).processReady hready

/-- A turn on an admitted event keeps the rule. -/
theorem turn (h : worker.Obeys rule) {event : WorkerEvent} {now : Millis}
    (hadmits : rule.Admits event) (hturn : worker.turn event now = some (.ok after)) :
    after.Obeys rule := by
  obtain ⟨handled, hhandled, hrest⟩ := Node.Call.bind_eq_ok hturn
  obtain ⟨issued, hissued, hready⟩ := Node.Call.bind_eq_ok hrest
  exact (h.handle hadmits (Node.Call.lift_eq_ok hhandled)).finish
    (Node.Call.lift_eq_ok hissued) hready

end Obeys

end Worker

end Quorum
