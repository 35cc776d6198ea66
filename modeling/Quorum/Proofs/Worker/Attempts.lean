import Quorum.Call
import Quorum.Proofs.Machine.Failures
import Quorum.Proofs.Worker.Rules

namespace Quorum

open Consensus

/-- What a worker is asked when a demand is handed to it. -/
def Demand.event : Demand → Ticket → WorkerEvent
  | .submit invocation operation, ticket => .submit invocation operation ticket
  | .query operation policy, ticket => .query operation policy ticket

/-- Whether an entry holds what is demanded, as a submission that was made at some time. -/
def Demand.IsIn (demand : Demand) (entry : Entry) : Prop :=
  ∃ invocation operation timestamp, demand = .submit invocation operation ∧
    entry.data = Command.encode { invocation, operation, timestamp }

/-- Whether nobody asks again after an outcome. -/
def Outcome.IsFinal : Outcome → Prop
  | .committed _ => True
  | .failed failure => failure.isRetryable = false
  | .indeterminate retryable => retryable = false

def Receipt.IsFinal : Receipt → Prop
  | .outcome told => told.IsFinal
  | .parked | .abandoned => True

/-- A definite reply is a final outcome. -/
theorem Outcome.isFinal_ofResult {reply : Reply} (h : Definite reply) :
    (Outcome.ofResult reply).IsFinal := by
  cases reply with
  | ok value => trivial
  | error failure => exact h failure rfl

/-- A final outcome is not asked for again. -/
theorem Outcome.IsFinal.retryTarget {outcome : Outcome} (h : outcome.IsFinal)
    (members : List MemberId) (asked : MemberId) : retryTarget members asked outcome = none := by
  cases outcome with
  | committed value => rfl
  | indeterminate retryable =>
    cases h
    rfl
  | failed failure =>
    cases failure with
    | notLeader hint => cases h
    | noLeaderElected => cases h
    | _ => rfl

/-- The rule that all tickets come before a bound, and that the callers of some of them have entries
    in the log and must not be made to ask again. -/
def CallerRule.guarding (guarded : Ticket → Prop) (bound : Ticket) : CallerRule where
  proposal kept := kept.ticket < bound ∧ (guarded kept.ticket → kept.retryable = false)
  parked ticket := ticket < bound
  read kept := kept.ticket < bound ∧ ¬ guarded kept.ticket
  told ticket receipt := ticket < bound ∧ (guarded ticket → receipt.IsFinal)
  result := Definite
  forsaken h := h
  displaced h := ⟨h.1, fun _ => trivial⟩
  answered h _ hreply := ⟨h.1, fun _ => Outcome.isFinal_ofResult hreply⟩
  parks h := ⟨h.1, h.1, fun _ => trivial⟩
  overtaken h := ⟨h, fun _ => trivial⟩
  noted h _ hreply := ⟨h, fun _ => Outcome.isFinal_ofResult hreply⟩
  read_told h _ := ⟨h.1, fun hguarded => absurd hguarded h.2⟩
  applied machine command :=
    ⟨(machine.apply_definite command).1, (machine.apply_definite command).2⟩

theorem CallerRule.admits_of_nobody {rule : CallerRule} {event : WorkerEvent}
    (h : event.ticket? = none) : rule.Admits event := by
  cases event with
  | submit invocation operation ticket => cases h
  | query operation policy ticket => cases h
  | _ => trivial

namespace Worker

variable {worker after : Worker} {guarded other : Ticket → Prop} {bound later : Ticket}

/-- New tickets may be guarded, for nobody has them yet. -/
theorem Obeys.guardMore (h : worker.Obeys (.guarding guarded bound)) (hbound : bound ≤ later)
    (hnew : ∀ ticket, ticket < bound → other ticket → guarded ticket) :
    worker.Obeys (.guarding other later) := by
  refine h.mono ?_ ?_ ?_ ?_
  · exact fun kept hkept =>
      ⟨Nat.lt_of_lt_of_le hkept.1 hbound, fun hother => hkept.2 (hnew _ hkept.1 hother)⟩
  · exact fun ticket hticket => Nat.lt_of_lt_of_le hticket hbound
  · exact fun kept hkept =>
      ⟨Nat.lt_of_lt_of_le hkept.1 hbound, fun hother => hkept.2 (hnew _ hkept.1 hother)⟩
  · exact fun ticket receipt htold =>
      ⟨Nat.lt_of_lt_of_le htold.1 hbound, fun hother => htold.2 (hnew _ htold.1 hother)⟩

/-- The entries that a worker puts at the end of its log as it takes up an event. -/
def appended (worker : Worker) (event : WorkerEvent) (now : Millis) : List Entry :=
  match worker.handle event now with
  | some handled => worker.node.engine.log.since handled.node.engine.log
  | none => []

/-- What a turn appends is what its engine's log gained in handling the event. -/
theorem appended_of_handled {event : WorkerEvent} {now : Millis}
    (h : worker.handle event now = some after) :
    worker.appended event now = worker.node.engine.log.since after.node.engine.log := by
  rw [appended, h]

/-- A query appends nothing. -/
theorem appended_query (worker : Worker) (operation : Operation) (policy : QueryPolicy)
    (ticket : Ticket) (now : Millis) :
    worker.appended (.query operation policy ticket) now = [] := by
  have hnode : (worker.query operation policy ticket).node = worker.node := by
    rcases worker.query_cases operation policy ticket with ⟨outcome, hanswered⟩ | hqueued
    · rw [hanswered]
      rfl
    · rw [hqueued]
  rw [appended_of_handled rfl, hnode, Log.since_self]

/-- A demand puts at most one entry into the log, which holds it. -/
theorem appended_demand (worker : Worker) (demand : Demand) (ticket : Ticket) (now : Millis) :
    worker.appended (demand.event ticket) now = [] ∨
      ∃ entry, worker.appended (demand.event ticket) now = [entry] ∧ demand.IsIn entry := by
  cases demand with
  | query operation policy => exact .inl (worker.appended_query operation policy ticket now)
  | submit invocation operation =>
    cases hhandle : worker.handle (.submit invocation operation ticket) now with
    | none =>
      simp only [Demand.event, appended, hhandle]
      exact .inl trivial
    | some after =>
      have houtcome := submit_outcome hhandle
      rw [Demand.event, appended_of_handled hhandle]
      generalize worker.node.engine.log.since after.node.engine.log = entries at houtcome
      cases houtcome with
      | refused => exact .inl rfl
      | proposed node index term hentry =>
        exact .inr ⟨_, rfl, invocation, operation, now, rfl, hentry⟩

/-- A worker that takes a demand goes on to guard tickets, provided that the ticket of the demand is
    only guarded if an entry was appended for it and its repetition would not be recognised. -/
theorem turn_obeys_guarding {demand : Demand} {ticket : Ticket} {now : Millis}
    (h : worker.Obeys (.guarding guarded bound)) (hticket : ticket < bound)
    (hguarded : guarded ticket →
      demand.isRetryable = false ∧ worker.appended (demand.event ticket) now ≠ [])
    (hturn : worker.turn (demand.event ticket) now = some (.ok after)) :
    after.Obeys (.guarding guarded bound) := by
  obtain ⟨handled, hhandled, hrest⟩ := Node.Call.bind_eq_ok hturn
  obtain ⟨issued, hissued, hready⟩ := Node.Call.bind_eq_ok hrest
  have hhandle := Node.Call.lift_eq_ok hhandled
  refine Obeys.finish ?_ (Node.Call.lift_eq_ok hissued) hready
  rw [appended_of_handled hhandle] at hguarded
  cases demand with
  | query operation policy =>
    have hunguarded : ¬ guarded ticket := fun hmem => nomatch (hguarded hmem).1
    have hadmits : (CallerRule.guarding guarded bound).Admits (.query operation policy ticket) :=
      ⟨⟨hticket, hunguarded⟩, fun _ => ⟨hticket, fun hmem => absurd hmem hunguarded⟩⟩
    exact h.handle hadmits hhandle
  | submit invocation operation =>
    have houtcome := submit_outcome hhandle
    generalize worker.node.engine.log.since handled.node.engine.log = entries at houtcome hguarded
    cases houtcome with
    | refused node failure =>
      have hunguarded : ¬ guarded ticket := fun hmem => (hguarded hmem).2 rfl
      exact (h.withNode node).answer ⟨hticket, fun hmem => absurd hmem hunguarded⟩
    | proposed node index term hentry =>
      exact (h.withNode node).track ⟨hticket, fun hmem => (hguarded hmem).1⟩

end Worker

end Quorum
