import Quorum.Proofs.Consensus.Propose
import Quorum.Worker

namespace Quorum

open Consensus

namespace Node.Call

variable {ε α β : Type}

/-- A sequence that succeeds has two successful parts. -/
theorem bind_eq_ok {x : ExceptT ε Option α} {f : α → ExceptT ε Option β} {b : β}
    (h : (x >>= f : ExceptT ε Option β) = some (.ok b)) :
    ∃ a, x = some (.ok a) ∧ f a = some (.ok b) := by
  rcases x with - | (error | a)
  · cases h
  · cases h
  · exact ⟨a, rfl, h⟩

/-- A call that ends, ends alike if what follows it does. -/
theorem bind_eq_some_of_imp {x : ExceptT ε Option α} {f g : α → ExceptT ε Option β}
    {result : Except ε β} (h : (x >>= f : ExceptT ε Option β) = some result)
    (hrest : ∀ a, f a = some result → g a = some result) :
    (x >>= g : ExceptT ε Option β) = some result := by
  rcases x with - | (error | a)
  · cases h
  · exact h
  · exact hrest a h

theorem lift_eq_ok {x : Option α} {a : α} (h : (liftM x : ExceptT ε Option α) = some (.ok a)) :
    x = some a := by
  cases x with
  | none => cases h
  | some found =>
    cases h
    rfl

end Node.Call

/-- The entries that a log has beyond the end of what it was. -/
def Consensus.Log.since (before after : Log) : List Entry := after.tail.drop before.tail.length

theorem Consensus.Log.since_of_append {before after : Log} {entries : List Entry}
    (h : after.tail = before.tail ++ entries) : before.since after = entries := by
  rw [Log.since, h, List.drop_left]

theorem Consensus.Log.since_self (log : Log) : log.since log = [] := List.drop_length

/-- The ticket of a request. -/
def WorkerEvent.ticket? : WorkerEvent → Option Ticket
  | .submit _ _ ticket | .query _ _ ticket => some ticket
  | _ => none

namespace Worker

variable {worker after : Worker}

/-- A worker that proposes a call of its own changes its node alone. -/
theorem proposeOwn_eq {operation : Operation} {now : Millis}
    (h : worker.proposeOwn operation now = some after) : ∃ node, after = { worker with node } := by
  obtain ⟨⟨proposed, node⟩, -, hrest⟩ := Option.bind_eq_some_iff.mp h
  cases hrest
  exact ⟨node, rfl⟩

/-- A worker that proposes expiries changes its node alone. -/
theorem proposeExpiries_eq {now : Millis}
    (h : worker.proposeExpiries now = some after) : ∃ node, after = { worker with node } := by
  let keys := worker.node.machine.expiredWaitKeys now
  have hkeys : ∀ between : Worker, (if keys = [] then some between
      else between.proposeOwn (.expireWaitKeys keys) now) = some after →
      ∃ node, after = { between with node } := by
    intro between hrest
    split at hrest
    · cases hrest
      exact ⟨_, rfl⟩
    · exact proposeOwn_eq hrest
  unfold proposeExpiries at h
  split at h
  · cases h
    exact ⟨worker.node, rfl⟩
  · simp only at h
    split at h
    · exact hkeys worker h
    · obtain ⟨between, hbetween, hrest⟩ := Option.bind_eq_some_iff.mp h
      obtain ⟨node, rfl⟩ := proposeOwn_eq hbetween
      exact hkeys { worker with node } hrest

/-- An event that is no request only moves the node. -/
theorem handle_eq {event : WorkerEvent} {now : Millis}
    (hevent : event.ticket? = none) (h : worker.handle event now = some after) :
    ∃ node, after = { worker with node } := by
  have hstep : ∀ node? : Option Node, (do return { worker with node := ← node? }) = some after →
      ∃ node, after = { worker with node } := by
    intro node? hnode
    obtain ⟨node, -, hrest⟩ := Option.bind_eq_some_iff.mp hnode
    cases hrest
    exact ⟨node, rfl⟩
  cases event with
  | submit invocation operation ticket => cases hevent
  | query operation policy ticket => cases hevent
  | campaign => exact hstep _ h
  | departed endpoint =>
    change worker.closeEndpoint endpoint now = some after at h
    unfold closeEndpoint at h
    simp only at h
    split at h
    · cases h
      exact ⟨worker.node, rfl⟩
    · exact proposeOwn_eq h
  | message message =>
    obtain ⟨taken, -, hrest⟩ := Option.bind_eq_some_iff.mp h
    cases hrest
    exact ⟨taken.2, rfl⟩
  | tick => exact hstep _ h
  | expiryCheck => exact proposeExpiries_eq h

/-- The ends of a submission, with the entries that it appends. -/
inductive SubmitOutcome (worker : Worker) (invocation : Invocation) (operation : Operation)
    (ticket : Ticket) (now : Millis) : Worker → List Entry → Prop
  | refused (node : Node) (failure : Failure) :
    SubmitOutcome worker invocation operation ticket now
      ({ worker with node }.answer ticket (.failed failure)) []
  | proposed (node : Node) (index term : Nat) {entry : Entry}
    (hentry : entry.data = Command.encode { invocation, operation, timestamp := now }) :
    SubmitOutcome worker invocation operation ticket now
      ({ worker with node }.track index
        { term, retryable := isRetryable invocation operation, ticket }) [entry]

/-- A worker that does not refuse is leader. -/
theorem refusal?_eq_none {operation : Operation} (h : worker.refusal? operation = none) :
    worker.node.isLeader = true := by
  unfold refusal? at h
  split at h
  · cases h
  split at h
  · cases h
  · rename_i hleads
    simpa using hleads

theorem track_node (worker : Worker) (index : Nat) (proposal : PendingProposal) :
    (worker.track index proposal).node = worker.node := by
  unfold track
  cases worker.proposals.get? index <;> rfl

/-- A submission is refused without an entry, or proposed with one. -/
theorem submit_outcome {invocation : Invocation} {operation : Operation} {ticket : Ticket}
    {now : Millis} (h : worker.submit invocation operation ticket now = some after) :
    SubmitOutcome worker invocation operation ticket now after
      (worker.node.engine.log.since after.node.engine.log) := by
  unfold submit at h
  split at h
  · cases h
    have hsame := Log.since_self worker.node.engine.log
    exact hsame ▸ .refused worker.node _
  · rename_i hallowed
    obtain ⟨⟨proposed, node⟩, hpropose, hrest⟩ := Option.bind_eq_some_iff.mp h
    rcases Node.propose_log (refusal?_eq_none hallowed) hpropose with
      ⟨⟨place, rfl⟩, htail⟩ | ⟨error, rfl, hlog⟩
    · cases hrest
      rw [track_node, Log.since_of_append htail]
      exact .proposed node _ _ rfl
    · cases hrest
      have hnone : worker.node.engine.log.since node.engine.log = [] := by
        rw [hlog, Log.since_self]
      exact hnone ▸ .refused node _

/-- A query is answered, or its read is queued. -/
theorem query_cases (worker : Worker) (operation : Operation) (policy : QueryPolicy)
    (ticket : Ticket) :
    (∃ outcome, worker.query operation policy ticket = worker.answer ticket outcome) ∨
      worker.query operation policy ticket =
        { worker with reads := worker.reads.push { operation, ticket } } := by
  unfold query
  split
  · exact .inl ⟨_, rfl⟩
  · split
    · exact .inl ⟨_, rfl⟩
    · exact .inr rfl

end Worker

end Quorum
