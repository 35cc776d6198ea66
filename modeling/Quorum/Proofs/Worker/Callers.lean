import Mathlib.Data.List.Induction
import Quorum.Worker

namespace Quorum

/-- A caller that is parked, with what the log says of its call. -/
structure Caller where
  invocation : Invocation
  ticket : Ticket
  deriving DecidableEq

/-- What befalls the callers of parked calls. -/
inductive CallerEvent where
  | parked (caller : Caller)
  /-- A parked call is answered. -/
  | noted (note : Notification)

namespace CallerEvent

def follow (uid : InvocationUid) (callers : List Caller) : CallerEvent → List Caller
  | .parked caller => if caller.invocation.uid = some uid then caller :: callers else callers
  | .noted note => if note.uid = uid then [] else callers

/-- The callers that were parked under a token since a call with the token was last answered, the
    latest first. -/
def waitingFor (history : List CallerEvent) (uid : InvocationUid) : List Caller :=
  history.foldl (follow uid) []

/-- Who waits for a uid is followed event by event. -/
theorem waitingFor_concat (history : List CallerEvent) (event : CallerEvent)
    (uid : InvocationUid) :
    waitingFor (history ++ [event]) uid = follow uid (waitingFor history uid) event :=
  List.foldl_append

/-- Whom an event tells what. An answer goes to the caller that was parked last under the token. A
    caller that is parked is told so, and the one that was parked last before is told that nothing
    will follow. -/
def told (history : List CallerEvent) : CallerEvent → List (Ticket × Receipt)
  | .parked caller =>
    ((caller.invocation.uid.bind fun uid => (waitingFor history uid).head?).map fun older =>
      (older.ticket, Receipt.abandoned)).toList ++ [(caller.ticket, .parked)]
  | .noted note =>
    ((waitingFor history note.uid).head?.map fun caller =>
      (caller.ticket, Receipt.outcome (.ofResult note.result))).toList

/-- Whom further events tell what. -/
def toldOver (history : List CallerEvent) : List CallerEvent → List (Ticket × Receipt)
  | [] => []
  | event :: rest => told history event ++ toldOver (history ++ [event]) rest

theorem toldOver_append (history events later : List CallerEvent) :
    toldOver history (events ++ later) =
      toldOver history events ++ toldOver (history ++ events) later := by
  induction events generalizing history with
  | nil => rw [List.nil_append, List.append_nil, toldOver, List.nil_append]
  | cons event rest ih =>
    rw [List.cons_append, toldOver, toldOver, ih, List.append_assoc, List.append_assoc,
      List.singleton_append]

/-- Of the callers that wait under a token all but the last one that was parked have been told that
    nothing will follow. -/
theorem abandoned_of_overtaken (history : List CallerEvent) (uid : InvocationUid) :
    ∀ caller ∈ (waitingFor history uid).tail,
      (caller.ticket, Receipt.abandoned) ∈ toldOver [] history := by
  induction history using List.reverseRecOn with
  | nil => exact fun caller hmem => absurd hmem List.not_mem_nil
  | append_singleton history event ih =>
    intro caller hmem
    rw [toldOver_append, List.nil_append]
    rw [waitingFor_concat] at hmem
    have hbefore : caller ∈ (waitingFor history uid).tail →
        (caller.ticket, Receipt.abandoned) ∈ toldOver [] history ++ toldOver history [event] :=
      fun htail => List.mem_append_left _ (ih caller htail)
    cases event with
    | noted note =>
      rw [follow] at hmem
      split at hmem
      · cases hmem
      · exact hbefore hmem
    | parked latest =>
      rw [follow] at hmem
      split at hmem
      · rename_i huid
        rw [List.tail_cons] at hmem
        cases hwaiting : waitingFor history uid with
        | nil =>
          rw [hwaiting] at hmem
          cases hmem
        | cons last earlier =>
          rw [hwaiting] at hmem hbefore
          -- Whoever was kept under the token before is told so now; the others were told earlier.
          rcases List.mem_cons.mp hmem with rfl | htail
          · refine List.mem_append_right _ (List.mem_append_left _ (List.mem_append_left _ ?_))
            rw [huid, Option.bind_some, hwaiting]
            exact List.mem_singleton_self _
          · exact hbefore htail
      · exact hbefore hmem

end CallerEvent

namespace Worker

open CallerEvent (waitingFor told toldOver)

/-- The caller that an applied entry parks: that of the proposal for its place, if the entry is the
    proposed one and its call waits in a replica's queue. -/
def parks? (worker : Worker) (entry : AppliedEntry) : Option Caller :=
  (worker.proposals.get? entry.index).bind fun proposal =>
    if proposal.term = entry.term ∧ entry.answer = .waiting ∧ entry.invocation.uid.isSome then
      some { invocation := entry.invocation, ticket := proposal.ticket }
    else none

/-- What an applied entry is to the callers of parked calls. -/
def callerEvents (worker : Worker) (entry : AppliedEntry) : List CallerEvent :=
  entry.notes.map .noted ++ ((worker.parks? entry).map .parked).toList

/-- The caller that a worker keeps under a token is the one that was parked last. -/
def Keeps (worker : Worker) (history : List CallerEvent) : Prop :=
  ∀ uid, worker.parked.get? uid = (waitingFor history uid).head?.map Caller.ticket

/-- A new worker keeps nobody, and nobody waits. -/
theorem keeps_new (group : GroupId) (node : Node) (now : Millis) : (new group node now).Keeps [] :=
  fun _ => rfl

/-- An answer goes to the caller that is kept under its token. -/
theorem notify_spec {worker : Worker} {history : List CallerEvent} (h : worker.Keeps history)
    (note : Notification) :
    (worker.notify note).Keeps (history ++ [.noted note]) ∧
      (worker.notify note).receipts = worker.receipts ++ told history (.noted note) ∧
      (worker.notify note).proposals = worker.proposals := by
  have hkept := h note.uid
  unfold notify
  cases hget : worker.parked.get? note.uid with
  | none =>
    rw [hget] at hkept
    have hnobody : (waitingFor history note.uid).head? = none :=
      Option.map_eq_none_iff.mp hkept.symm
    refine ⟨fun uid => ?_, ?_, rfl⟩
    · rw [CallerEvent.waitingFor_concat, CallerEvent.follow]
      by_cases huid : note.uid = uid
      · rw [if_pos huid, ← huid]
        exact hget
      · rw [if_neg huid]
        exact h uid
    · rw [told, hnobody]
      exact (List.append_nil _).symm
  | some ticket =>
    rw [hget] at hkept
    obtain ⟨caller, hcaller, hticket⟩ := Option.map_eq_some_iff.mp hkept.symm
    refine ⟨fun uid => ?_, ?_, rfl⟩
    · rw [CallerEvent.waitingFor_concat, CallerEvent.follow]
      refine (SortedMap.get?_erase worker.parked note.uid uid).trans ?_
      by_cases huid : note.uid = uid
      · rw [if_pos huid, if_pos huid]
        rfl
      · rw [if_neg huid, if_neg huid]
        exact h uid
    · rw [told, hcaller, ← hticket]
      rfl

/-- Notifications in turn keep the invariant and tell those who wait, by induction on them. -/
theorem notifyAll_spec {worker : Worker} {history : List CallerEvent} (h : worker.Keeps history)
    (notes : List Notification) :
    (notes.foldl notify worker).Keeps (history ++ notes.map .noted) ∧
      (notes.foldl notify worker).receipts =
        worker.receipts ++ toldOver history (notes.map .noted) ∧
      (notes.foldl notify worker).proposals = worker.proposals := by
  induction notes generalizing worker history with
  | nil => simpa [toldOver] using h
  | cons note rest ih =>
    obtain ⟨hkeeps, hreceipts, hproposals⟩ := notify_spec h note
    obtain ⟨hlast, htold, hsame⟩ := ih hkeeps
    rw [List.append_assoc] at hlast
    refine ⟨hlast, ?_, hsame.trans hproposals⟩
    rw [List.foldl_cons, htold, hreceipts, List.map_cons, toldOver, List.append_assoc]

/-- A caller that is parked takes the place of the one that is kept under its token. -/
theorem park_spec {worker : Worker} {history : List CallerEvent} (h : worker.Keeps history)
    {caller : Caller} {uid : InvocationUid} (huid : caller.invocation.uid = some uid) :
    (worker.park uid caller.ticket).Keeps (history ++ [.parked caller]) ∧
      (worker.park uid caller.ticket).receipts =
        worker.receipts ++ told history (.parked caller) := by
  have hkept := h uid
  constructor
  · intro other
    have hparked : (worker.park uid caller.ticket).parked =
        worker.parked.insert uid caller.ticket := by
      unfold park
      cases worker.parked.get? uid <;> rfl
    rw [hparked, SortedMap.get?_insert, CallerEvent.waitingFor_concat, CallerEvent.follow, huid]
    by_cases heq : uid = other
    · rw [if_pos heq, if_pos (congrArg some heq)]
      rfl
    · rw [if_neg heq, if_neg fun hsome => heq (Option.some.inj hsome)]
      exact h other
  · rw [told, huid, Option.bind_some]
    unfold park
    cases hget : worker.parked.get? uid with
    | none =>
      rw [hget] at hkept
      rw [Option.map_eq_none_iff.mp hkept.symm]
      rfl
    | some ticket =>
      rw [hget] at hkept
      obtain ⟨older, holder, hticket⟩ := Option.map_eq_some_iff.mp hkept.symm
      rw [holder, ← hticket]
      exact List.append_assoc _ _ _

/-- The caller of the proposal for an applied entry's place is parked, or it is answered. -/
theorem answerProposal_cases (worker : Worker) (proposal : PendingProposal)
    (entry : AppliedEntry) :
    (∃ uid, (proposal.term = entry.term ∧ entry.answer = .waiting ∧
        entry.invocation.uid.isSome) ∧ entry.invocation.uid = some uid ∧
      worker.answerProposal proposal entry = worker.park uid proposal.ticket) ∨
    ∃ outcome, ¬ (proposal.term = entry.term ∧ entry.answer = .waiting ∧
        entry.invocation.uid.isSome) ∧
      worker.answerProposal proposal entry = worker.answer proposal.ticket outcome := by
  unfold answerProposal
  by_cases hterm : proposal.term = entry.term
  · rw [if_neg fun hother => hother hterm]
    cases entry.answer with
    | done result => exact .inr ⟨_, by simp, rfl⟩
    | waiting =>
      cases entry.invocation.uid with
      | none => exact .inr ⟨_, by simp, rfl⟩
      | some uid => exact .inl ⟨uid, ⟨hterm, rfl, rfl⟩, rfl, rfl⟩
  · rw [if_pos hterm]
    exact .inr ⟨_, fun hsame => hterm hsame.1, rfl⟩

/-- What an applied entry means to callers: those of parked calls are told what its events tell, and
    else at most the caller of the proposal for its place is answered. -/
theorem noteApplied_spec {worker : Worker} {history : List CallerEvent} (h : worker.Keeps history)
    (entry : AppliedEntry) :
    (worker.noteApplied entry).Keeps (history ++ worker.callerEvents entry) ∧
      ∃ own, (worker.noteApplied entry).receipts =
          worker.receipts ++ toldOver history (worker.callerEvents entry) ++ own ∧
        (own = [] ∨ worker.parks? entry = none ∧ ∃ proposal outcome,
          worker.proposals.get? entry.index = some proposal ∧
            own = [(proposal.ticket, .outcome outcome)]) := by
  obtain ⟨hkeeps, hreceipts, hproposals⟩ := notifyAll_spec h entry.notes
  cases hproposal : worker.proposals.get? entry.index with
  | none =>
    have hnoted : worker.noteApplied entry = entry.notes.foldl notify worker := by
      simp only [noteApplied, hproposals, hproposal]
    have hparks : worker.parks? entry = none := by rw [parks?, hproposal, Option.bind_none]
    rw [hnoted, callerEvents, hparks, Option.map_none, Option.toList_none, List.append_nil]
    exact ⟨hkeeps, [], hreceipts.trans (List.append_nil _).symm, .inl rfl⟩
  | some proposal =>
    have hparks : worker.parks? entry = if proposal.term = entry.term ∧ entry.answer = .waiting ∧
        entry.invocation.uid.isSome then
          some { invocation := entry.invocation, ticket := proposal.ticket } else none := by
      rw [parks?, hproposal, Option.bind_some]
    let pending : Worker := { entry.notes.foldl notify worker with
      proposals := worker.proposals.erase entry.index }
    have hpending : pending.Keeps (history ++ entry.notes.map .noted) := hkeeps
    have hnoted : worker.noteApplied entry = pending.answerProposal proposal entry := by
      simp only [noteApplied, hproposals, hproposal, pending]
    rcases answerProposal_cases pending proposal entry with
      ⟨uid, hwaits, huid, hanswer⟩ | ⟨outcome, hends, hanswer⟩
    · let caller : Caller := { invocation := entry.invocation, ticket := proposal.ticket }
      have hcaller : caller.invocation.uid = some uid := huid
      obtain ⟨hlast, htold⟩ := park_spec hpending hcaller
      rw [if_pos hwaits] at hparks
      rw [hnoted, hanswer, callerEvents, hparks, Option.map_some, Option.toList_some,
        ← List.append_assoc, CallerEvent.toldOver_append, toldOver, toldOver, List.append_nil]
      refine ⟨hlast, [], ?_, .inl rfl⟩
      rw [List.append_nil, ← List.append_assoc, ← hreceipts]
      exact htold
    · rw [if_neg hends] at hparks
      rw [hnoted, hanswer, callerEvents, hparks, Option.map_none, Option.toList_none,
        List.append_nil]
      refine ⟨hpending, _, ?_, .inr ⟨rfl, proposal, outcome, rfl, rfl⟩⟩
      rw [← hreceipts]
      rfl

end Worker

end Quorum
