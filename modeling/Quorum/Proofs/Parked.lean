import Quorum.Proofs.Latch.Reaction
import Quorum.Proofs.Semaphore.Reaction

namespace Quorum

/-- A parked call as its notification names it. -/
structure ParkedCall where
  kind : String
  uid : InvocationUid
  session : Option SessionId
  deriving DecidableEq

def Notification.call (note : Notification) : ParkedCall := ⟨note.kind, note.uid, note.session⟩

def AcquireWaiter.call (waiter : AcquireWaiter) : ParkedCall :=
  ⟨SemaphoreOp.acquireKind, waiter.uid, waiter.session⟩

def AwaitWaiter.call (waiter : AwaitWaiter) : ParkedCall :=
  ⟨LatchOp.awaitKind, waiter.uid, waiter.session⟩

@[simp] theorem AcquireWaiter.call_answer (waiter : AcquireWaiter) (result : Reply) :
    (waiter.answer result).call = waiter.call := rfl

@[simp] theorem AwaitWaiter.call_answer (waiter : AwaitWaiter) (result : Reply) :
    (waiter.answer result).call = waiter.call := rfl

/-- Where parked calls of a kind are conserved, the answers are to calls of that kind. -/
theorem kind_of_conserved {kind : String} {before after : List ParkedCall}
    {notes : List Notification} (hkind : ∀ call ∈ before, call.kind = kind)
    (h : (after ++ notes.map Notification.call).Perm before) {note : Notification}
    (hmem : note ∈ notes) : note.kind = kind :=
  hkind note.call (h.subset (List.mem_append_right _ (List.mem_map_of_mem hmem)))

/-- The call that joins a queue: a caller that is told to wait and is not in the queue yet. -/
def joining (kind : String) (invocation : Invocation) (answer : Applied)
    (queue : List InvocationUid) : Option ParkedCall :=
  match invocation.uid with
  | some uid =>
    if answer = .waiting ∧ uid ∉ queue then some ⟨kind, uid, invocation.session⟩ else none
  | none => none

section Joining

variable {kind : String} {invocation : Invocation} {answer : Applied} {queue : List InvocationUid}

/-- A call that is answered at once does not join a queue. -/
theorem joining_of_answered (h : answer ≠ .waiting) :
    joining kind invocation answer queue = none := by
  unfold joining
  split
  · exact if_neg fun hboth => h hboth.1
  · rfl

/-- A call whose token waits already does not join again. -/
theorem joining_of_mem {uid : InvocationUid} (huid : invocation.uid = some uid)
    (h : uid ∈ queue) : joining kind invocation answer queue = none := by
  rw [joining, huid]
  exact if_neg fun hboth => hboth.2 h

/-- A call that has to wait joins under a token that does not wait yet. -/
theorem joining_of_not_mem {uid : InvocationUid} (huid : invocation.uid = some uid)
    (h : uid ∉ queue) :
    joining kind invocation .waiting queue = some ⟨kind, uid, invocation.session⟩ := by
  rw [joining, huid]
  exact if_pos ⟨rfl, h⟩

/-- What joins a queue is the caller's own call, which is told to wait. -/
theorem joining_eq_some {call : ParkedCall} (h : joining kind invocation answer queue = some call) :
    answer = .waiting ∧ call.kind = kind ∧ invocation.uid = some call.uid ∧
      invocation.session = call.session := by
  unfold joining at h
  split at h
  · rename_i uid huid
    split at h
    · rename_i hboth
      obtain rfl := Option.some.inj h
      exact ⟨hboth.1, rfl, huid, rfl⟩
    · cases h
  · cases h

/-- A queue with the call that joins it is as it was, or its caller is parked at its end. -/
theorem joining_cases {before after : List ParkedCall}
    (h : after = before ++ (joining kind invocation answer queue).toList) :
    after = before ∨ ∃ uid, invocation.uid = some uid ∧ answer = .waiting ∧
      after = before ++ [⟨kind, uid, invocation.session⟩] := by
  cases hcall : joining kind invocation answer queue with
  | none =>
    rw [hcall] at h
    exact .inl (h.trans (List.append_nil before))
  | some call =>
    obtain ⟨hanswer, hkind, huid, hsession⟩ := joining_eq_some hcall
    refine .inr ⟨call.uid, huid, hanswer, ?_⟩
    rw [h, hcall, ← hkind, hsession]
    rfl

end Joining

/-- The first item that passes a test, and the others, are all items. -/
theorem perm_eraseP_of_find? {α : Type} {p : α → Bool} {xs : List α} {x : α}
    (h : xs.find? p = some x) : (x :: xs.eraseP p).Perm xs := by
  induction xs with
  | nil => cases h
  | cons head rest ih =>
    cases hhead : p head with
    | true =>
      rw [List.find?_cons_of_pos hhead] at h
      obtain rfl := Option.some.inj h
      rw [List.eraseP_cons_of_pos hhead]
    | false =>
      rw [List.find?_cons_of_neg (by simp [hhead])] at h
      rw [List.eraseP_cons_of_neg (by simp [hhead])]
      exact (List.Perm.swap head x _).trans ((ih h).cons head)

/-- The calls that the waiters' answers name. -/
theorem AcquireWaiter.map_call_answer (waiters : List AcquireWaiter) (result : Reply) :
    (waiters.map fun waiter => waiter.answer result).map Notification.call =
      waiters.map AcquireWaiter.call := by
  rw [List.map_map]
  rfl

theorem AwaitWaiter.map_call_answer (waiters : List AwaitWaiter) (result : Reply) :
    (waiters.map fun waiter => waiter.answer result).map Notification.call =
      waiters.map AwaitWaiter.call := by
  rw [List.map_map]
  rfl

namespace Semaphore

def parkedCalls (semaphore : Semaphore) : List ParkedCall :=
  semaphore.waiters.map AcquireWaiter.call

/-- Only acquires wait at a semaphore. -/
theorem kind_of_parked (semaphore : Semaphore) :
    ∀ call ∈ semaphore.parkedCalls, call.kind = SemaphoreOp.acquireKind := by
  intro call hmem
  obtain ⟨waiter, -, rfl⟩ := List.mem_map.mp hmem
  rfl

/-- Calls that wait at a semaphore go on waiting or are answered as it serves its queue. -/
theorem grantWaiters_parkedCalls (semaphore : Semaphore) :
    (semaphore.grantWaiters.1.parkedCalls ++ semaphore.grantWaiters.2.map Notification.call).Perm
      semaphore.parkedCalls := by
  obtain ⟨granted, rest, hqueue, hserve, -, -⟩ := serve_spec semaphore semaphore.waiters
  have hnotes : (granted.map AcquireWaiter.granted).map Notification.call =
      granted.map AcquireWaiter.call := AcquireWaiter.map_call_answer granted _
  rw [grantWaiters, hserve, parkedCalls, parkedCalls, hqueue, hnotes, List.map_append]
  exact List.perm_append_comm

/-- Calls that wait at a semaphore go on waiting or are answered as a session closes. -/
theorem closeSession_parkedCalls (semaphore : Semaphore) (session : SessionId) :
    ((semaphore.closeSession session).1.parkedCalls ++
        (semaphore.closeSession session).2.map Notification.call).Perm semaphore.parkedCalls := by
  rw [closeSession_eq, List.map_append, AcquireWaiter.map_call_answer]
  have hkept := grantWaiters_parkedCalls (semaphore.withoutSession session)
  have hsplit := (List.filter_append_perm (fun waiter => waiter.session = some session)
    semaphore.waiters).map AcquireWaiter.call
  rw [List.map_append] at hsplit
  refine List.Perm.trans ?_ hsplit
  rw [← List.append_assoc]
  refine (List.perm_append_comm.append_right _).trans ?_
  rw [List.append_assoc]
  refine List.Perm.append_left _ (hkept.trans (List.Perm.of_eq ?_))
  simp only [parkedCalls, withoutSession, ne_eq, decide_not]

/-- Calls that wait at a semaphore go on waiting or are answered as one times out. -/
theorem expireWaiter_parkedCalls (semaphore : Semaphore) (uid : InvocationUid) :
    ((semaphore.expireWaiter uid).1.parkedCalls ++
        (semaphore.expireWaiter uid).2.map Notification.call).Perm semaphore.parkedCalls := by
  cases hfind : semaphore.waiters.find? (fun waiter => waiter.uid = uid) with
  | none =>
    rw [expireWaiter_of_find?_none hfind]
    exact List.Perm.of_eq (List.append_nil _)
  | some waiter =>
    rw [expireWaiter_of_find? hfind, List.map_cons, AcquireWaiter.call_answer]
    have hkept := grantWaiters_parkedCalls (semaphore.withoutUid uid)
    have herase : (waiter :: (semaphore.withoutUid uid).waiters).Perm semaphore.waiters :=
      perm_eraseP_of_find? hfind
    exact List.perm_middle.trans ((hkept.cons _).trans (herase.map AcquireWaiter.call))

/-- Serving answers the calls that it takes out of the queue. -/
theorem Serving.conserves {semaphore : Semaphore} {result : Semaphore × List Notification}
    (h : Serving semaphore result) :
    (result.1.parkedCalls ++ result.2.map Notification.call).Perm semaphore.parkedCalls := by
  cases h with
  | quiet hwaiters havailable =>
    rw [parkedCalls, hwaiters]
    exact List.Perm.of_eq (List.append_nil _)
  | @served changed hwaiters =>
    have hsame : changed.parkedCalls = semaphore.parkedCalls := by
      rw [parkedCalls, hwaiters, parkedCalls]
    exact hsame ▸ grantWaiters_parkedCalls changed

theorem parkedEntry_call (invocation : Invocation) (uid : InvocationUid) (permits : UInt32)
    (timeout : Option Millis) (now : Millis) :
    (parkedEntry invocation uid permits timeout now).call =
      ⟨SemaphoreOp.acquireKind, uid, invocation.session⟩ := by
  have hsession : (parkedEntry invocation uid permits timeout now).session =
      invocation.session := by
    simp [parkedEntry, AcquireWaiter.session, Invocation.holder, Function.comp_def]
  rw [AcquireWaiter.call, hsession]
  rfl

/-- An acquire answers no parked call. -/
theorem acquire_notes (semaphore : Semaphore) (invocation : Invocation) (permits : UInt32)
    (timeout : Option Millis) (now : Millis) :
    (semaphore.acquire invocation permits timeout now).notes = [] := by
  have houtcome := acquire_outcome semaphore invocation permits timeout now
  generalize semaphore.acquire invocation permits timeout now = outcome at houtcome
  cases houtcome <;> rfl

/-- An acquire adds the call that joins the queue, at its end, and no other. -/
theorem acquire_joining (semaphore : Semaphore) (invocation : Invocation)
    (permits : UInt32) (timeout : Option Millis) (now : Millis) :
    (semaphore.acquire invocation permits timeout now).state.parkedCalls =
      semaphore.parkedCalls ++ (joining SemaphoreOp.acquireKind invocation
        (semaphore.acquire invocation permits timeout now).answer
        (semaphore.waiters.map AcquireWaiter.uid)).toList := by
  have houtcome := acquire_outcome semaphore invocation permits timeout now
  generalize semaphore.acquire invocation permits timeout now = outcome at houtcome
  cases houtcome with
  | failed failure =>
    rw [joining_of_answered (by simp)]
    exact (List.append_nil _).symm
  | joined hmem huid =>
    rw [joining_of_mem huid.symm (List.mem_map_of_mem hmem)]
    exact (List.append_nil _).symm
  | granted hpermits hempty hfit =>
    rw [joining_of_answered (by simp), parkedCalls, grant_waiters]
    exact (List.append_nil _).symm
  | refused hpermits htimeout hnew =>
    rw [joining_of_answered (by simp)]
    exact (List.append_nil _).symm
  | @parked hpermits htimeout uid huid hnew hunfit =>
    have hfresh : uid ∉ semaphore.waiters.map AcquireWaiter.uid := by
      intro hmem
      obtain ⟨waiter, hwaiter, heq⟩ := List.mem_map.mp hmem
      exact hnew waiter hwaiter heq
    rw [joining_of_not_mem huid hfresh, parkedCalls, List.map_append, List.map_singleton,
      parkedEntry_call]
    rfl

/-- A semaphore's step keeps the parked calls and the answered ones together, or it parks its
    caller, which is told to wait. -/
theorem step_parkedCalls (overdraft : Bool) (semaphore : Semaphore) (op : SemaphoreOp)
    (invocation : Invocation) (now : Millis) :
    let step := Semaphores.step overdraft semaphore op invocation now
    (step.state.parkedCalls ++ step.notes.map Notification.call).Perm semaphore.parkedCalls ∨
      ∃ uid, invocation.uid = some uid ∧ op.kind = SemaphoreOp.acquireKind ∧
        step.answer = .waiting ∧ step.notes = [] ∧
        step.state.parkedCalls =
          semaphore.parkedCalls ++ [⟨SemaphoreOp.acquireKind, uid, invocation.session⟩] := by
  by_cases hacquire : ∃ permits timeout, op = .acquire permits timeout
  · obtain ⟨permits, timeout, rfl⟩ := hacquire
    have hnotes := semaphore.acquire_notes invocation permits timeout now
    have hjoining := semaphore.acquire_joining invocation permits timeout now
    rcases joining_cases hjoining with hsame | ⟨uid, huid, hanswer, hparked⟩
    · left
      simp only [Semaphores.step]
      rw [hnotes, hsame]
      exact List.Perm.of_eq (List.append_nil _)
    · exact .inr ⟨uid, huid, rfl, hanswer, hnotes, hparked⟩
  · have hserving := step_serving overdraft semaphore
      (fun permits timeout heq => hacquire ⟨permits, timeout, heq⟩) invocation now
    exact .inl hserving.conserves

end Semaphore

namespace Latch

def parkedCalls (latch : Latch) : List ParkedCall := latch.waiters.map AwaitWaiter.call

/-- Only awaits wait at a latch. -/
theorem kind_of_parked (latch : Latch) :
    ∀ call ∈ latch.parkedCalls, call.kind = LatchOp.awaitKind := by
  intro call hmem
  obtain ⟨waiter, -, rfl⟩ := List.mem_map.mp hmem
  rfl

/-- An event that is no await keeps the parked calls and the answered ones together. -/
theorem Change.conserves {name : String} {latch : Latch} {event : ObjectEvent LatchOp}
    {result : Latch × List Notification} (h : Change name latch event result)
    (hevent : ∀ timeout invocation now, event ≠ .call (.await timeout) invocation now) :
    (result.1.parkedCalls ++ result.2.map Notification.call).Perm latch.parkedCalls := by
  cases h with
  | parked hclosed htimeout huid hnew => exact absurd rfl (hevent _ _ _)
  | opened hlast => exact List.Perm.of_eq (AwaitWaiter.map_call_answer latch.waiters _)
  | disconnected howner => exact List.Perm.of_eq (AwaitWaiter.map_call_answer latch.waiters _)
  | timedOut hfind =>
    have herase := (perm_eraseP_of_find? hfind).map AwaitWaiter.call
    exact List.perm_middle.trans ((List.Perm.of_eq (List.append_nil _)).cons _ |>.trans herase)
  | _ => exact List.Perm.of_eq (List.append_nil _)

/-- Calls that wait at a latch go on waiting or are answered as its owner leaves. -/
theorem releaseOwner_parkedCalls (name : String) (latch : Latch) (session : SessionId) :
    ((latch.releaseOwner name session).1.parkedCalls ++
        (latch.releaseOwner name session).2.map Notification.call).Perm latch.parkedCalls :=
  (react_change name latch (.sessionClosed session)).conserves (by simp)

-- From here on the name does not matter: it only shows in the failure of a disconnected round.

/-- Calls that wait at a latch go on waiting or are answered as one times out. -/
theorem expireWaiter_parkedCalls (latch : Latch) (uid : InvocationUid) :
    ((latch.expireWaiter uid).1.parkedCalls ++
        (latch.expireWaiter uid).2.map Notification.call).Perm latch.parkedCalls :=
  (react_change "" latch (.timedOut uid)).conserves (by simp)

/-- An await answers no parked call. -/
theorem await_notes (latch : Latch) (invocation : Invocation) (timeout : Option Millis)
    (now : Millis) : (latch.await invocation timeout now).notes = [] := by
  have houtcome := await_outcome latch invocation timeout now
  generalize latch.await invocation timeout now = outcome at houtcome
  cases houtcome <;> rfl

/-- An await adds the call that joins the queue, at its end, and no other. -/
theorem await_joining (latch : Latch) (invocation : Invocation) (timeout : Option Millis)
    (now : Millis) :
    (latch.await invocation timeout now).state.parkedCalls =
      latch.parkedCalls ++ (joining LatchOp.awaitKind invocation
        (latch.await invocation timeout now).answer (latch.waiters.map AwaitWaiter.uid)).toList := by
  have houtcome := await_outcome latch invocation timeout now
  generalize latch.await invocation timeout now = outcome at houtcome
  cases houtcome with
  | joined hmem huid =>
    rw [joining_of_mem huid (List.mem_map_of_mem hmem)]
    exact (List.append_nil _).symm
  | @parked hclosed htimeout uid huid hnew =>
    have hfresh : uid ∉ latch.waiters.map AwaitWaiter.uid := by
      intro hmem
      obtain ⟨waiter, hwaiter, heq⟩ := List.mem_map.mp hmem
      exact hnew waiter hwaiter heq
    rw [joining_of_not_mem huid hfresh, parkedCalls, List.map_append]
    rfl
  | _ =>
    rw [joining_of_answered (by simp)]
    exact (List.append_nil _).symm

/-- A latch's step keeps the parked calls and the answered ones together, or it parks its caller,
    which is told to wait. -/
theorem call_parkedCalls (latch : Latch) (op : LatchOp) (invocation : Invocation) (now : Millis) :
    let step := latch.call op invocation now
    (step.state.parkedCalls ++ step.notes.map Notification.call).Perm latch.parkedCalls ∨
      ∃ uid, invocation.uid = some uid ∧ op.kind = LatchOp.awaitKind ∧
        step.answer = .waiting ∧ step.notes = [] ∧
        step.state.parkedCalls =
          latch.parkedCalls ++ [⟨LatchOp.awaitKind, uid, invocation.session⟩] := by
  by_cases hawait : ∃ timeout, op = .await timeout
  · obtain ⟨timeout, rfl⟩ := hawait
    have hnotes := latch.await_notes invocation timeout now
    have hjoining := latch.await_joining invocation timeout now
    rcases joining_cases hjoining with hsame | ⟨uid, huid, hanswer, hparked⟩
    · left
      simp only [call]
      rw [hnotes, hsame]
      exact List.Perm.of_eq (List.append_nil _)
    · exact .inr ⟨uid, huid, rfl, hanswer, hnotes, hparked⟩
  · have hchange := react_change "" latch (.call op invocation now)
    exact .inl (hchange.conserves fun timeout _ _ heq => hawait ⟨timeout, by cases heq; rfl⟩)

end Latch

end Quorum
