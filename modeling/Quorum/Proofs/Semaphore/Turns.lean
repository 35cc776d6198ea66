import Quorum.Proofs.Turn

namespace Quorum.Semaphore

/-- Granting a prefix of the queue, in order, is first come first served. -/
theorem fifo_granted (granted rest : List AcquireWaiter) :
    Fifo ((granted ++ rest).map AcquireWaiter.call)
      ((granted.map AcquireWaiter.granted).map Turn.answered) (rest.map AcquireWaiter.call) := by
  induction granted with
  | nil => exact .done _
  | cons waiter granted ih =>
    have hgrant : waiter.granted.result = .ok (.bool true) := rfl
    exact .granted hgrant ih

/-- So is refusing some calls, in order, wherever they wait. -/
theorem fifo_refused (result : Reply) (hrefusal : result ≠ .ok (.bool true))
    (refuse : AcquireWaiter → Bool) (kept queue : List AcquireWaiter) :
    Fifo ((kept ++ queue).map AcquireWaiter.call)
      (((queue.filter refuse).map fun waiter => waiter.answer result).map Turn.answered)
      ((kept ++ queue.filter fun waiter => !refuse waiter).map AcquireWaiter.call) := by
  induction queue generalizing kept with
  | nil => exact .done _
  | cons waiter rest ih =>
    cases hwaiter : refuse waiter with
    | true =>
      have hrest := ih kept
      rw [List.map_append] at hrest
      rw [List.filter_cons_of_pos hwaiter, List.filter_cons_of_neg (by simp [hwaiter]),
        List.map_append, List.map_cons]
      have hrefused : (waiter.answer result).result ≠ .ok (.bool true) := hrefusal
      exact .refused hrefused hrest
    | false =>
      have hrest := ih (kept ++ [waiter])
      rw [List.append_assoc, List.append_assoc] at hrest
      rw [List.filter_cons_of_neg (by simp [hwaiter]), List.filter_cons_of_pos (by simp [hwaiter])]
      exact hrest

/-- Serving the queue after permits have changed is first come first served. -/
theorem grantWaiters_fifo {semaphore changed : Semaphore}
    (h : changed.waiters = semaphore.waiters) :
    Fifo semaphore.parkedCalls (changed.grantWaiters.2.map Turn.answered)
      changed.grantWaiters.1.parkedCalls := by
  obtain ⟨granted, rest, hqueue, hserve, -, -⟩ := serve_spec changed changed.waiters
  rw [grantWaiters, hserve, parkedCalls, ← h, hqueue]
  exact fifo_granted granted rest

/-- A closing session answers its own calls and serves the others in turn. -/
theorem closeSession_fifo (semaphore : Semaphore) (session : SessionId) :
    Fifo semaphore.parkedCalls ((semaphore.closeSession session).2.map Turn.answered)
      (semaphore.closeSession session).1.parkedCalls := by
  have hcancelled := fifo_refused (.error (.sessionExpired session)) nofun
    (fun waiter => waiter.session = some session) [] semaphore.waiters
  have hkept : (semaphore.withoutSession session).parkedCalls =
      (semaphore.waiters.filter fun waiter =>
        !decide (waiter.session = some session)).map AcquireWaiter.call := by
    simp only [parkedCalls, withoutSession, ne_eq, decide_not]
  have hserved : Fifo (semaphore.withoutSession session).parkedCalls _ _ := grantWaiters_fifo rfl
  rw [closeSession_eq, List.map_append]
  exact hcancelled.append (hkept ▸ hserved)

/-- A timeout answers its call and serves the others in turn. -/
theorem expireWaiter_fifo (semaphore : Semaphore) (uid : InvocationUid) :
    Fifo semaphore.parkedCalls ((semaphore.expireWaiter uid).2.map Turn.answered)
      (semaphore.expireWaiter uid).1.parkedCalls := by
  cases hfind : semaphore.waiters.find? (fun waiter => waiter.uid = uid) with
  | none =>
    rw [expireWaiter_of_find?_none hfind]
    exact .done _
  | some waiter =>
    obtain ⟨ahead, behind, hqueue, hleft⟩ := exists_split_of_find? hfind
    have hserved : Fifo (semaphore.withoutUid uid).parkedCalls _ _ := grantWaiters_fifo rfl
    rw [parkedCalls, hleft, List.map_append] at hserved
    have hrefused : (waiter.answer (.ok (.bool false))).result ≠ .ok (.bool true) := by
      simp [AcquireWaiter.answer]
    rw [expireWaiter_of_find? hfind, parkedCalls, hqueue, List.map_append, List.map_cons]
    exact .refused hrefused hserved

/-- Whatever serves the queue does so in turn. -/
theorem Serving.fifo {semaphore : Semaphore} {result : Semaphore × List Notification}
    (h : Serving semaphore result) :
    Fifo semaphore.parkedCalls (result.2.map Turn.answered) result.1.parkedCalls := by
  cases h with
  | served hwaiters => exact grantWaiters_fifo hwaiters
  | quiet hwaiters havailable =>
    rw [parkedCalls, parkedCalls, hwaiters]
    exact .done _

/-- An acquire is granted at once only if nobody waits. -/
theorem waiters_nil_of_granted {semaphore : Semaphore} {invocation : Invocation} {permits : UInt32}
    {timeout : Option Millis} {now : Millis}
    (h : (semaphore.acquire invocation permits timeout now).answer = .ok (.bool true)) :
    semaphore.waiters = [] := by
  have houtcome := acquire_outcome semaphore invocation permits timeout now
  generalize semaphore.acquire invocation permits timeout now = outcome at houtcome h
  cases houtcome with
  | granted hpermits hempty hfit => exact hempty
  | refused hpermits htimeout hnew => simp at h
  | failed failure => cases h
  | joined hmem huid => cases h
  | parked hpermits htimeout huid hnew hunfit => cases h

def IsAcquire : ObjectEvent SemaphoreOp → Prop
  | .call (.acquire _ _) _ _ => True
  | _ => False

/-- Every event but an acquire serves the queue first come first served. -/
theorem react_fifo {event : ObjectEvent SemaphoreOp} (h : ¬ IsAcquire event) (overdraft : Bool)
    (semaphore : Semaphore) :
    Fifo semaphore.parkedCalls ((semaphore.react overdraft event).2.map Turn.answered)
      (semaphore.react overdraft event).1.parkedCalls := by
  cases event with
  | sessionClosed session => exact closeSession_fifo semaphore session
  | timedOut uid => exact expireWaiter_fifo semaphore uid
  | destroyed => exact .done _
  | call op invocation now =>
    cases op with
    | acquire permits timeout => exact absurd trivial h
    | _ => exact (step_serving overdraft semaphore (by simp) invocation now).fifo

/-- The calls that are parked at a semaphore, if there is one. -/
def queue (semaphore? : Option Semaphore) : List ParkedCall :=
  (semaphore?.map parkedCalls).getD []

/-- The notifications that an event at the named semaphore gives. -/
def notesAt (overdraft : Bool) (name : String) (semaphore? : Option Semaphore) :
    ObjectEvent SemaphoreOp → List Notification
  | .destroyed =>
    ((semaphore?.map waiters).getD []).map fun waiter =>
      waiter.answer (.error (.objectDestroyed name))
  | event =>
    ((event.subject {} semaphore?).map fun semaphore =>
      (semaphore.react overdraft event).2).getD []

theorem queue_getD (semaphore? : Option Semaphore) :
    (semaphore?.getD {}).parkedCalls = queue semaphore? := by
  cases semaphore? <;> rfl

/-- Any event but an acquire answers calls in turn. -/
theorem fifo_notesAt {event : ObjectEvent SemaphoreOp} (h : ¬ IsAcquire event) (overdraft : Bool)
    (name : String) (semaphore? : Option Semaphore) :
    Fifo (queue semaphore?) ((notesAt overdraft name semaphore? event).map Turn.answered)
      (queue (ObjectEvent.follow {} (react overdraft) semaphore? event)) := by
  cases event with
  | call op invocation now =>
    rw [← queue_getD]
    exact react_fifo h overdraft (semaphore?.getD {})
  | sessionClosed session =>
    cases semaphore? with
    | none => exact .done _
    | some semaphore => exact react_fifo h overdraft semaphore
  | timedOut uid =>
    cases semaphore? with
    | none => exact .done _
    | some semaphore => exact react_fifo h overdraft semaphore
  | destroyed =>
    cases semaphore? with
    | none => exact .done _
    | some semaphore =>
      have hall := fifo_refused (.error (.objectDestroyed name)) nofun (fun _ => true) []
        semaphore.waiters
      rw [List.filter_eq_self.mpr (fun _ _ => rfl), List.filter_eq_nil_iff.mpr (by simp)] at hall
      exact hall

/-- The notifications that events at the named semaphore give. -/
def notesOf (overdraft : Bool) (name : String) (semaphore? : Option Semaphore)
    (events : List (ObjectEvent SemaphoreOp)) : List Notification :=
  ObjectEvent.replies {} (react overdraft) (notesAt overdraft name) semaphore? events

theorem notesOf_singleton (overdraft : Bool) (name : String) (semaphore? : Option Semaphore)
    (event : ObjectEvent SemaphoreOp) :
    notesOf overdraft name semaphore? [event] = notesAt overdraft name semaphore? event :=
  List.append_nil _

/-- Events without an acquire answer calls in turn, by induction on the events. -/
theorem fifo_notesOf {events : List (ObjectEvent SemaphoreOp)}
    (h : ∀ event ∈ events, ¬ IsAcquire event) (overdraft : Bool) (name : String)
    (semaphore? : Option Semaphore) :
    Fifo (queue semaphore?) ((notesOf overdraft name semaphore? events).map Turn.answered)
      (queue (events.foldl (ObjectEvent.follow {} (react overdraft)) semaphore?)) := by
  induction events generalizing semaphore? with
  | nil => exact .done _
  | cons event rest ih =>
    rw [notesOf, ObjectEvent.replies, List.map_append, List.foldl_cons]
    exact (fifo_notesAt (h event List.mem_cons_self) overdraft name semaphore?).append
      (ih (fun other hmem => h other (List.mem_cons_of_mem _ hmem)) _)

end Quorum.Semaphore
