import Quorum.Proofs.Semaphore.Reaction

namespace Quorum.Semaphore

/-- The head of the queue does not fit. -/
def HeadBlocked (semaphore : Semaphore) : Prop :=
  ∀ waiter ∈ semaphore.waiters.head?, semaphore.available < (waiter.permits.toNat : Int)

/-- A new semaphore has no head to block. -/
theorem headBlocked_new : HeadBlocked {} := by simp [HeadBlocked]

theorem headBlocked_of_waiters_nil {semaphore : Semaphore} (h : semaphore.waiters = []) :
    semaphore.HeadBlocked := by
  simp [HeadBlocked, h]

/-- Serving stops at a head that does not fit. -/
theorem grantWaiters_headBlocked (semaphore : Semaphore) :
    semaphore.grantWaiters.1.HeadBlocked := by
  obtain ⟨granted, rest, -, hserve, -, hhead⟩ := serve_spec semaphore semaphore.waiters
  rw [grantWaiters, hserve]
  exact hhead

/-- A head that did not fit does not fit after permits are taken away. -/
theorem HeadBlocked.of_le {semaphore after : Semaphore} (h : semaphore.HeadBlocked)
    (hwaiters : after.waiters = semaphore.waiters)
    (havailable : after.available ≤ semaphore.available) : after.HeadBlocked := by
  intro waiter hhead
  rw [hwaiters] at hhead
  exact Int.lt_of_le_of_lt havailable (h waiter hhead)

/-- A call that joins the queue does so behind a blocked head or is blocked itself. -/
theorem HeadBlocked.acquire {semaphore : Semaphore} (h : semaphore.HeadBlocked)
    (invocation : Invocation) (permits : UInt32) (timeout : Option Millis) (now : Millis) :
    (semaphore.acquire invocation permits timeout now).state.HeadBlocked := by
  have houtcome := acquire_outcome semaphore invocation permits timeout now
  generalize semaphore.acquire invocation permits timeout now = outcome at houtcome
  cases houtcome with
  | failed failure => exact h
  | joined hmem huid => exact h
  | refused hpermits htimeout hnew => exact h
  | granted hpermits hempty hfit =>
    exact headBlocked_of_waiters_nil ((grant_waiters semaphore _ _).trans hempty)
  | @parked hpermits htimeout uid huid hnew hunfit =>
    intro waiter hhead
    cases hwaiters : semaphore.waiters with
    | nil =>
      -- The caller is the head now, and it was parked because it does not fit.
      rw [hwaiters, List.nil_append, List.head?_cons] at hhead
      obtain rfl := Option.some.inj hhead
      exact hunfit hwaiters
    | cons first rest =>
      rw [hwaiters, List.cons_append, List.head?_cons] at hhead
      exact h waiter (by rwa [hwaiters, List.head?_cons])

/-- Whatever serves the queue leaves a blocked head. -/
theorem HeadBlocked.of_serving {semaphore : Semaphore} (h : semaphore.HeadBlocked)
    (horderly : semaphore.Orderly) {result : Semaphore × List Notification}
    (hserving : Serving semaphore result) : result.1.HeadBlocked := by
  cases hserving with
  | served hwaiters => exact grantWaiters_headBlocked _
  | quiet hwaiters havailable =>
    rcases havailable with hless | hnone
    · exact h.of_le hwaiters hless
    · -- A drain that lifts a negative balance leaves nothing for those who ask for something.
      intro waiter hhead
      have hasks := horderly.asks waiter (hwaiters ▸ List.mem_of_head? hhead)
      rw [hnone]
      omega

/-- A timeout serves the queue and leaves a blocked head. -/
theorem HeadBlocked.expireWaiter {semaphore : Semaphore} (h : semaphore.HeadBlocked)
    (uid : InvocationUid) : (semaphore.expireWaiter uid).1.HeadBlocked := by
  cases hfind : semaphore.waiters.find? (fun waiter => waiter.uid = uid) with
  | none =>
    rw [expireWaiter_of_find?_none hfind]
    exact h
  | some waiter =>
    rw [expireWaiter_of_find? hfind]
    exact grantWaiters_headBlocked _

/-- After every event the head of the queue does not fit. -/
theorem HeadBlocked.react {semaphore : Semaphore} (h : semaphore.HeadBlocked)
    (horderly : semaphore.Orderly) (overdraft : Bool) (event : ObjectEvent SemaphoreOp) :
    (semaphore.react overdraft event).1.HeadBlocked := by
  cases event with
  | timedOut uid => exact h.expireWaiter uid
  | destroyed => exact h
  | sessionClosed session =>
    rw [Semaphore.react, closeSession_eq]
    exact grantWaiters_headBlocked _
  | call op invocation now =>
    cases op with
    | acquire permits timeout => exact h.acquire invocation permits timeout now
    | _ => exact h.of_serving horderly (step_serving overdraft semaphore (by simp) invocation now)

end Quorum.Semaphore
