import Quorum.Proofs.Semaphore.Operations

namespace Quorum.Semaphore

def react (overdraft : Bool) (semaphore : Semaphore) :
    ObjectEvent SemaphoreOp → Semaphore × List Notification
  | .call op invocation now =>
    let outcome := Semaphores.step overdraft semaphore op invocation now
    (outcome.state, outcome.notes)
  | .sessionClosed session => semaphore.closeSession session
  | .timedOut uid => semaphore.expireWaiter uid
  | .destroyed => (semaphore, [])

theorem grantWaiters_waiters_sublist (semaphore : Semaphore) :
    semaphore.grantWaiters.1.waiters.Sublist semaphore.waiters :=
  (serve_waiters_suffix semaphore semaphore.waiters).sublist

theorem expireWaiter_waiters_sublist (semaphore : Semaphore) (uid : InvocationUid) :
    (semaphore.expireWaiter uid).1.waiters.Sublist semaphore.waiters := by
  cases hfind : semaphore.waiters.find? (fun waiter => waiter.uid = uid) with
  | none =>
    have hsame : (semaphore.expireWaiter uid).1.waiters = semaphore.waiters := by
      rw [expireWaiter_of_find?_none hfind]
    exact hsame ▸ List.Sublist.refl _
  | some waiter =>
    rw [expireWaiter_of_find? hfind]
    exact (grantWaiters_waiters_sublist _).trans List.eraseP_sublist

/-- A closing session takes its own calls from the queue, and only served ones go with them. -/
theorem closeSession_waiters_sublist (semaphore : Semaphore) (session : SessionId) :
    (semaphore.closeSession session).1.waiters.Sublist
      (semaphore.waiters.filter fun waiter => waiter.session ≠ some session) := by
  rw [closeSession_eq]
  exact grantWaiters_waiters_sublist (semaphore.withoutSession session)

/-- A drain leaves the queue alone. -/
theorem drain_waiters (semaphore : Semaphore) (invocation : Invocation) :
    (semaphore.drain invocation).2.waiters = semaphore.waiters := by
  unfold drain
  cases invocation.holder with
  | none => rfl
  | some owner =>
    simp only
    split <;> rfl

/-- A drain leaves nothing available. -/
theorem drain_available (semaphore : Semaphore) (invocation : Invocation) :
    (semaphore.drain invocation).2.available = 0 := by
  unfold drain
  cases invocation.holder with
  | none => rfl
  | some owner =>
    simp only
    split <;> rfl

/-- What an operation does to the queue: it lets it be and leaves no more to be granted, or it
    serves it. -/
inductive Serving (semaphore : Semaphore) : Semaphore × List Notification → Prop
  | quiet {changed : Semaphore} (hwaiters : changed.waiters = semaphore.waiters)
    (havailable : changed.available ≤ semaphore.available ∨ changed.available = 0) :
    Serving semaphore (changed, [])
  | served {changed : Semaphore} (hwaiters : changed.waiters = semaphore.waiters) :
    Serving semaphore changed.grantWaiters

theorem serving_self (semaphore : Semaphore) : Serving semaphore (semaphore, []) :=
  .quiet rfl (.inl (Int.le_refl _))

/-- An initialization serves the queue or does nothing. -/
theorem init_serving (semaphore : Semaphore) (permits : UInt32) :
    Serving semaphore ((semaphore.init permits).state, (semaphore.init permits).notes) := by
  unfold init
  split
  · exact serving_self semaphore
  · exact .served rfl

/-- A release serves the queue or does nothing. -/
theorem release_serving (semaphore : Semaphore) (invocation : Invocation) (permits : UInt32) :
    Serving semaphore ((semaphore.release invocation permits).state,
      (semaphore.release invocation permits).notes) := by
  have houtcome := release_outcome semaphore invocation permits
  generalize semaphore.release invocation permits = outcome at houtcome
  cases houtcome with
  | refused failure => exact serving_self semaphore
  | owned howner hheld => exact .served rfl
  | returned howner hroom => exact .served rfl

/-- A reduction answers nobody. -/
theorem reduce_serving {semaphore reduced : Semaphore} {permits : UInt32} {overdraft : Bool}
    (h : semaphore.reduce permits overdraft = .ok reduced) : Serving semaphore (reduced, []) := by
  unfold reduce at h
  simp only at h
  split at h
  · cases h
  · cases h
    exact .quiet rfl (.inl (Int.sub_le_self _ (Int.natCast_nonneg _)))

/-- Every operation but an acquire serves the queue or lets it be. -/
theorem step_serving (overdraft : Bool) (semaphore : Semaphore) {op : SemaphoreOp}
    (hop : ∀ permits timeout, op ≠ .acquire permits timeout) (invocation : Invocation)
    (now : Millis) :
    Serving semaphore ((Semaphores.step overdraft semaphore op invocation now).state,
      (Semaphores.step overdraft semaphore op invocation now).notes) := by
  cases op with
  | acquire permits timeout => exact absurd rfl (hop permits timeout)
  | init permits => exact init_serving semaphore permits
  | release permits => exact release_serving semaphore invocation permits
  | increase permits => exact .served rfl
  | availablePermits => exact serving_self semaphore
  | drain =>
    exact .quiet (drain_waiters semaphore invocation) (.inr (drain_available semaphore invocation))
  | reduce permits =>
    simp only [Semaphores.step]
    cases hreduce : semaphore.reduce permits overdraft with
    | ok reduced => exact reduce_serving hreduce
    | error failure => exact serving_self semaphore

theorem Serving.waiters_sublist {semaphore : Semaphore} {result : Semaphore × List Notification}
    (h : Serving semaphore result) : result.1.waiters.Sublist semaphore.waiters := by
  cases h with
  | quiet hwaiters havailable => exact hwaiters ▸ List.Sublist.refl _
  | served hwaiters => exact hwaiters ▸ grantWaiters_waiters_sublist _

/-- An event takes parked calls out of the queue, or parks its caller at the end. -/
theorem react_waiters (overdraft : Bool) (semaphore : Semaphore) (event : ObjectEvent SemaphoreOp) :
    (semaphore.react overdraft event).1.waiters.Sublist semaphore.waiters ∨
      ∃ invocation permits timeout now uid,
        event = .call (.acquire permits timeout) invocation now ∧ invocation.uid = some uid ∧
        timeout ≠ some 0 ∧ 0 < permits.toNat ∧ (∀ waiter ∈ semaphore.waiters, waiter.uid ≠ uid) ∧
        (semaphore.react overdraft event).1.waiters =
          semaphore.waiters ++ [parkedEntry invocation uid permits timeout now] := by
  cases event with
  | sessionClosed session =>
    exact .inl ((closeSession_waiters_sublist semaphore session).trans List.filter_sublist)
  | timedOut uid => exact .inl (expireWaiter_waiters_sublist semaphore uid)
  | destroyed => exact .inl (List.Sublist.refl _)
  | call op invocation now =>
    cases op with
    | acquire permits timeout =>
      simp only [react, Semaphores.step]
      have houtcome := acquire_outcome semaphore invocation permits timeout now
      generalize semaphore.acquire invocation permits timeout now = outcome at houtcome
      cases houtcome with
      | failed failure => exact .inl (List.Sublist.refl _)
      | joined hmem huid => exact .inl (List.Sublist.refl _)
      | granted hpermits hempty hfit =>
        exact .inl (grant_waiters semaphore invocation.holder permits ▸ List.Sublist.refl _)
      | refused hpermits htimeout hnew => exact .inl (List.Sublist.refl _)
      | parked hpermits htimeout huid hnew hunfit =>
        exact .inr ⟨invocation, permits, timeout, now, _, rfl, huid, htimeout, hpermits, hnew, rfl⟩
    | _ => exact .inl (step_serving overdraft semaphore (by simp) invocation now).waiters_sublist

/-- Parked calls ask for permits, and no token is parked twice. -/
structure Orderly (semaphore : Semaphore) : Prop where
  asks : ∀ waiter ∈ semaphore.waiters, 0 < waiter.permits.toNat
  distinct : (semaphore.waiters.map AcquireWaiter.uid).Nodup

theorem orderly_new : Orderly {} := ⟨by simp, by simp⟩

/-- Whatever happens to a semaphore keeps its queue orderly. -/
theorem Orderly.react {semaphore : Semaphore} (h : semaphore.Orderly) (overdraft : Bool)
    (event : ObjectEvent SemaphoreOp) : (semaphore.react overdraft event).1.Orderly := by
  rcases react_waiters overdraft semaphore event with
    hsub | ⟨invocation, permits, timeout, now, uid, -, -, -, hpermits, hnew, heq⟩
  · exact ⟨fun waiter hmem => h.asks waiter (hsub.subset hmem), h.distinct.sublist (hsub.map _)⟩
  · constructor
    · intro waiter hmem
      rw [heq] at hmem
      rcases List.mem_append.mp hmem with hold | hown
      · exact h.asks waiter hold
      · rw [List.mem_singleton.mp hown]
        exact hpermits
    · rw [heq, List.map_append]
      refine List.nodup_append.mpr ⟨h.distinct, by simp, ?_⟩
      intro a ha b hb
      obtain ⟨waiter, hmem, rfl⟩ := List.mem_map.mp ha
      obtain rfl : b = uid := by simpa [parkedEntry] using hb
      exact hnew waiter hmem

end Quorum.Semaphore
