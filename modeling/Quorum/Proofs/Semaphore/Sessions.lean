import Quorum.Proofs.Semaphore.Reaction

namespace Quorum.Semaphore

/-- The session holds permits under one of its threads. -/
def HeldUnder (semaphore : Semaphore) (session : SessionId) : Prop :=
  ∃ thread permits, semaphore.held.get? (session, thread) = some permits

/-- The session has a call parked. -/
def QueuedUnder (semaphore : Semaphore) (session : SessionId) : Prop :=
  ∃ waiter ∈ semaphore.waiters, waiter.session = some session

def Involves (semaphore : Semaphore) (session : SessionId) : Prop :=
  semaphore.HeldUnder session ∨ semaphore.QueuedUnder session

/-- A new semaphore involves no session. -/
theorem not_involves_new (session : SessionId) : ¬ Involves {} session := by
  rintro (⟨thread, permits, hget⟩ | ⟨waiter, hmem, -⟩)
  · cases hget
  · cases hmem

theorem holder_session {invocation : Invocation} {owner : Holder}
    (h : invocation.holder = some owner) : invocation.session = some owner.1 := by
  obtain ⟨session, hsession, rfl⟩ := Option.map_eq_some_iff.mp h
  exact hsession

theorem heldUnder_of_insert {map : SortedMap Holder Nat} {owner : Holder} {permits : Nat}
    {session : SessionId}
    (h : ∃ thread n, (map.insert owner permits).get? (session, thread) = some n) :
    (∃ thread n, map.get? (session, thread) = some n) ∨ owner.1 = session := by
  obtain ⟨thread, n, hget⟩ := h
  rw [SortedMap.get?_insert] at hget
  split at hget
  · rename_i howner
    exact .inr (by rw [howner])
  · exact .inl ⟨thread, n, hget⟩

/-- A grant brings in its holder's session alone. -/
theorem heldUnder_of_grant {semaphore : Semaphore} {holder : Option Holder} {permits : UInt32}
    {session : SessionId} (h : (semaphore.grant holder permits).HeldUnder session) :
    semaphore.HeldUnder session ∨ holder.map (·.1) = some session := by
  cases holder with
  | none => exact .inl h
  | some owner =>
    rcases heldUnder_of_insert h with hold | howner
    · exact .inl hold
    · exact .inr (by rw [Option.map_some, howner])

/-- Grants bring in the sessions of the served alone, by induction on them. -/
theorem heldUnder_of_grantAll {semaphore : Semaphore} {waiters : List AcquireWaiter}
    {session : SessionId} (h : (semaphore.grantAll waiters).HeldUnder session) :
    semaphore.HeldUnder session ∨ ∃ waiter ∈ waiters, waiter.session = some session := by
  induction waiters generalizing semaphore with
  | nil => exact .inl h
  | cons waiter rest ih =>
    rcases ih h with hgrant | ⟨other, hmem, hsession⟩
    · rcases heldUnder_of_grant hgrant with hold | hown
      · exact .inl hold
      · exact .inr ⟨waiter, List.mem_cons_self, hown⟩
    · exact .inr ⟨other, List.mem_cons_of_mem _ hmem, hsession⟩

/-- Serving the queue involves nobody new. -/
theorem involves_of_grantWaiters {semaphore : Semaphore} {session : SessionId}
    (h : semaphore.grantWaiters.1.Involves session) : semaphore.Involves session := by
  obtain ⟨granted, rest, hqueue, hserve, -, -⟩ := serve_spec semaphore semaphore.waiters
  rw [grantWaiters, hserve] at h
  have hgranted : ∀ waiter ∈ granted, waiter ∈ semaphore.waiters := fun waiter hmem =>
    hqueue ▸ List.mem_append_left rest hmem
  have hrest : ∀ waiter ∈ rest, waiter ∈ semaphore.waiters := fun waiter hmem =>
    hqueue ▸ List.mem_append_right granted hmem
  rcases h with hheld | ⟨waiter, hmem, hsession⟩
  · rcases heldUnder_of_grantAll hheld with hold | ⟨waiter, hmem, hsession⟩
    · exact .inl hold
    · exact .inr ⟨waiter, hgranted waiter hmem, hsession⟩
  · exact .inr ⟨waiter, hrest waiter hmem, hsession⟩

/-- A release brings in the caller's session alone. -/
theorem involves_of_release {semaphore : Semaphore} {invocation : Invocation} {permits : UInt32}
    {session : SessionId} (h : (semaphore.release invocation permits).state.Involves session) :
    semaphore.Involves session ∨ invocation.session = some session := by
  have houtcome := release_outcome semaphore invocation permits
  generalize semaphore.release invocation permits = outcome at houtcome h
  cases houtcome with
  | refused failure => exact .inl h
  | returned howner hroom =>
    have hfreed := involves_of_grantWaiters h
    exact .inl hfreed
  | @owned owner kept howner hheld =>
    rcases involves_of_grantWaiters h with hset | hqueued
    · simp only [HeldUnder, setHeld] at hset
      split at hset
      · obtain ⟨thread, n, hget⟩ := hset
        rw [SortedMap.get?_erase] at hget
        split at hget
        · cases hget
        · exact .inl (.inl ⟨thread, n, hget⟩)
      · rcases heldUnder_of_insert hset with hold | hown
        · exact .inl (.inl hold)
        · exact .inr (by rw [holder_session howner, hown])
    · exact .inl (.inr hqueued)

/-- A drain brings in the caller's session alone. -/
theorem involves_of_drain {semaphore : Semaphore} {invocation : Invocation} {session : SessionId}
    (h : (semaphore.drain invocation).2.Involves session) :
    semaphore.Involves session ∨ invocation.session = some session := by
  unfold drain at h
  cases howner : invocation.holder with
  | none =>
    rw [howner] at h
    exact .inl h
  | some owner =>
    rw [howner] at h
    simp only at h
    split at h
    · rcases h with hheld | hqueued
      · rcases heldUnder_of_insert hheld with hold | hown
        · exact .inl (.inl hold)
        · exact .inr (by rw [holder_session howner, hown])
      · exact .inl (.inr hqueued)
    · exact .inl h

/-- An acquire brings in the caller's session alone. -/
theorem involves_of_acquire {semaphore : Semaphore} {invocation : Invocation} {permits : UInt32}
    {timeout : Option Millis} {now : Millis} {session : SessionId}
    (h : (semaphore.acquire invocation permits timeout now).state.Involves session) :
    semaphore.Involves session ∨ invocation.session = some session := by
  have houtcome := acquire_outcome semaphore invocation permits timeout now
  generalize semaphore.acquire invocation permits timeout now = outcome at houtcome h
  have hcaller : ∀ {session}, invocation.holder.map (·.1) = some session →
      invocation.session = some session := by
    intro session hsession
    obtain ⟨owner, howner, rfl⟩ := Option.map_eq_some_iff.mp hsession
    exact holder_session howner
  cases houtcome with
  | failed failure => exact .inl h
  | joined hmem huid => exact .inl h
  | refused hpermits htimeout hnew => exact .inl h
  | granted hpermits hempty hfit =>
    rcases h with hheld | ⟨waiter, hmem, hsession⟩
    · rcases heldUnder_of_grant hheld with hold | hown
      · exact .inl (.inl hold)
      · exact .inr (hcaller hown)
    · exact .inl (.inr ⟨waiter, grant_waiters semaphore _ _ ▸ hmem, hsession⟩)
  | parked hpermits htimeout huid hnew hunfit =>
    rcases h with hheld | ⟨waiter, hmem, hsession⟩
    · exact .inl (.inl hheld)
    · rcases List.mem_append.mp hmem with hold | hown
      · exact .inl (.inr ⟨waiter, hold, hsession⟩)
      · obtain rfl := List.mem_singleton.mp hown
        exact .inr (hcaller hsession)

/-- A removed session is involved no longer. -/
theorem involves_of_withoutSession {semaphore : Semaphore} {closed session : SessionId}
    (h : (semaphore.withoutSession closed).Involves session) :
    semaphore.Involves session ∧ session ≠ closed := by
  rcases h with ⟨thread, permits, hget⟩ | ⟨waiter, hmem, hsession⟩
  · simp only [withoutSession, SortedMap.get?_filter] at hget
    obtain ⟨hheld, hkept⟩ := Option.filter_eq_some_iff.mp hget
    exact ⟨.inl ⟨thread, permits, hheld⟩, of_decide_eq_true hkept⟩
  · obtain ⟨hqueued, hkept⟩ := List.mem_filter.mp hmem
    refine ⟨.inr ⟨waiter, hqueued, hsession⟩, fun heq => ?_⟩
    exact of_decide_eq_true hkept (by rw [hsession, heq])

/-- A closed session neither holds permits nor waits for any. -/
theorem not_involves_closed (semaphore : Semaphore) (session : SessionId) :
    ¬ (semaphore.closeSession session).1.Involves session := by
  rw [closeSession_eq]
  intro h
  exact (involves_of_withoutSession (involves_of_grantWaiters h)).2 rfl

/-- A timeout brings in no session. -/
theorem involves_of_expireWaiter {semaphore : Semaphore} {uid : InvocationUid}
    {session : SessionId} (h : (semaphore.expireWaiter uid).1.Involves session) :
    semaphore.Involves session := by
  cases hfind : semaphore.waiters.find? (fun waiter => waiter.uid = uid) with
  | none =>
    rwa [expireWaiter_of_find?_none hfind] at h
  | some waiter =>
    rw [expireWaiter_of_find? hfind] at h
    rcases involves_of_grantWaiters h with hheld | ⟨waiter, hmem, hsession⟩
    · exact .inl hheld
    · exact .inr ⟨waiter, List.mem_of_mem_eraseP hmem, hsession⟩

/-- An event involves nobody new but the caller's own session. -/
theorem involves_of_react {overdraft : Bool} {semaphore : Semaphore}
    {event : ObjectEvent SemaphoreOp} {session : SessionId}
    (h : (semaphore.react overdraft event).1.Involves session) :
    semaphore.Involves session ∨
      ∃ op invocation now, event = .call op invocation now ∧ invocation.session = some session := by
  cases event with
  | sessionClosed closed =>
    rw [react, closeSession_eq] at h
    exact .inl (involves_of_withoutSession (involves_of_grantWaiters h)).1
  | timedOut uid => exact .inl (involves_of_expireWaiter h)
  | destroyed => exact .inl h
  | call op invocation now =>
    suffices hcall : semaphore.Involves session ∨ invocation.session = some session from
      hcall.imp_right fun hsession => ⟨op, invocation, now, rfl, hsession⟩
    cases op with
    | release permits => exact involves_of_release h
    | drain => exact involves_of_drain h
    | acquire permits timeout => exact involves_of_acquire h
    | increase permits =>
      have hraised := involves_of_grantWaiters h
      exact .inl hraised
    | availablePermits => exact .inl h
    | init permits =>
      left
      simp only [react, Semaphores.step, init] at h
      split at h
      · exact h
      · have hset := involves_of_grantWaiters h
        exact hset
    | reduce permits =>
      left
      simp only [react, Semaphores.step, reduce] at h
      split at h
      · rename_i reduced hreduce
        split at hreduce
        · cases hreduce
        · cases hreduce
          exact h
      · exact h

end Quorum.Semaphore
