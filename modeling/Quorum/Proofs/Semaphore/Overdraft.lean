import Quorum.Proofs.Semaphore.Ledger

namespace Quorum

/-- The ledger as if what was written off had been configured. -/
def Ledger.backed (ledger : Ledger) (writtenOff : Nat) : Ledger :=
  ledger.configure (ledger.configured + writtenOff)

namespace Semaphore

/-- What an event writes off: a drain drops a negative balance. -/
def writeOff (semaphore : Semaphore) : ObjectEvent SemaphoreOp → Nat
  | .call .drain _ _ => (-semaphore.available).toNat
  | _ => 0

/-- The semaphore as if what was written off had been configured. -/
def backed (semaphore : Semaphore) (writtenOff : Nat) : Semaphore :=
  { semaphore with capacity := semaphore.capacity + writtenOff }

/-- Granting does not look at what was written off. -/
theorem grantAll_backed (semaphore : Semaphore) (writtenOff : Nat) (waiters : List AcquireWaiter) :
    (semaphore.backed writtenOff).grantAll waiters =
      (semaphore.grantAll waiters).backed writtenOff := by
  induction waiters generalizing semaphore with
  | nil => rfl
  | cons waiter rest ih =>
    have hfirst : (semaphore.backed writtenOff).grant waiter.holder waiter.permits =
        (semaphore.grant waiter.holder waiter.permits).backed writtenOff := by
      cases waiter.holder <;> rfl
    rw [grantAll_cons, grantAll_cons, hfirst, ih]

theorem postAll_backed (ledger : Ledger) (writtenOff : Nat) (waiters : List AcquireWaiter) :
    (ledger.backed writtenOff).postAll waiters = (ledger.postAll waiters).backed writtenOff := by
  induction waiters generalizing ledger with
  | nil => rfl
  | cons waiter rest ih => exact ih (ledger.post waiter.holder waiter.permits.toNat)

/-- Draining does not look at what was written off. -/
theorem drain_backed (semaphore : Semaphore) (writtenOff : Nat) (invocation : Invocation) :
    (semaphore.backed writtenOff).drain invocation =
      ((semaphore.drain invocation).1, (semaphore.drain invocation).2.backed writtenOff) := by
  unfold drain
  cases invocation.holder with
  | none => rfl
  | some owner =>
    simp only
    by_cases hsome : 0 < semaphore.available.toNat
    · simp only [backed, hsome, if_true]
    · simp only [backed, hsome, if_false]

/-- Every permit is available, held by a session, taken by a caller without one, or written off; and
    before the first configuration there is none. -/
structure Covered (semaphore : Semaphore) (ledger : Ledger) (writtenOff : Nat) : Prop where
  balanced : (semaphore.backed writtenOff).Balanced (ledger.backed writtenOff)
  unused : semaphore.initialized = false →
    semaphore.capacity = 0 ∧ 0 ≤ semaphore.available ∧ writtenOff = 0

/-- A new semaphore has nothing written off. -/
theorem covered_new : Covered {} {} 0 where
  balanced := balanced_new
  unused _ := ⟨rfl, Int.le_refl 0, rfl⟩

variable {semaphore before : Semaphore} {ledger : Ledger} {writtenOff : Nat}

/-- Capacity and what was written off make up what is available, held and owed without a holder. -/
theorem Covered.capacity_eq (h : semaphore.Covered ledger writtenOff) :
    semaphore.capacity + writtenOff =
      semaphore.available + semaphore.totalHeld + ledger.account none :=
  h.balanced.capacity_eq

/-- What is available and held stays within the capacity exactly if no more was written off than
    callers without a session have taken. -/
theorem Covered.within_iff (h : semaphore.Covered ledger writtenOff) :
    semaphore.available + semaphore.totalHeld ≤ semaphore.capacity ↔
      (writtenOff : Int) ≤ ledger.account none := by
  have hcapacity := h.capacity_eq
  omega

/-- Callers without a session can give back what they took, less what was written off. -/
theorem Covered.release_iff (h : semaphore.Covered ledger writtenOff) {invocation : Invocation}
    (hsession : invocation.session = none) {permits : UInt32} (hpermits : 0 < permits.toNat) :
    (semaphore.release invocation permits).answer = .ok () ↔
      (permits.toNat : Int) + writtenOff ≤ ledger.account none := by
  have hcapacity := h.capacity_eq
  have hholder : invocation.holder = none := by rw [Invocation.holder, hsession, Option.map_none]
  have hsome : permits ≠ 0 := by
    rintro rfl
    exact Nat.lt_irrefl 0 hpermits
  have hroom : semaphore.capacity < semaphore.available + semaphore.totalHeld + permits.toNat ↔
      ¬ ((permits.toNat : Int) + writtenOff ≤ ledger.account none) := by omega
  unfold release
  simp only [hsome, if_false, hholder, hroom]
  by_cases hfits : (permits.toNat : Int) + writtenOff ≤ ledger.account none
  · simp [hfits]
  · simp [hfits]

/-- Serving the queue writes nothing off. -/
theorem Covered.grantWaiters (h : semaphore.Covered ledger writtenOff) (hbefore : before.Orderly)
    (hqueue : ∀ waiter ∈ semaphore.waiters, waiter ∈ before.waiters) :
    semaphore.grantWaiters.1.Covered (ledger.grants before.waiters semaphore.grantWaiters.2)
      writtenOff := by
  obtain ⟨granted, rest, hsplit, hserve, hfits, -⟩ := serve_spec semaphore semaphore.waiters
  have hgranted : ∀ waiter ∈ granted, waiter ∈ before.waiters := fun waiter hmem =>
    hqueue waiter (hsplit ▸ List.mem_append_left rest hmem)
  have hbalanced := h.balanced.grantAll fun waiter hmem =>
    hbefore.asks waiter (hgranted waiter hmem)
  rw [grantAll_backed, postAll_backed] at hbalanced
  rw [Semaphore.grantWaiters, hserve, Ledger.grants_granted ledger hbefore.distinct hgranted]
  refine ⟨hbalanced.withWaiters rest, fun hunused => ?_⟩
  obtain ⟨hcapacity, havailable, hnone⟩ :=
    h.unused ((grantAll_initialized semaphore granted).symm.trans hunused)
  refine ⟨(grantAll_capacity semaphore granted).trans hcapacity, ?_, hnone⟩
  rcases hfits with rfl | hfits
  · exact havailable
  · exact hfits

/-- Closing a session settles its account and writes nothing off. -/
theorem Covered.closeSession (h : semaphore.Covered ledger writtenOff)
    (horderly : semaphore.Orderly) (session : SessionId) :
    (semaphore.closeSession session).1.Covered
      ((ledger.settle session).grants semaphore.waiters (semaphore.closeSession session).2)
      writtenOff := by
  have hclosed : (semaphore.withoutSession session).Covered (ledger.settle session) writtenOff := by
    refine ⟨h.balanced.withoutSession session, fun hunused => ?_⟩
    obtain ⟨hcapacity, havailable, hnone⟩ := h.unused hunused
    refine ⟨hcapacity, ?_, hnone⟩
    change 0 ≤ semaphore.available + semaphore.heldBy session
    omega
  rw [grants_closeSession, closeSession_eq]
  exact hclosed.grantWaiters horderly fun _ hmem => (List.mem_filter.mp hmem).1

/-- A timeout writes nothing off. -/
theorem Covered.expireWaiter (h : semaphore.Covered ledger writtenOff)
    (horderly : semaphore.Orderly) (uid : InvocationUid) :
    (semaphore.expireWaiter uid).1.Covered
      (ledger.grants semaphore.waiters (semaphore.expireWaiter uid).2) writtenOff := by
  cases hfind : semaphore.waiters.find? (fun waiter => waiter.uid = uid) with
  | none =>
    rw [expireWaiter_of_find?_none hfind]
    exact h
  | some waiter =>
    have hleft : (semaphore.withoutUid uid).Covered ledger writtenOff :=
      ⟨h.balanced.withWaiters _, h.unused⟩
    rw [grants_expireWaiter ledger hfind, expireWaiter_of_find? hfind]
    exact hleft.grantWaiters horderly fun other hmem => List.mem_of_mem_eraseP hmem

/-- An acquire writes nothing off. -/
theorem Covered.acquire (h : semaphore.Covered ledger writtenOff) (invocation : Invocation)
    (permits : UInt32) (timeout : Option Millis) (now : Millis) :
    (semaphore.acquire invocation permits timeout now).notes = [] ∧
      (semaphore.acquire invocation permits timeout now).state.Covered
        (if (semaphore.acquire invocation permits timeout now).answer = .ok (.bool true) then
          ledger.post invocation.holder permits.toNat
        else ledger) writtenOff := by
  have houtcome := acquire_outcome semaphore invocation permits timeout now
  generalize semaphore.acquire invocation permits timeout now = outcome at houtcome
  cases houtcome with
  | failed failure => exact ⟨rfl, by simpa using h⟩
  | joined hmem huid => exact ⟨rfl, by simpa using h⟩
  | refused hpermits htimeout hnew => exact ⟨rfl, by simpa using h⟩
  | parked hpermits htimeout huid hnew hunfit =>
    refine ⟨rfl, ?_⟩
    rw [if_neg (by simp)]
    exact ⟨h.balanced.withWaiters _, h.unused⟩
  | granted hpermits hempty hfit =>
    refine ⟨rfl, ?_⟩
    rw [if_pos rfl]
    have hgranted := h.balanced.grant invocation.holder hpermits
    have hbacked : (semaphore.backed writtenOff).grant invocation.holder permits =
        (semaphore.grant invocation.holder permits).backed writtenOff := by
      cases invocation.holder <;> rfl
    rw [hbacked] at hgranted
    refine ⟨hgranted, fun hunused => ?_⟩
    rw [grant_initialized] at hunused
    obtain ⟨hcapacity, havailable, hnone⟩ := h.unused hunused
    rw [grant_capacity, grant_available]
    exact ⟨hcapacity, by omega, hnone⟩

/-- A release writes nothing off. -/
theorem Covered.release (h : semaphore.Covered ledger writtenOff) (horderly : semaphore.Orderly)
    (overdraft : Bool) (invocation : Invocation) (permits : UInt32) (now : Millis) :
    (semaphore.release invocation permits).state.Covered
      ((ledger.call overdraft semaphore (.release permits) invocation now).grants semaphore.waiters
        (semaphore.release invocation permits).notes) writtenOff := by
  have hcapacity := h.capacity_eq
  have hunused : semaphore.initialized = false → semaphore.capacity = 0 ∧
      0 ≤ semaphore.available + (permits.toNat : Int) ∧ writtenOff = 0 := by
    intro hfresh
    obtain ⟨hzero, havailable, hnone⟩ := h.unused hfresh
    exact ⟨hzero, by omega, hnone⟩
  unfold Ledger.call
  simp only
  have houtcome := release_outcome semaphore invocation permits
  generalize semaphore.release invocation permits = outcome at houtcome
  cases houtcome with
  | refused failure => exact h
  | owned howner hheld =>
    have hfreed := h.balanced.giveBack hheld
    rw [howner]
    exact Covered.grantWaiters ⟨hfreed, hunused⟩ horderly fun _ hmem => hmem
  | returned howner hroom =>
    have htaken : (permits.toNat : Int) ≤ (ledger.backed writtenOff).account none := by
      change (permits.toNat : Int) ≤ ledger.account none
      omega
    have hfreed := h.balanced.giveBackOutside htaken
    rw [howner]
    exact Covered.grantWaiters ⟨hfreed, hunused⟩ horderly fun _ hmem => hmem

/-- A drain takes what is available, or it writes off what is overdrawn. -/
theorem Covered.drain (h : semaphore.Covered ledger writtenOff) (invocation : Invocation) :
    (semaphore.drain invocation).2.Covered
      (ledger.post invocation.holder (semaphore.drain invocation).1)
      (writtenOff + (-semaphore.available).toNat) := by
  obtain ⟨hinitialized, hcapacity⟩ := drain_configuration semaphore invocation
  have hunused : (semaphore.drain invocation).2.initialized = false →
      (semaphore.drain invocation).2.capacity = 0 ∧
        0 ≤ (semaphore.drain invocation).2.available ∧
        writtenOff + (-semaphore.available).toNat = 0 := by
    intro hfresh
    rw [hinitialized] at hfresh
    obtain ⟨hzero, havailable, hnone⟩ := h.unused hfresh
    rw [hcapacity, drain_available]
    exact ⟨hzero, Int.le_refl 0, by omega⟩
  refine ⟨?_, hunused⟩
  rcases Int.le_total 0 semaphore.available with havailable | hoverdrawn
  · have hnone : (-semaphore.available).toNat = 0 := by omega
    have hdrained := h.balanced.drain havailable invocation
    rw [drain_backed] at hdrained
    rw [hnone]
    exact hdrained
  -- Nothing is taken, but the balance is lifted to zero: the overdraft is written off.
  · have hnone : semaphore.available.toNat = 0 := by omega
    have hlifted : semaphore.drain invocation = (0, { semaphore with available := 0 }) := by
      unfold Semaphore.drain
      cases invocation.holder <;> simp [hnone]
    have hposted : ledger.post invocation.holder ((0 : Nat) : Int) = ledger := by
      simp [Ledger.post]
    have hsum := h.capacity_eq
    have hconfigured := h.balanced.configured_eq
    rw [hlifted, hposted]
    refine ⟨h.balanced.held_eq, h.balanced.held_ne_zero, h.balanced.outside_nonneg, ?_, ?_⟩
    · change semaphore.capacity + ((writtenOff + (-semaphore.available).toNat : Nat) : Int) =
        0 + semaphore.totalHeld + ledger.account none
      omega
    · change semaphore.capacity + (writtenOff : Int) = ledger.configured + writtenOff at hconfigured
      change semaphore.capacity + ((writtenOff + (-semaphore.available).toNat : Nat) : Int) =
        ledger.configured + ((writtenOff + (-semaphore.available).toNat : Nat) : Int)
      omega

/-- An initialization writes nothing off. -/
theorem Covered.init (h : semaphore.Covered ledger writtenOff) (horderly : semaphore.Orderly)
    (permits : UInt32) :
    (semaphore.init permits).state.Covered
      ((if (semaphore.init permits).answer then ledger.configure permits.toNat else ledger).grants
        semaphore.waiters (semaphore.init permits).notes) writtenOff := by
  unfold Semaphore.init
  cases hinit : semaphore.initialized with
  | true => exact h
  | false =>
    obtain ⟨hcapacity, havailable, rfl⟩ := h.unused hinit
    have hsum := h.capacity_eq
    have houtside : 0 ≤ ledger.account none := h.balanced.outside_nonneg
    refine Covered.grantWaiters
      ⟨⟨h.balanced.held_eq, h.balanced.held_ne_zero, houtside, ?_, rfl⟩, ?_⟩ horderly
      fun _ hmem => hmem
    · change (permits.toNat : Int) + ((0 : Nat) : Int) =
        permits.toNat + semaphore.totalHeld + ledger.account none
      omega
    · intro hfalse
      cases hfalse

/-- An increase writes nothing off. -/
theorem Covered.increase (h : semaphore.Covered ledger writtenOff) (horderly : semaphore.Orderly)
    (permits : UInt32) :
    (semaphore.increase permits).state.Covered
      ((ledger.configure (ledger.configured + permits.toNat)).grants semaphore.waiters
        (semaphore.increase permits).notes) writtenOff := by
  have hsum := h.capacity_eq
  have hconfigured : semaphore.capacity + (writtenOff : Int) = ledger.configured + writtenOff :=
    h.balanced.configured_eq
  refine Covered.grantWaiters ⟨⟨h.balanced.held_eq, h.balanced.held_ne_zero,
    h.balanced.outside_nonneg, ?_, ?_⟩, ?_⟩ horderly fun _ hmem => hmem
  · change semaphore.capacity + (permits.toNat : Int) + writtenOff =
      semaphore.available + permits.toNat + semaphore.totalHeld + ledger.account none
    omega
  · change semaphore.capacity + (permits.toNat : Int) + writtenOff =
      ledger.configured + permits.toNat + writtenOff
    omega
  · intro hfalse
    cases hfalse

/-- Whether or not it overdraws the semaphore, reducing takes configured permits away. -/
theorem Covered.reduce {reduced : Semaphore} (h : semaphore.Covered ledger writtenOff)
    {permits : UInt32} {overdraft : Bool}
    (hreduce : semaphore.reduce permits overdraft = .ok reduced) :
    reduced.Covered (ledger.configure (ledger.configured - permits.toNat)) writtenOff := by
  have hsum := h.capacity_eq
  have hconfigured : semaphore.capacity + (writtenOff : Int) = ledger.configured + writtenOff :=
    h.balanced.configured_eq
  unfold Semaphore.reduce at hreduce
  simp only at hreduce
  split at hreduce
  · cases hreduce
  · cases hreduce
    refine ⟨⟨h.balanced.held_eq, h.balanced.held_ne_zero, h.balanced.outside_nonneg, ?_, ?_⟩, ?_⟩
    · change semaphore.capacity - (permits.toNat : Int) + writtenOff =
        semaphore.available - permits.toNat + semaphore.totalHeld + ledger.account none
      omega
    · change semaphore.capacity - (permits.toNat : Int) + writtenOff =
        ledger.configured - permits.toNat + writtenOff
      omega
    · intro hfalse
      cases hfalse

/-- No event loses or makes up permits but a drain of a negative balance. -/
theorem Covered.react (h : semaphore.Covered ledger writtenOff) (horderly : semaphore.Orderly)
    (overdraft : Bool) (event : ObjectEvent SemaphoreOp) :
    (semaphore.react overdraft event).1.Covered (ledger.book overdraft semaphore event)
      (writtenOff + semaphore.writeOff event) := by
  cases event with
  | sessionClosed session => exact h.closeSession horderly session
  | timedOut uid => exact h.expireWaiter horderly uid
  | destroyed => exact h
  | call op invocation now =>
    cases op with
    | init permits => exact h.init horderly permits
    | release permits => exact h.release horderly overdraft invocation permits now
    | drain => exact h.drain invocation
    | increase permits => exact h.increase horderly permits
    | availablePermits => exact h
    | acquire permits timeout =>
      obtain ⟨hnotes, hstate⟩ := h.acquire invocation permits timeout now
      simp only [Ledger.book, Semaphore.react, Semaphores.step, hnotes]
      exact hstate
    | reduce permits =>
      simp only [Ledger.book, Ledger.call, Semaphore.react, Semaphores.step]
      cases hreduce : semaphore.reduce permits overdraft with
      | ok reduced => exact h.reduce hreduce
      | error failure => exact h

/-- The semaphore balances, no permit is overdrawn, and none are configured before the first
    operation that does so. -/
structure Audited (semaphore : Semaphore) (ledger : Ledger) : Prop extends
    Balanced semaphore ledger where
  available_nonneg : 0 ≤ semaphore.available
  unused : semaphore.initialized = false → semaphore.capacity = 0

theorem audited_new : Audited {} {} where
  toBalanced := balanced_new
  available_nonneg := Int.le_refl 0
  unused _ := rfl

/-- A semaphore is audited if it is covered with nothing written off and nothing overdrawn. -/
theorem audited_iff_covered :
    semaphore.Audited ledger ↔ semaphore.Covered ledger 0 ∧ 0 ≤ semaphore.available := by
  have hsemaphore : semaphore.backed 0 = semaphore := by simp [backed]
  have hledger : ledger.backed 0 = ledger := by simp [Ledger.backed, Ledger.configure]
  constructor
  · intro h
    refine ⟨⟨?_, fun hunused => ⟨h.unused hunused, h.available_nonneg, rfl⟩⟩, h.available_nonneg⟩
    rw [hsemaphore, hledger]
    exact h.toBalanced
  · rintro ⟨h, havailable⟩
    have hbalanced := h.balanced
    rw [hsemaphore, hledger] at hbalanced
    exact ⟨hbalanced, havailable, fun hunused => (h.unused hunused).1⟩

/-- Serving the queue never goes below zero. -/
theorem grantWaiters_available_nonneg (h : 0 ≤ semaphore.available) :
    0 ≤ semaphore.grantWaiters.1.available := by
  obtain ⟨granted, rest, -, hserve, hfits, -⟩ := serve_spec semaphore semaphore.waiters
  rw [Semaphore.grantWaiters, hserve]
  rcases hfits with rfl | hfits
  · exact h
  · exact hfits

theorem release_available_nonneg (h : 0 ≤ semaphore.available) (invocation : Invocation)
    (permits : UInt32) : 0 ≤ (semaphore.release invocation permits).state.available := by
  have hfreed : 0 ≤ semaphore.available + (permits.toNat : Int) := by omega
  have houtcome := release_outcome semaphore invocation permits
  generalize semaphore.release invocation permits = outcome at houtcome
  cases houtcome with
  | refused failure => exact h
  | owned howner hheld => exact grantWaiters_available_nonneg hfreed
  | returned howner hroom => exact grantWaiters_available_nonneg hfreed

/-- An acquire never goes below zero. -/
theorem acquire_available_nonneg (h : 0 ≤ semaphore.available) (invocation : Invocation)
    (permits : UInt32) (timeout : Option Millis) (now : Millis) :
    0 ≤ (semaphore.acquire invocation permits timeout now).state.available := by
  have houtcome := acquire_outcome semaphore invocation permits timeout now
  generalize semaphore.acquire invocation permits timeout now = outcome at houtcome
  cases houtcome with
  | granted hpermits hempty hfit =>
    rw [grant_available]
    omega
  | _ => exact h

theorem expireWaiter_available_nonneg (h : 0 ≤ semaphore.available) (uid : InvocationUid) :
    0 ≤ (semaphore.expireWaiter uid).1.available := by
  unfold expireWaiter
  split
  · exact h
  · exact grantWaiters_available_nonneg h

/-- Without overdraft no event overdraws the semaphore. -/
theorem react_available_nonneg (h : 0 ≤ semaphore.available) (event : ObjectEvent SemaphoreOp) :
    0 ≤ (semaphore.react false event).1.available := by
  cases event with
  | timedOut uid => exact expireWaiter_available_nonneg h uid
  | destroyed => exact h
  | sessionClosed session =>
    have hclosed : 0 ≤ (semaphore.withoutSession session).available := by
      change 0 ≤ semaphore.available + semaphore.heldBy session
      omega
    rw [react, closeSession_eq]
    exact grantWaiters_available_nonneg hclosed
  | call op invocation now =>
    cases op with
    | release permits => exact release_available_nonneg h invocation permits
    | acquire permits timeout => exact acquire_available_nonneg h invocation permits timeout now
    | availablePermits => exact h
    | drain => exact Int.le_of_eq (drain_available semaphore invocation).symm
    | init permits =>
      simp only [react, Semaphores.step, Semaphore.init]
      split
      · exact h
      · exact grantWaiters_available_nonneg (Int.natCast_nonneg _)
    | increase permits =>
      have hraised : 0 ≤ semaphore.available + (permits.toNat : Int) := by omega
      exact grantWaiters_available_nonneg hraised
    | reduce permits =>
      simp only [react, Semaphores.step]
      split
      · rename_i reduced hreduce
        unfold Semaphore.reduce at hreduce
        simp only at hreduce
        split at hreduce
        · cases hreduce
        · rename_i hroom
          cases hreduce
          exact Int.not_lt.mp fun hlow => hroom ⟨hlow, Bool.false_ne_true⟩
      · exact h

/-- Without overdraft, no event makes the semaphore and its ledger disagree. -/
theorem Audited.react (h : semaphore.Audited ledger) (horderly : semaphore.Orderly)
    (event : ObjectEvent SemaphoreOp) :
    (semaphore.react false event).1.Audited (ledger.book false semaphore event) := by
  obtain ⟨hcovered, havailable⟩ := audited_iff_covered.mp h
  have hnothing : 0 + semaphore.writeOff event = 0 := by
    unfold writeOff
    split
    · omega
    · rfl
  have hafter := hcovered.react horderly false event
  rw [hnothing] at hafter
  exact audited_iff_covered.mpr ⟨hafter, react_available_nonneg havailable event⟩

end Semaphore

end Quorum
