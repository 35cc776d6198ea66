import Quorum.Proofs.Event
import Quorum.Proofs.Semaphore.Serving

namespace Quorum.Semaphore

/-- The entry under which a call is parked. -/
def parkedEntry (invocation : Invocation) (uid : InvocationUid) (permits : UInt32)
    (timeout : Option Millis) (now : Millis) : AcquireWaiter :=
  { uid, holder := invocation.holder, permits, deadline := deadline now timeout }

/-- The ends of an acquire. -/
inductive AcquireOutcome (semaphore : Semaphore) (invocation : Invocation) (permits : UInt32)
    (timeout : Option Millis) (now : Millis) : Step Semaphore Applied → Prop
  | failed (failure : Failure) :
    AcquireOutcome semaphore invocation permits timeout now
      { answer := .failed failure, state := semaphore }
  /-- The call is parked already. -/
  | joined {waiter : AcquireWaiter} (hmem : waiter ∈ semaphore.waiters)
      (huid : some waiter.uid = invocation.uid) :
    AcquireOutcome semaphore invocation permits timeout now
      { answer := .waiting, state := semaphore }
  | granted (hpermits : 0 < permits.toNat) (hempty : semaphore.waiters = [])
      (hfit : (permits.toNat : Int) ≤ semaphore.available) :
    AcquireOutcome semaphore invocation permits timeout now
      { answer := .ok (.bool true), state := semaphore.grant invocation.holder permits }
  | refused (hpermits : 0 < permits.toNat) (htimeout : timeout = some 0)
      (hnew : ∀ waiter ∈ semaphore.waiters, some waiter.uid ≠ invocation.uid) :
    AcquireOutcome semaphore invocation permits timeout now
      { answer := .ok (.bool false), state := semaphore }
  | parked (hpermits : 0 < permits.toNat) (htimeout : timeout ≠ some 0)
      {uid : InvocationUid} (huid : invocation.uid = some uid)
      (hnew : ∀ waiter ∈ semaphore.waiters, waiter.uid ≠ uid)
      (hunfit : semaphore.waiters = [] → semaphore.available < (permits.toNat : Int)) :
    AcquireOutcome semaphore invocation permits timeout now
      { answer := .waiting
        state := { semaphore with
          waiters := semaphore.waiters ++ [parkedEntry invocation uid permits timeout now] } }

theorem toNat_pos_of_ne_zero {permits : UInt32} (h : permits ≠ 0) : 0 < permits.toNat := by
  rcases Nat.eq_zero_or_pos permits.toNat with hzero | hpos
  · exact absurd (UInt32.toNat_inj.mp hzero) h
  · exact hpos

/-- What an acquire can do, by cases on the fast path. -/
theorem acquire_outcome (semaphore : Semaphore) (invocation : Invocation) (permits : UInt32)
    (timeout : Option Millis) (now : Millis) :
    AcquireOutcome semaphore invocation permits timeout now
      (semaphore.acquire invocation permits timeout now) := by
  unfold acquire
  by_cases hzero : permits = 0
  · simp only [hzero, if_true]
    exact .failed _
  have hpermits := toNat_pos_of_ne_zero hzero
  simp only [hzero, if_false]
  by_cases hqueued : semaphore.waiters.any (fun waiter => some waiter.uid = invocation.uid) = true
  · obtain ⟨waiter, hmem, huid⟩ := List.any_eq_true.mp hqueued
    simp only [hqueued, if_true]
    exact .joined hmem (of_decide_eq_true huid)
  have hnew : ∀ waiter ∈ semaphore.waiters, some waiter.uid ≠ invocation.uid := by
    intro waiter hmem huid
    exact hqueued (List.any_eq_true.mpr ⟨waiter, hmem, decide_eq_true huid⟩)
  simp only [hqueued]
  by_cases hgrant : semaphore.waiters.isEmpty ∧ (permits.toNat : Int) ≤ semaphore.available
  · simp only [hgrant, and_self, if_true]
    exact .granted hpermits (List.isEmpty_iff.mp hgrant.1) hgrant.2
  simp only [hgrant, if_false]
  by_cases htimeout : timeout = some 0
  · simp only [htimeout, if_true]
    exact .refused hpermits rfl hnew
  simp only [htimeout, if_false]
  cases huid : invocation.uid with
  | none => exact .failed _
  | some uid =>
    refine .parked hpermits htimeout huid (fun waiter hmem heq => ?_) (fun hempty => ?_)
    · exact hnew waiter hmem (by rw [heq, huid])
    · exact Int.not_le.mp fun hfit => hgrant ⟨List.isEmpty_iff.mpr hempty, hfit⟩

/-- Frees permits and serves the queue. -/
def free (semaphore : Semaphore) (permits : UInt32) : Semaphore × List Notification :=
  { semaphore with available := semaphore.available + permits.toNat }.grantWaiters

/-- The semaphore when a holder holds so many permits. Who holds none has no entry. -/
def setHeld (semaphore : Semaphore) (owner : Holder) (permits : Nat) : Semaphore :=
  { semaphore with
    held :=
      if permits = 0 then semaphore.held.erase owner else semaphore.held.insert owner permits }

/-- The ends of a release. -/
inductive ReleaseOutcome (semaphore : Semaphore) (invocation : Invocation) (permits : UInt32) :
    Step Semaphore (Except Failure Unit) → Prop
  | refused (failure : Failure) :
    ReleaseOutcome semaphore invocation permits { answer := .error failure, state := semaphore }
  | owned {owner : Holder} {kept : Nat} (howner : invocation.holder = some owner)
      (hheld : semaphore.held.getD owner 0 = kept + permits.toNat) :
    ReleaseOutcome semaphore invocation permits
      { answer := .ok ()
        state := ((semaphore.setHeld owner kept).free permits).1
        notes := ((semaphore.setHeld owner kept).free permits).2 }
  /-- A caller without a session gives back what such callers took out. -/
  | returned (howner : invocation.holder = none)
      (hroom : semaphore.available + semaphore.totalHeld + permits.toNat ≤ semaphore.capacity) :
    ReleaseOutcome semaphore invocation permits
      { answer := .ok (), state := (semaphore.free permits).1, notes := (semaphore.free permits).2 }

/-- What a release can do, by cases on its holder. -/
theorem release_outcome (semaphore : Semaphore) (invocation : Invocation) (permits : UInt32) :
    ReleaseOutcome semaphore invocation permits (semaphore.release invocation permits) := by
  unfold release
  by_cases hzero : permits = 0
  · simp only [hzero, if_true]
    exact .refused _
  have hpermits := toNat_pos_of_ne_zero hzero
  simp only [hzero, if_false]
  cases howner : invocation.holder with
  | some owner =>
    simp only
    by_cases hless : semaphore.held.getD owner 0 < permits.toNat
    · simp only [hless, if_true]
      exact .refused _
    simp only [hless, if_false]
    obtain ⟨kept, hkept⟩ := Nat.exists_eq_add_of_le' (Nat.not_lt.mp hless)
    have howned : ReleaseOutcome semaphore invocation permits _ := .owned howner hkept
    by_cases hall : semaphore.held.getD owner 0 = permits.toNat
    · obtain rfl : kept = 0 := by omega
      simp only [hall, if_true]
      exact howned
    · have hne : kept ≠ 0 := by omega
      simp only [setHeld, hne, if_false] at howned
      simp only [hall, if_false]
      rwa [hkept, Nat.add_sub_cancel]
  | none =>
    simp only
    by_cases hfull : semaphore.capacity <
        semaphore.available + (semaphore.totalHeld : Int) + (permits.toNat : Int)
    · simp only [hfull, if_true]
      exact .refused _
    · simp only [hfull, if_false]
      exact .returned howner (Int.not_lt.mp hfull)

/-- The semaphore without a session: its permits are available again, its parked calls are gone. -/
def withoutSession (semaphore : Semaphore) (session : SessionId) : Semaphore :=
  { semaphore with
    available := semaphore.available + semaphore.heldBy session
    held := semaphore.held.filter fun holder _ => holder.1 ≠ session
    waiters := semaphore.waiters.filter fun waiter => waiter.session ≠ some session }

/-- A closing session fails its queued calls, gives back its permits and lets the queue be
    served. -/
theorem closeSession_eq (semaphore : Semaphore) (session : SessionId) :
    semaphore.closeSession session =
      ((semaphore.withoutSession session).grantWaiters.1,
        ((semaphore.waiters.filter fun waiter => waiter.session = some session).map fun waiter =>
          waiter.answer (.error (.sessionExpired session))) ++
        (semaphore.withoutSession session).grantWaiters.2) := by
  have hkept : (fun waiter : AcquireWaiter => !decide (waiter.session = some session)) =
      fun waiter => decide (waiter.session ≠ some session) := by
    funext waiter
    simp
  simp only [closeSession, List.partition_eq_filter_filter, withoutSession, Function.comp_def,
    hkept]

/-- The semaphore without the first parked call of a token. -/
def withoutUid (semaphore : Semaphore) (uid : InvocationUid) : Semaphore :=
  { semaphore with waiters := semaphore.waiters.eraseP (fun waiter => waiter.uid = uid) }

/-- Expiring an unknown uid does nothing. -/
theorem expireWaiter_of_find?_none {semaphore : Semaphore} {uid : InvocationUid}
    (h : semaphore.waiters.find? (fun waiter => waiter.uid = uid) = none) :
    semaphore.expireWaiter uid = (semaphore, []) := by
  simp only [expireWaiter, h]

/-- An expired call is answered with `false` and the queue behind it is served. -/
theorem expireWaiter_of_find? {semaphore : Semaphore} {uid : InvocationUid}
    {waiter : AcquireWaiter}
    (h : semaphore.waiters.find? (fun waiter => waiter.uid = uid) = some waiter) :
    semaphore.expireWaiter uid =
      ((semaphore.withoutUid uid).grantWaiters.1,
        waiter.answer (.ok (.bool false)) :: (semaphore.withoutUid uid).grantWaiters.2) := by
  simp only [expireWaiter, h, withoutUid]

/-- The call that leaves is taken out of its place; the others keep theirs. -/
theorem exists_split_of_find? {semaphore : Semaphore} {uid : InvocationUid}
    {waiter : AcquireWaiter}
    (h : semaphore.waiters.find? (fun waiter => waiter.uid = uid) = some waiter) :
    ∃ ahead behind, semaphore.waiters = ahead ++ waiter :: behind ∧
      (semaphore.withoutUid uid).waiters = ahead ++ behind := by
  obtain ⟨hwaiter, ahead, behind, hqueue, hahead⟩ := List.find?_eq_some_iff_append.mp h
  refine ⟨ahead, behind, hqueue, ?_⟩
  simp only [withoutUid]
  rw [hqueue, List.eraseP_append_right _ fun other hmem => by simpa using hahead other hmem]
  exact congrArg (ahead ++ ·) (List.eraseP_cons_of_pos hwaiter)

end Quorum.Semaphore
