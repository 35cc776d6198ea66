import Quorum.Proofs.Semaphore.Operations

namespace Quorum.Semaphore

theorem grant_withWaiters (semaphore : Semaphore) (queue : List AcquireWaiter)
    (holder : Option Holder) (permits : UInt32) :
    { semaphore with waiters := queue }.grant holder permits =
      { semaphore.grant holder permits with waiters := queue } := by
  cases holder <;> rfl

/-- Serving looks at the queue that it is given, not at the semaphore's own. -/
theorem serve_withWaiters (semaphore : Semaphore) (own queue : List AcquireWaiter) :
    { semaphore with waiters := own }.serve queue = semaphore.serve queue := by
  induction queue generalizing semaphore with
  | nil => rfl
  | cons waiter rest ih =>
    let other : Semaphore := { semaphore with waiters := own }
    change other.serve (waiter :: rest) = semaphore.serve (waiter :: rest)
    by_cases hfit : semaphore.available < (waiter.permits.toNat : Int)
    · have hother : other.available < (waiter.permits.toNat : Int) := hfit
      rw [serve_cons_of_lt rest hfit, serve_cons_of_lt rest hother]
    · have hle := Int.not_lt.mp hfit
      have hother : (waiter.permits.toNat : Int) ≤ other.available := hle
      rw [serve_cons_of_le rest hle, serve_cons_of_le rest hother, grant_withWaiters, ih]

@[simp] theorem withoutSession_available (semaphore : Semaphore) (session : SessionId) :
    (semaphore.withoutSession session).available =
      semaphore.available + semaphore.heldBy session := rfl

/-- Permits that are granted are held by the session that they are granted to. -/
theorem grant_heldBy (semaphore : Semaphore) (holder : Option Holder) (permits : UInt32)
    (session : SessionId) :
    (semaphore.grant holder permits).heldBy session =
      semaphore.heldBy session +
        if holder.map (·.1) = some session then permits.toNat else 0 := by
  cases holder with
  | none => rfl
  | some owner =>
    let weight (holder : Holder) (held : Nat) : Nat := if holder.1 = session then held else 0
    have htotal := SortedMap.total_insert semaphore.held weight owner
      (semaphore.held.getD owner 0 + permits.toNat)
    have hheld : (semaphore.held.get? owner).elim 0 (weight owner) =
        if owner.1 = session then semaphore.held.getD owner 0 else 0 := by
      rw [SortedMap.getD]
      cases semaphore.held.get? owner with
      | none => simp
      | some held => rfl
    rw [hheld] at htotal
    change (semaphore.held.insert owner (semaphore.held.getD owner 0 + permits.toNat)).total weight =
      semaphore.held.total weight + if some owner.1 = some session then permits.toNat else 0
    by_cases howner : owner.1 = session
    · simp only [weight, howner, if_true] at htotal ⊢
      omega
    · simp only [weight, howner, if_false, Option.some.injEq] at htotal ⊢
      omega

/-- The permits of others are the same after a grant to the session. -/
theorem filter_grant_own (held : SortedMap Holder Nat) (owner : Holder) (permits : Nat) :
    (held.insert owner permits).filter (fun holder _ => holder.1 ≠ owner.1) =
      held.filter fun holder _ => holder.1 ≠ owner.1 := by
  refine SortedMap.ext_get? fun other => ?_
  rw [SortedMap.get?_filter, SortedMap.get?_filter, SortedMap.get?_insert]
  by_cases howner : owner = other
  · subst howner
    cases held.get? owner <;> simp [Option.filter]
  · rw [if_neg howner]

theorem filter_grant_other (held : SortedMap Holder Nat) {owner : Holder} {session : SessionId}
    (h : owner.1 ≠ session) (permits : Nat) :
    (held.insert owner permits).filter (fun holder _ => holder.1 ≠ session) =
      (held.filter fun holder _ => holder.1 ≠ session).insert owner permits := by
  refine SortedMap.ext_get? fun other => ?_
  rw [SortedMap.get?_filter, SortedMap.get?_insert, SortedMap.get?_insert, SortedMap.get?_filter]
  by_cases howner : owner = other
  · rw [if_pos howner, if_pos howner, Option.filter_some, if_pos]
    exact howner ▸ decide_eq_true h
  · rw [if_neg howner, if_neg howner]

/-- What a session was granted comes back when it is taken out. -/
theorem withoutSession_grant_own (semaphore : Semaphore) {holder : Option Holder}
    {session : SessionId} (h : holder.map (·.1) = some session) (permits : UInt32) :
    (semaphore.grant holder permits).withoutSession session =
      semaphore.withoutSession session := by
  have hheld := grant_heldBy semaphore holder permits session
  rw [if_pos h] at hheld
  obtain ⟨owner, rfl, rfl⟩ := Option.map_eq_some_iff.mp h
  rw [withoutSession, withoutSession, hheld, grant_available, Semaphore.mk.injEq]
  refine ⟨rfl, rfl, ?_, filter_grant_own semaphore.held owner _, rfl⟩
  omega

/-- What others were granted stays theirs. -/
theorem withoutSession_grant_other (semaphore : Semaphore) {holder : Option Holder}
    {session : SessionId} (h : holder.map (·.1) ≠ some session) (permits : UInt32) :
    (semaphore.grant holder permits).withoutSession session =
      (semaphore.withoutSession session).grant holder permits := by
  have hheld := grant_heldBy semaphore holder permits session
  rw [if_neg h, Nat.add_zero] at hheld
  have havailable : ((semaphore.grant holder permits).withoutSession session).available =
      ((semaphore.withoutSession session).grant holder permits).available := by
    rw [withoutSession_available, grant_available, hheld, grant_available,
      withoutSession_available]
    omega
  cases holder with
  | none => exact (Semaphore.mk.injEq ..).mpr ⟨rfl, rfl, havailable, rfl, rfl⟩
  | some owner =>
    have hother : owner.1 ≠ session := fun heq => h (congrArg some heq)
    have hkept : (semaphore.withoutSession session).held.getD owner 0 =
        semaphore.held.getD owner 0 := by
      refine SortedMap.getD_filter_of_keep ?_ 0
      exact fun _ => decide_eq_true hother
    have hgranted : ((semaphore.grant (some owner) permits).withoutSession session).held =
        ((semaphore.withoutSession session).grant (some owner) permits).held := by
      refine (filter_grant_other semaphore.held hother _).trans ?_
      rw [grant, hkept]
      rfl
    exact (Semaphore.mk.injEq ..).mpr ⟨rfl, rfl, havailable, hgranted, rfl⟩

/-- Taking out a session frees what it held. -/
theorem available_le_withoutSession (semaphore : Semaphore) (session : SessionId) :
    semaphore.available ≤ (semaphore.withoutSession session).available :=
  Int.le_add_of_nonneg_right (Int.natCast_nonneg _)

/-- A session that goes takes nothing held by another. -/
theorem heldBy_withoutSession {first second : SessionId} (h : first ≠ second)
    (semaphore : Semaphore) :
    (semaphore.withoutSession first).heldBy second = semaphore.heldBy second := by
  have hfilter := SortedMap.total_filter_add semaphore.held (fun holder _ => holder.1 ≠ first)
    (fun holder permits => if holder.1 = second then permits else 0)
  have hnone : semaphore.held.total (fun holder permits =>
      if decide (holder.1 ≠ first) = true then 0 else
        if holder.1 = second then permits else 0) = 0 := by
    refine (SortedMap.total_eq_zero_iff _ _).mpr fun holder permits _ => ?_
    by_cases hholder : holder.1 = first
    · simp [hholder, h]
    · simp [hholder]
  rw [hnone, Nat.add_zero] at hfilter
  exact hfilter

/-- Two sessions may go in either order. -/
theorem withoutSession_comm (semaphore : Semaphore) (first second : SessionId) :
    (semaphore.withoutSession first).withoutSession second =
      (semaphore.withoutSession second).withoutSession first := by
  by_cases hsame : first = second
  · rw [hsame]
  have hheld : (semaphore.held.filter fun holder _ => holder.1 ≠ first).filter
        (fun holder _ => holder.1 ≠ second) =
      (semaphore.held.filter fun holder _ => holder.1 ≠ second).filter
        fun holder _ => holder.1 ≠ first := by
    refine SortedMap.ext_get? fun holder => ?_
    simp only [SortedMap.get?_filter, Option.filter_filter, Bool.and_comm]
  have havailable : ∀ one other : SessionId, one ≠ other →
      ((semaphore.withoutSession one).withoutSession other).available =
        semaphore.available + semaphore.heldBy one + semaphore.heldBy other := by
    intro one other hne
    rw [← heldBy_withoutSession hne]
    rfl
  have hfirst := havailable first second hsame
  have hsecond := havailable second first (Ne.symm hsame)
  have hwaiters : ((semaphore.withoutSession first).withoutSession second).waiters =
      ((semaphore.withoutSession second).withoutSession first).waiters := by
    simp only [withoutSession, List.filter_filter, Bool.and_comm]
  rw [Semaphore.mk.injEq]
  refine ⟨rfl, rfl, ?_, hheld, hwaiters⟩
  rw [hfirst, hsecond]
  omega

/-- Taking a session out after the queue was served, and serving what is left of it, is serving the
    queue without the session. -/
theorem serve_withoutSession (semaphore : Semaphore) (queue : List AcquireWaiter)
    (session : SessionId) :
    ((semaphore.serve queue).1.withoutSession session).grantWaiters.1 =
      ((semaphore.withoutSession session).serve
        (queue.filter fun waiter => waiter.session ≠ some session)).1 := by
  induction queue generalizing semaphore with
  | nil => rfl
  | cons waiter rest ih =>
    by_cases hfit : semaphore.available < (waiter.permits.toNat : Int)
    · rw [serve_cons_of_lt rest hfit]
      exact congrArg Prod.fst
        (serve_withWaiters (semaphore.withoutSession session) _ _)
    · have hle := Int.not_lt.mp hfit
      rw [serve_cons_of_le rest hle, ih]
      by_cases hown : waiter.session = some session
      · rw [List.filter_cons_of_neg (by simp [hown]), withoutSession_grant_own semaphore hown]
      · -- More is available without the session, so the waiter is granted there too.
        have hmore := Int.le_trans hle (available_le_withoutSession semaphore session)
        rw [List.filter_cons_of_pos (by simp [hown]), serve_cons_of_le _ hmore,
          withoutSession_grant_other semaphore hown]

/-- Serving the queue before a session goes changes nothing, once it is served again afterwards. -/
theorem grantWaiters_withoutSession (semaphore : Semaphore) (session : SessionId) :
    (semaphore.grantWaiters.1.withoutSession session).grantWaiters.1 =
      (semaphore.withoutSession session).grantWaiters.1 :=
  serve_withoutSession semaphore semaphore.waiters session

/-- The semaphore without several sessions. -/
def withoutSessions (semaphore : Semaphore) (closed : List SessionId) : Semaphore :=
  closed.foldl withoutSession semaphore

/-- Closes sessions one after the other. -/
def closeSessions (semaphore : Semaphore) (closed : List SessionId) : Semaphore :=
  closed.foldl (fun semaphore session => (semaphore.closeSession session).1) semaphore

/-- Closing sessions in turn is removing them all and serving the queue once, by induction on the
    sessions. -/
theorem closeSessions_grantWaiters (semaphore : Semaphore) (closed : List SessionId) :
    semaphore.grantWaiters.1.closeSessions closed =
      (semaphore.withoutSessions closed).grantWaiters.1 := by
  induction closed generalizing semaphore with
  | nil => rfl
  | cons session rest ih =>
    simp only [closeSessions, withoutSessions, List.foldl_cons, closeSession_eq] at ih ⊢
    rw [grantWaiters_withoutSession, ih]

/-- Closing sessions one after the other is taking them all out and serving the queue once. -/
theorem closeSessions_eq (semaphore : Semaphore) (session : SessionId) (rest : List SessionId) :
    semaphore.closeSessions (session :: rest) =
      (semaphore.withoutSessions (session :: rest)).grantWaiters.1 := by
  have hfirst : semaphore.closeSessions (session :: rest) =
      (semaphore.withoutSession session).grantWaiters.1.closeSessions rest := by
    rw [closeSessions, List.foldl_cons, closeSession_eq, closeSessions]
  rw [hfirst, closeSessions_grantWaiters]
  rfl

/-- The order in which sessions are removed does not matter. -/
theorem withoutSessions_perm {closed others : List SessionId} (h : closed.Perm others)
    (semaphore : Semaphore) :
    semaphore.withoutSessions closed = semaphore.withoutSessions others :=
  h.foldl_eq' (fun first _ second _ current => withoutSession_comm current first second) semaphore

/-- The order in which sessions are closed makes no difference. -/
theorem closeSessions_perm {closed others : List SessionId} (h : closed.Perm others)
    (semaphore : Semaphore) : semaphore.closeSessions closed = semaphore.closeSessions others := by
  cases closed with
  | nil => rw [h.nil_eq]
  | cons first rest =>
    cases others with
    | nil => cases h.eq_nil
    | cons other later => rw [closeSessions_eq, closeSessions_eq, withoutSessions_perm h]

end Quorum.Semaphore
