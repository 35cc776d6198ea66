import Quorum.Proofs.Semaphore.Reaction

namespace Quorum

structure Ledger where
  /-- Permits taken and not given back, by holder; `none` stands for callers without a session. -/
  account : Option Holder → Int := fun _ => 0
  /-- The permits that were configured. -/
  configured : Int := 0

namespace Ledger

/-- Books permits taken by a holder; given back if the number is negative. -/
def post (ledger : Ledger) (holder : Option Holder) (permits : Int) : Ledger :=
  { ledger with
    account := fun other =>
      if other = holder then ledger.account other + permits else ledger.account other }

/-- Closes the accounts of a session. -/
def settle (ledger : Ledger) (session : SessionId) : Ledger :=
  { ledger with
    account := fun holder =>
      if holder.map (·.1) = some session then 0 else ledger.account holder }

def configure (ledger : Ledger) (permits : Int) : Ledger := { ledger with configured := permits }

/-- Books a notification that grants a parked acquire, which is found in the queue by its token. -/
def grant (queue : List AcquireWaiter) (ledger : Ledger) (note : Notification) : Ledger :=
  match note.result, queue.find? (fun waiter => waiter.uid = note.uid) with
  | .ok (.bool true), some waiter => ledger.post waiter.holder waiter.permits.toNat
  | _, _ => ledger

def grants (ledger : Ledger) (queue : List AcquireWaiter) (notes : List Notification) : Ledger :=
  notes.foldl (grant queue) ledger

/-- Books what a caller was answered. -/
def call (ledger : Ledger) (overdraft : Bool) (semaphore : Semaphore) (op : SemaphoreOp)
    (invocation : Invocation) (now : Millis) : Ledger :=
  match op with
  | .init permits =>
    if (semaphore.init permits).answer then ledger.configure permits.toNat else ledger
  | .acquire permits timeout =>
    if (semaphore.acquire invocation permits timeout now).answer = .ok (.bool true) then
      ledger.post invocation.holder permits.toNat
    else ledger
  | .release permits =>
    match (semaphore.release invocation permits).answer with
    | .ok () => ledger.post invocation.holder (-permits.toNat)
    | .error _ => ledger
  | .drain => ledger.post invocation.holder (semaphore.drain invocation).1
  | .increase permits => ledger.configure (ledger.configured + permits.toNat)
  | .reduce permits =>
    match semaphore.reduce permits overdraft with
    | .ok _ => ledger.configure (ledger.configured - permits.toNat)
    | .error _ => ledger
  | .availablePermits => ledger

/-- Books an event at a semaphore: first what its own call or close moves, then the grants. -/
def book (ledger : Ledger) (overdraft : Bool) (semaphore : Semaphore)
    (event : ObjectEvent SemaphoreOp) : Ledger :=
  let own := match event with
    | .call op invocation now => ledger.call overdraft semaphore op invocation now
    | .sessionClosed session => ledger.settle session
    | .timedOut _ | .destroyed => ledger
  own.grants semaphore.waiters (semaphore.react overdraft event).2

/-- Grants are posted in the order of the notifications. -/
theorem grants_append (ledger : Ledger) (queue : List AcquireWaiter) (xs ys : List Notification) :
    ledger.grants queue (xs ++ ys) = (ledger.grants queue xs).grants queue ys :=
  List.foldl_append

/-- Parked calls that are answered anything but a grant take nothing. -/
theorem grants_of_refusals (ledger : Ledger) (queue : List AcquireWaiter)
    {notes : List Notification} (h : ∀ note ∈ notes, note.result ≠ .ok (.bool true)) :
    ledger.grants queue notes = ledger := by
  induction notes generalizing ledger with
  | nil => rfl
  | cons note rest ih =>
    have hfirst : grant queue ledger note = ledger := by
      unfold grant
      split
      · rename_i hresult hfind
        exact absurd hresult (h note List.mem_cons_self)
      · rfl
    rw [grants, List.foldl_cons, hfirst]
    exact ih ledger fun other hmem => h other (List.mem_cons_of_mem _ hmem)

/-- The books of a list of waiters that take their permits. -/
def postAll (ledger : Ledger) (waiters : List AcquireWaiter) : Ledger :=
  waiters.foldl (fun ledger waiter => ledger.post waiter.holder waiter.permits.toNat) ledger

/-- Where uids are distinct, a queued call is found by its own. -/
theorem find?_uid {queue : List AcquireWaiter} (hdistinct : (queue.map AcquireWaiter.uid).Nodup)
    {waiter : AcquireWaiter} (hmem : waiter ∈ queue) :
    queue.find? (fun other => other.uid = waiter.uid) = some waiter := by
  induction queue with
  | nil => cases hmem
  | cons head rest ih =>
    obtain ⟨hhead, hrest⟩ := List.nodup_cons.mp hdistinct
    rcases List.mem_cons.mp hmem with rfl | hmem
    · simp
    · have hne : head.uid ≠ waiter.uid := fun heq =>
        hhead (heq ▸ List.mem_map.mpr ⟨waiter, hmem, rfl⟩)
      rw [List.find?_cons_of_neg (by simpa using hne)]
      exact ih hrest hmem

/-- Grants to waiters of the queue are booked to their holders. -/
theorem grants_granted (ledger : Ledger) {queue : List AcquireWaiter}
    (hdistinct : (queue.map AcquireWaiter.uid).Nodup) {waiters : List AcquireWaiter}
    (hmem : ∀ waiter ∈ waiters, waiter ∈ queue) :
    ledger.grants queue (waiters.map AcquireWaiter.granted) = ledger.postAll waiters := by
  induction waiters generalizing ledger with
  | nil => rfl
  | cons waiter rest ih =>
    have hfirst : grant queue ledger waiter.granted =
        ledger.post waiter.holder waiter.permits.toNat := by
      have hfind : queue.find? (fun other => other.uid = waiter.granted.uid) = some waiter :=
        find?_uid hdistinct (hmem waiter List.mem_cons_self)
      rw [grant, hfind]
      rfl
    rw [List.map_cons, grants, List.foldl_cons, hfirst]
    exact ih _ fun other hother => hmem other (List.mem_cons_of_mem _ hother)

end Ledger

namespace Semaphore

/-- What the semaphore records agrees with the ledger, and every configured permit is available,
    held by a session or taken by a caller without one. -/
structure Balanced (semaphore : Semaphore) (ledger : Ledger) : Prop where
  held_eq : ∀ owner, (semaphore.held.getD owner 0 : Int) = ledger.account (some owner)
  held_ne_zero : ∀ owner, semaphore.held.get? owner ≠ some 0
  outside_nonneg : 0 ≤ ledger.account none
  capacity_eq : semaphore.capacity =
    semaphore.available + semaphore.totalHeld + ledger.account none
  configured_eq : semaphore.capacity = ledger.configured

/-- A new semaphore agrees with an empty ledger. -/
theorem balanced_new : Balanced {} {} where
  held_eq _ := rfl
  held_ne_zero _ := by
    rw [SortedMap.get?_empty]
    simp
  outside_nonneg := Int.le_refl 0
  capacity_eq := rfl
  configured_eq := rfl

theorem Balanced.withWaiters {semaphore : Semaphore} {ledger : Ledger}
    (h : semaphore.Balanced ledger) (waiters : List AcquireWaiter) :
    { semaphore with waiters }.Balanced ledger :=
  ⟨h.held_eq, h.held_ne_zero, h.outside_nonneg, h.capacity_eq, h.configured_eq⟩

/-- What an owner holds is what it was set to, and others keep theirs. -/
theorem setHeld_getD (semaphore : Semaphore) (owner other : Holder) (permits : Nat) :
    (semaphore.setHeld owner permits).held.getD other 0 =
      if owner = other then permits else semaphore.held.getD other 0 := by
  unfold setHeld
  by_cases hzero : permits = 0
  · simp only [hzero, if_true]
    exact SortedMap.getD_erase semaphore.held owner other 0
  · simp only [hzero, if_false]
    exact SortedMap.getD_insert semaphore.held owner other permits 0

theorem setHeld_ne_zero {semaphore : Semaphore} (h : ∀ owner, semaphore.held.get? owner ≠ some 0)
    (owner : Holder) (permits : Nat) (other : Holder) :
    (semaphore.setHeld owner permits).held.get? other ≠ some 0 := by
  unfold setHeld
  by_cases hzero : permits = 0
  · simp only [hzero, if_true]
    rw [SortedMap.get?_erase]
    split
    · simp
    · exact h other
  · simp only [hzero, if_false]
    rw [SortedMap.get?_insert]
    split
    · simpa using hzero
    · exact h other

/-- Setting what one owner holds moves the total by the difference. -/
theorem setHeld_totalHeld (semaphore : Semaphore) (owner : Holder) (permits : Nat) :
    (semaphore.setHeld owner permits).totalHeld + semaphore.held.getD owner 0 =
      semaphore.totalHeld + permits := by
  have hget : (semaphore.held.get? owner).elim 0 (fun n => n) = semaphore.held.getD owner 0 := by
    rw [SortedMap.getD]
    cases semaphore.held.get? owner <;> rfl
  unfold setHeld totalHeld
  rw [← hget]
  by_cases hzero : permits = 0
  · simp only [hzero, if_true, Nat.add_zero]
    exact SortedMap.total_erase semaphore.held (fun _ n => n) owner
  · simp only [hzero, if_false]
    exact SortedMap.total_insert semaphore.held (fun _ n => n) owner permits

/-- Permits that pass between the available ones and a holder keep the balance. -/
theorem Balanced.transfer {semaphore : Semaphore} {ledger : Ledger}
    (h : semaphore.Balanced ledger) {owner : Holder} {kept : Nat} {moved : Int}
    (hmoved : (semaphore.held.getD owner 0 : Int) + moved = kept) :
    { semaphore.setHeld owner kept with available := semaphore.available - moved }.Balanced
      (ledger.post (some owner) moved) := by
  refine ⟨fun other => ?_, setHeld_ne_zero h.held_ne_zero owner kept, ?_, ?_, h.configured_eq⟩
  · have hget := setHeld_getD semaphore owner other kept
    have hother := h.held_eq other
    simp only [Ledger.post, Option.some.injEq]
    by_cases heq : other = owner
    · subst heq
      rw [if_pos rfl] at hget ⊢
      rw [← hother, hmoved]
      exact congrArg _ hget
    · rw [if_neg (Ne.symm heq)] at hget
      rw [if_neg heq, ← hother]
      exact congrArg _ hget
  · simpa [Ledger.post] using h.outside_nonneg
  · have htotal := setHeld_totalHeld semaphore owner kept
    have hcapacity := h.capacity_eq
    change semaphore.capacity = semaphore.available - moved +
      (semaphore.setHeld owner kept).totalHeld + (ledger.post (some owner) moved).account none
    simp only [Ledger.post, reduceCtorEq, if_false]
    omega

/-- Permits that pass between the available ones and callers without a session keep it too. -/
theorem Balanced.transferOutside {semaphore : Semaphore} {ledger : Ledger}
    (h : semaphore.Balanced ledger) {moved : Int} (hroom : 0 ≤ ledger.account none + moved) :
    { semaphore with available := semaphore.available - moved }.Balanced
      (ledger.post none moved) := by
  refine ⟨fun owner => ?_, h.held_ne_zero, ?_, ?_, h.configured_eq⟩
  · simpa [Ledger.post] using h.held_eq owner
  · simpa [Ledger.post] using hroom
  · have hcapacity := h.capacity_eq
    change semaphore.capacity = semaphore.available - moved + semaphore.totalHeld +
      (ledger.post none moved).account none
    simp only [Ledger.post, if_true]
    omega

/-- A holder gives back some of what it holds. -/
theorem Balanced.giveBack {semaphore : Semaphore} {ledger : Ledger}
    (h : semaphore.Balanced ledger) {owner : Holder} {kept permits : Nat}
    (hheld : semaphore.held.getD owner 0 = kept + permits) :
    { semaphore.setHeld owner kept with available := semaphore.available + permits }.Balanced
      (ledger.post (some owner) (-permits)) := by
  have hback : (semaphore.held.getD owner 0 : Int) + -(permits : Int) = kept := by omega
  have hmoved := h.transfer hback
  rwa [Int.sub_neg] at hmoved

/-- Callers without a session give back some of what they took out. -/
theorem Balanced.giveBackOutside {semaphore : Semaphore} {ledger : Ledger}
    (h : semaphore.Balanced ledger) {permits : Nat} (htaken : (permits : Int) ≤ ledger.account none) :
    { semaphore with available := semaphore.available + permits }.Balanced
      (ledger.post none (-permits)) := by
  have hback : 0 ≤ ledger.account none + -(permits : Int) := by omega
  have hmoved := h.transferOutside hback
  rwa [Int.sub_neg] at hmoved

theorem grant_some_eq {semaphore : Semaphore} {owner : Holder} {permits : UInt32}
    (hpermits : 0 < permits.toNat) :
    semaphore.grant (some owner) permits =
      { semaphore.setHeld owner (semaphore.held.getD owner 0 + permits.toNat) with
        available := semaphore.available - permits.toNat } := by
  have hne : semaphore.held.getD owner 0 + permits.toNat ≠ 0 := by omega
  simp only [setHeld, hne, if_false]
  rfl

/-- A grant is posted to its holder. -/
theorem Balanced.grant {semaphore : Semaphore} {ledger : Ledger} (h : semaphore.Balanced ledger)
    (holder : Option Holder) {permits : UInt32} (hpermits : 0 < permits.toNat) :
    (semaphore.grant holder permits).Balanced (ledger.post holder permits.toNat) := by
  cases holder with
  | none =>
    have hroom := h.outside_nonneg
    exact h.transferOutside (by omega)
  | some owner =>
    rw [grant_some_eq hpermits]
    exact h.transfer (Int.natCast_add _ _).symm

/-- Grants in turn are posted in turn, by induction on the served. -/
theorem Balanced.grantAll {semaphore : Semaphore} {ledger : Ledger} (h : semaphore.Balanced ledger)
    {waiters : List AcquireWaiter} (hasks : ∀ waiter ∈ waiters, 0 < waiter.permits.toNat) :
    (semaphore.grantAll waiters).Balanced (ledger.postAll waiters) := by
  induction waiters generalizing semaphore ledger with
  | nil => exact h
  | cons waiter rest ih =>
    exact ih (h.grant waiter.holder (hasks waiter List.mem_cons_self))
      fun other hmem => hasks other (List.mem_cons_of_mem _ hmem)

/-- A closed session's permits become available again, and its accounts end. -/
theorem Balanced.withoutSession {semaphore : Semaphore} {ledger : Ledger}
    (h : semaphore.Balanced ledger) (session : SessionId) :
    (semaphore.withoutSession session).Balanced (ledger.settle session) := by
  have htotal := SortedMap.total_filter_add semaphore.held (fun holder _ => holder.1 ≠ session)
    fun _ permits => permits
  have hheldBy : semaphore.held.total (fun holder permits =>
      if decide (holder.1 ≠ session) = true then 0 else permits) = semaphore.heldBy session := by
    simp only [ne_eq, decide_not, Bool.not_eq_true', decide_eq_false_iff_not, ite_not, heldBy]
  rw [hheldBy] at htotal
  refine ⟨fun owner => ?_, fun owner => ?_, ?_, ?_, h.configured_eq⟩
  · have howner := h.held_eq owner
    simp only [Ledger.settle, Option.map_some, Option.some.injEq]
    by_cases hclosed : owner.1 = session
    · rw [if_pos hclosed, Semaphore.withoutSession,
        SortedMap.getD_filter_of_drop (by simp [hclosed]) 0]
      rfl
    · rw [if_neg hclosed, ← howner, Semaphore.withoutSession,
        SortedMap.getD_filter_of_keep (by simp [hclosed]) 0]
  · intro hget
    simp only [Semaphore.withoutSession, SortedMap.get?_filter] at hget
    exact h.held_ne_zero owner (Option.filter_eq_some_iff.mp hget).1
  · simpa [Ledger.settle] using h.outside_nonneg
  · have hcapacity := h.capacity_eq
    change semaphore.capacity = semaphore.available + semaphore.heldBy session +
      (semaphore.withoutSession session).totalHeld + (ledger.settle session).account none
    have hkept : (semaphore.withoutSession session).totalHeld + semaphore.heldBy session =
      semaphore.totalHeld := htotal
    simp only [Ledger.settle, Option.map_none, reduceCtorEq, if_false]
    omega

/-- Closing a session books nothing but the grants that follow. -/
theorem grants_closeSession (ledger : Ledger) (semaphore : Semaphore) (session : SessionId) :
    ledger.grants semaphore.waiters (semaphore.closeSession session).2 =
      ledger.grants semaphore.waiters (semaphore.withoutSession session).grantWaiters.2 := by
  have hrefusals : ∀ note ∈ (semaphore.waiters.filter fun waiter =>
      waiter.session = some session).map fun waiter =>
        waiter.answer (.error (.sessionExpired session)), note.result ≠ .ok (.bool true) := by
    intro note hmem
    obtain ⟨waiter, -, rfl⟩ := List.mem_map.mp hmem
    simp [AcquireWaiter.answer]
  rw [closeSession_eq, Ledger.grants_append, Ledger.grants_of_refusals _ _ hrefusals]

/-- A timeout books nothing but the grants that follow. -/
theorem grants_expireWaiter (ledger : Ledger) {semaphore : Semaphore} {uid : InvocationUid}
    {waiter : AcquireWaiter}
    (hfind : semaphore.waiters.find? (fun waiter => waiter.uid = uid) = some waiter) :
    ledger.grants semaphore.waiters (semaphore.expireWaiter uid).2 =
      ledger.grants semaphore.waiters (semaphore.withoutUid uid).grantWaiters.2 := by
  have hrefusal : ∀ note ∈ [waiter.answer (.ok (.bool false))],
      note.result ≠ .ok (.bool true) := by
    intro note hmem
    rw [List.mem_singleton.mp hmem]
    simp [AcquireWaiter.answer]
  rw [expireWaiter_of_find? hfind, ← List.singleton_append, Ledger.grants_append,
    Ledger.grants_of_refusals ledger _ hrefusal]

/-- A drain leaves the configuration alone. -/
theorem drain_configuration (semaphore : Semaphore) (invocation : Invocation) :
    (semaphore.drain invocation).2.initialized = semaphore.initialized ∧
      (semaphore.drain invocation).2.capacity = semaphore.capacity := by
  unfold drain
  cases invocation.holder with
  | none => exact ⟨rfl, rfl⟩
  | some owner =>
    simp only
    split <;> exact ⟨rfl, rfl⟩

/-- Draining moves all that is available to the caller, if nothing is overdrawn. -/
theorem Balanced.drain {semaphore : Semaphore} {ledger : Ledger} (h : semaphore.Balanced ledger)
    (havailable : 0 ≤ semaphore.available) (invocation : Invocation) :
    (semaphore.drain invocation).2.Balanced
      (ledger.post invocation.holder (semaphore.drain invocation).1) := by
  have hall : (semaphore.available.toNat : Int) = semaphore.available :=
    Int.toNat_of_nonneg havailable
  have hnone : semaphore.available - (semaphore.available.toNat : Int) = 0 := by omega
  unfold Semaphore.drain
  cases invocation.holder with
  | none =>
    have houtside := h.outside_nonneg
    have hroom : 0 ≤ ledger.account none + (semaphore.available.toNat : Int) := by omega
    have hmoved := h.transferOutside hroom
    rwa [hnone] at hmoved
  | some owner =>
    have hmoved := h.transfer
      (Int.natCast_add (semaphore.held.getD owner 0) semaphore.available.toNat).symm
    rw [hnone] at hmoved
    simp only
    by_cases hsome : 0 < semaphore.available.toNat
    · have hne : semaphore.held.getD owner 0 + semaphore.available.toNat ≠ 0 := by omega
      simp only [setHeld, hne, if_false] at hmoved
      simp only [hsome, if_true]
      exact hmoved
    · have hzero : semaphore.available.toNat = 0 := by omega
      have hposted : ledger.post (some owner) (semaphore.available.toNat : Int) = ledger := by
        simp [Ledger.post, hzero]
      simp only [hsome, if_false, hposted]
      have hempty : semaphore.available = 0 := by omega
      rw [← hempty]
      exact h

end Semaphore

end Quorum
