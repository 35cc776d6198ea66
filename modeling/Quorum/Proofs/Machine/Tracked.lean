import Quorum.Proofs.Machine.Answers

namespace Quorum

/-- A caller that gets its permits at once, or may wait but does not, leaves no queue behind. -/
theorem Semaphore.waiters_of_answered {semaphore : Semaphore} {invocation : Invocation}
    {permits : UInt32} {timeout : Option Millis} {now : Millis} {value : Value}
    (hanswer : (semaphore.acquire invocation permits timeout now).answer = .ok value)
    (htimeout : timeout ≠ some 0) :
    (semaphore.acquire invocation permits timeout now).state.waiters = [] := by
  have houtcome := acquire_outcome semaphore invocation permits timeout now
  generalize semaphore.acquire invocation permits timeout now = outcome at houtcome hanswer
  cases houtcome with
  | failed failure => cases hanswer
  | joined hmem huid => cases hanswer
  | granted hpermits hempty hfit => rw [grant_waiters, hempty]
  | refused hpermits hzero hnew => exact absurd hzero htimeout
  | parked hpermits hwait huid hnew hunfit => cases hanswer

/-- An await that is answered at once finds nobody waiting. -/
theorem Latch.waiters_of_answered {latch : Latch} (h : latch.Orderly) {invocation : Invocation}
    {timeout : Option Millis} {now : Millis} {value : Value}
    (hanswer : (latch.await invocation timeout now).answer = .ok value)
    (htimeout : timeout ≠ some 0) : (latch.await invocation timeout now).state.waiters = [] := by
  have houtcome := await_outcome latch invocation timeout now
  generalize latch.await invocation timeout now = outcome at houtcome hanswer
  cases houtcome with
  | passed hopen => exact h.awaited hopen
  | refused hclosed hzero => exact absurd hzero htimeout
  | failed failure => cases hanswer
  | joined hmem huid => cases hanswer
  | parked hclosed hwait huid hnew => cases hanswer

namespace Machine

/-- The call is parked only where its operation parks callers, and no queue holds a token twice. -/
structure Placed (machine : Machine) (operation : Operation) (call : SessionCall) : Prop where
  acquiring : ∀ name semaphore, machine.semaphores.get? name = some semaphore →
    call.parked ∈ semaphore.parkedCalls →
    ∃ permits timeout, operation = .semaphore name (.acquire permits timeout) ∧ timeout ≠ some 0
  awaiting : ∀ name latch, machine.latches.get? name = some latch →
    call.parked ∈ latch.parkedCalls →
    ∃ timeout, operation = .latch name (.await timeout) ∧ timeout ≠ some 0
  semaphores_orderly : ∀ name semaphore, machine.semaphores.get? name = some semaphore →
    semaphore.Orderly
  latches_orderly : ∀ name latch, machine.latches.get? name = some latch → latch.Orderly

theorem placed_new (options : MachineOptions) (operation : Operation) (call : SessionCall) :
    (new options).Placed operation call where
  acquiring _ _ hget := by cases hget
  awaiting _ _ hget := by cases hget
  semaphores_orderly _ _ hget := by cases hget
  latches_orderly _ _ hget := by cases hget

/-- The command that parks a call makes it. -/
theorem call?_of_parked {command : Command} {call : SessionCall} {uid : InvocationUid}
    (hparks : command.operation.Parks) (huid : command.invocation.uid = some uid)
    (hparked : call.parked = ⟨command.operation.kind, uid, command.invocation.session⟩) :
    command.call? = some call := by
  have hkind := congrArg ParkedCall.kind hparked
  have huid' := congrArg ParkedCall.uid hparked
  have hsession := congrArg ParkedCall.session hparked
  exact Command.call?_eq_some_iff.mpr
    ⟨hsession.symm, huid.trans (congrArg some huid'.symm), hkind.symm, hparks.not_readOnly⟩

/-- After a command a call is parked at a semaphore only where its operation parks it. -/
theorem Placed.acquiring_apply {machine : Machine} {operation : Operation} {call : SessionCall}
    (h : machine.Placed operation call) {command : Command}
    (hsame : command.call? = some call → command.operation = operation) {name : String}
    {semaphore : Semaphore}
    (hget : (machine.apply command).state.semaphores.get? name = some semaphore) :
    call.parked ∈ semaphore.parkedCalls →
      ∃ permits timeout, operation = .semaphore name (.acquire permits timeout) ∧
        timeout ≠ some 0 := by
  rw [apply_semaphore] at hget
  refine ObjectEvent.follow_induction (P := fun semaphore : Semaphore =>
    call.parked ∈ semaphore.parkedCalls →
      ∃ permits timeout, operation = .semaphore name (.acquire permits timeout) ∧
        timeout ≠ some 0) (fun hmem => by cases hmem) ?_ (h.acquiring name) hget
  intro event hevent before hbefore hmem
  rcases Semaphore.react_waiters machine.semaphores.overdraft before event with
    hsub | ⟨invocation, permits, timeout, now, uid, rfl, huid, htimeout, -, -, hwaiters⟩
  · exact hbefore ((hsub.map AcquireWaiter.call).subset hmem)
  · obtain ⟨hoperation, rfl⟩ := call_of_mem_semaphoreEvents hevent
    rw [Semaphore.parkedCalls, hwaiters, List.map_append] at hmem
    rcases List.mem_append.mp hmem with hold | hown
    · exact hbefore hold
    · have hparked : call.parked =
          ⟨command.operation.kind, uid, command.invocation.session⟩ := by
        rw [List.mem_singleton.mp hown, hoperation, Semaphore.parkedEntry_call]
        rfl
      have hcall := call?_of_parked (by rw [hoperation]; exact .inl rfl) huid hparked
      exact ⟨permits, timeout, (hsame hcall).symm.trans hoperation, htimeout⟩

/-- After a command a call is parked at a latch only where its operation parks it. -/
theorem Placed.awaiting_apply {machine : Machine} {operation : Operation} {call : SessionCall}
    (h : machine.Placed operation call) {command : Command}
    (hsame : command.call? = some call → command.operation = operation) {name : String}
    {latch : Latch} (hget : (machine.apply command).state.latches.get? name = some latch) :
    call.parked ∈ latch.parkedCalls →
      ∃ timeout, operation = .latch name (.await timeout) ∧ timeout ≠ some 0 := by
  rw [apply_latch] at hget
  refine ObjectEvent.follow_induction (P := fun latch : Latch =>
    call.parked ∈ latch.parkedCalls →
      ∃ timeout, operation = .latch name (.await timeout) ∧ timeout ≠ some 0)
    (fun hmem => by cases hmem) ?_ (h.awaiting name) hget
  intro event hevent before hbefore hmem
  rcases Latch.react_waiters name before event with
    hsub | ⟨invocation, timeout, now, uid, rfl, huid, -, htimeout, -, hwaiters⟩
  · exact hbefore ((hsub.map AwaitWaiter.call).subset hmem)
  · obtain ⟨hoperation, rfl⟩ := call_of_mem_latchEvents hevent
    rw [Latch.parkedCalls, hwaiters, List.map_append] at hmem
    rcases List.mem_append.mp hmem with hold | hown
    · exact hbefore hold
    · have hparked : call.parked =
          ⟨command.operation.kind, uid, command.invocation.session⟩ := by
        rw [List.mem_singleton.mp hown, hoperation]
        rfl
      have hcall := call?_of_parked (by rw [hoperation]; exact .inr rfl) huid hparked
      exact ⟨timeout, (hsame hcall).symm.trans hoperation, htimeout⟩

/-- A command leaves a call parked only where its operation parks it. -/
theorem Placed.apply {machine : Machine} {operation : Operation} {call : SessionCall}
    (h : machine.Placed operation call) {command : Command}
    (hsame : command.call? = some call → command.operation = operation) :
    (machine.apply command).state.Placed operation call where
  acquiring _ _ hget := h.acquiring_apply hsame hget
  awaiting _ _ hget := h.awaiting_apply hsame hget
  semaphores_orderly name semaphore hget := by
    rw [apply_semaphore] at hget
    exact ObjectEvent.follow_induction (P := Semaphore.Orderly) Semaphore.orderly_new
      (fun event _ before hbefore => hbefore.react _ event) (h.semaphores_orderly name) hget
  latches_orderly name latch hget := by
    rw [apply_latch] at hget
    exact ObjectEvent.follow_induction (P := Latch.Orderly) Latch.orderly_new
      (fun event _ before hbefore => hbefore.react name event) (h.latches_orderly name) hget

/-- A call is parked at most once at all semaphores. -/
theorem Placed.acquires_le_one {machine : Machine} {operation : Operation} {call : SessionCall}
    (h : machine.Placed operation call) :
    parkedIn Semaphore.parkedCalls machine.semaphores.byName call.parked ≤ 1 := by
  by_contra hmany
  obtain ⟨name, semaphore, hget, hmem⟩ :=
    exists_of_parkedIn_pos (Nat.zero_lt_of_lt (Nat.not_le.mp hmany))
  obtain ⟨permits, timeout, hoperation, -⟩ := h.acquiring name semaphore hget hmem
  refine hmany (parkedIn_le_one (fun other found hfound hparked => ?_) fun found hfound =>
    (h.semaphores_orderly name found hfound).nodup_parkedCalls)
  obtain ⟨_, _, hother, -⟩ := h.acquiring other found hfound hparked
  rw [hoperation] at hother
  cases hother
  rfl

/-- A call is parked at most once at all latches. -/
theorem Placed.awaits_le_one {machine : Machine} {operation : Operation} {call : SessionCall}
    (h : machine.Placed operation call) :
    parkedIn Latch.parkedCalls machine.latches.byName call.parked ≤ 1 := by
  by_contra hmany
  obtain ⟨name, latch, hget, hmem⟩ :=
    exists_of_parkedIn_pos (Nat.zero_lt_of_lt (Nat.not_le.mp hmany))
  obtain ⟨timeout, hoperation, -⟩ := h.awaiting name latch hget hmem
  refine hmany (parkedIn_le_one (fun other found hfound hparked => ?_) fun found hfound =>
    (h.latches_orderly name found hfound).nodup_parkedCalls)
  obtain ⟨_, hother, -⟩ := h.awaiting other found hfound hparked
  rw [hoperation] at hother
  cases hother
  rfl

/-- A placed call is parked at most once. -/
theorem Placed.parkedCount_le_one {machine : Machine} {operation : Operation} {call : SessionCall}
    (h : machine.Placed operation call) : machine.parkedCount call.parked ≤ 1 := by
  have hacquires := h.acquires_le_one
  have hawaits := h.awaits_le_one
  have hone : parkedIn Semaphore.parkedCalls machine.semaphores.byName call.parked = 0 ∨
      parkedIn Latch.parkedCalls machine.latches.byName call.parked = 0 := by
    by_contra hboth
    rw [not_or] at hboth
    obtain ⟨name, semaphore, hget, hmem⟩ := exists_of_parkedIn_pos (Nat.pos_of_ne_zero hboth.1)
    obtain ⟨other, latch, hlatch, hparked⟩ := exists_of_parkedIn_pos (Nat.pos_of_ne_zero hboth.2)
    obtain ⟨permits, timeout, rfl, -⟩ := h.acquiring name semaphore hget hmem
    obtain ⟨wait, hother, -⟩ := h.awaiting other latch hlatch hparked
    cases hother
  rw [parkedCount]
  omega

/-- An acquire that is answered at once is not parked. -/
theorem not_acquiring_of_answered {machine : Machine} {operation : Operation} {call : SessionCall}
    (h : machine.Placed operation call) {command : Command} {value : Value}
    (hoperation : command.operation = operation) (hexecutes : machine.executes command = true)
    (hanswer : (machine.apply command).answer = .ok value) {name : String} {semaphore : Semaphore}
    (hget : (machine.apply command).state.semaphores.get? name = some semaphore) :
    call.parked ∉ semaphore.parkedCalls := by
  intro hmem
  obtain ⟨permits, timeout, rfl, htimeout⟩ :=
    (h.apply fun _ => hoperation).acquiring name semaphore hget hmem
  let before := machine.semaphores.byName.getD name {}
  let step := before.acquire command.invocation permits timeout command.timestamp
  obtain ⟨cache, hstate⟩ := apply_state_of_executes hexecutes
  rw [hstate, hoperation] at hget
  rw [apply_of_executes hexecutes, hoperation] at hanswer
  have hput : (machine.semaphores.put name step.state).get? name = some semaphore := hget
  rw [Semaphores.get?_put, if_pos rfl] at hput
  have hempty : step.state.waiters = [] := Semaphore.waiters_of_answered hanswer htimeout
  rw [← Option.some.inj hput, Semaphore.parkedCalls, hempty] at hmem
  cases hmem

/-- An await that is answered at once is not parked. -/
theorem not_awaiting_of_answered {machine : Machine} {operation : Operation} {call : SessionCall}
    (h : machine.Placed operation call) {command : Command} {value : Value}
    (hoperation : command.operation = operation) (hexecutes : machine.executes command = true)
    (hanswer : (machine.apply command).answer = .ok value) {name : String} {latch : Latch}
    (hget : (machine.apply command).state.latches.get? name = some latch) :
    call.parked ∉ latch.parkedCalls := by
  intro hmem
  obtain ⟨timeout, rfl, htimeout⟩ := (h.apply fun _ => hoperation).awaiting name latch hget hmem
  let before := machine.latches.latch name
  let step := before.await command.invocation timeout command.timestamp
  have horderly : before.Orderly := by
    have hbefore : before = (machine.latches.get? name).getD {} := rfl
    cases hfound : machine.latches.get? name with
    | none =>
      rw [hbefore, hfound]
      exact Latch.orderly_new
    | some found =>
      rw [hbefore, hfound]
      exact h.latches_orderly name found hfound
  obtain ⟨cache, hstate⟩ := apply_state_of_executes hexecutes
  rw [hstate, hoperation] at hget
  rw [apply_of_executes hexecutes, hoperation] at hanswer
  have hput : (machine.latches.put name step.state).get? name = some latch := hget
  rw [Latches.get?_put, if_pos rfl] at hput
  have hempty : step.state.waiters = [] := Latch.waiters_of_answered horderly hanswer htimeout
  rw [← Option.some.inj hput, Latch.parkedCalls, hempty] at hmem
  cases hmem

/-- A caller that gets a value is not parked. -/
theorem Placed.not_parked_of_answered {machine : Machine} {operation : Operation}
    {call : SessionCall} (h : machine.Placed operation call) {command : Command} {value : Value}
    (hoperation : command.operation = operation) (hexecutes : machine.executes command = true)
    (hanswer : (machine.apply command).answer = .ok value) :
    (machine.apply command).state.parkedCount call.parked = 0 := by
  by_contra hparked
  rcases Nat.add_pos_iff_pos_or_pos.mp (Nat.pos_of_ne_zero hparked) with hsemaphores | hlatches
  · obtain ⟨name, semaphore, hget, hmem⟩ := exists_of_parkedIn_pos hsemaphores
    exact not_acquiring_of_answered h hoperation hexecutes hanswer hget hmem
  · obtain ⟨name, latch, hget, hmem⟩ := exists_of_parkedIn_pos hlatches
    exact not_awaiting_of_answered h hoperation hexecutes hanswer hget hmem

/-- A step answers a call at most once, and the call is not parked afterwards. -/
theorem Placed.answered {machine : Machine} {operation : Operation} {call : SessionCall}
    (h : machine.Placed operation call) {command : Command}
    (hsame : command.call? = some call → command.operation = operation)
    (hexecutes : machine.executes command = true) :
    ((machine.answersOf command).map (·.1)).count call ≤ 1 ∧
      (call ∈ (machine.answersOf command).map (·.1) →
        (machine.apply command).state.parkedCount call.parked = 0) := by
  have hnotes := count_answers_le (machine.apply command).notes call
  have hone := h.parkedCount_le_one
  have hparking : (machine.apply command).state.parkedCount call.parked +
      ((machine.apply command).notes.map Notification.call).count call.parked ≤ 1 ∨
      (machine.apply command).notes = [] := by
    cases machine.apply_parking command with
    | conserved hconserved =>
      left
      have hcall := hconserved call.parked
      omega
    | parked huid hkind hanswer hnone hcount => exact .inr hnone
  rw [← List.count_pos_iff, answersOf, answersIn, List.map_append, List.count_append]
  rcases count_ownAnswer command.call? (machine.apply command).answer call with
    hown | ⟨hcall, ⟨value, hanswer⟩, hown⟩
  · rcases hparking with hparking | hquiet
    · exact ⟨by omega, fun hpos => by omega⟩
    · have hnone : (((machine.apply command).notes.filterMap Notification.answer?).map
          (·.1)).count call = 0 := by
        rw [hquiet]
        rfl
      exact ⟨by omega, fun hpos => by omega⟩
  · have hnoted := List.count_eq_zero.mpr (not_noted_of_own machine hcall)
    exact ⟨by omega, fun _ => h.not_parked_of_answered (hsame hcall) hexecutes hanswer⟩

/-- A call that is placed, and not parked while its answer is on record. -/
structure Tracked (machine : Machine) (operation : Operation) (call : SessionCall) : Prop extends
    Placed machine operation call where
  recorded : ∀ value, machine.onRecord call = some value → machine.parkedCount call.parked = 0

theorem tracked_new (options : MachineOptions) (operation : Operation) (call : SessionCall) :
    (new options).Tracked operation call where
  toPlaced := placed_new options operation call
  recorded _ _ := rfl

/-- A call that is on record is not answered anew. -/
theorem Tracked.not_answered_of_onRecord {machine : Machine} {operation : Operation}
    {call : SessionCall} (h : machine.Tracked operation call) {value : Value}
    (hrecord : machine.onRecord call = some value) {command : Command}
    (hexecutes : machine.executes command = true) :
    call ∉ (machine.answersOf command).map (·.1) := by
  have hnotes := count_answers_le (machine.apply command).notes call
  have hquiet : ((machine.apply command).notes.map Notification.call).count call.parked = 0 := by
    refine List.count_eq_zero.mpr fun hmem => ?_
    have hpos := parkedCount_pos_of_note hmem
    rw [h.recorded value hrecord] at hpos
    exact Nat.lt_irrefl 0 hpos
  rw [← List.count_eq_zero, answersOf, answersIn, List.map_append, List.count_append]
  rcases count_ownAnswer command.call? (machine.apply command).answer call with
    hown | ⟨hcall, -, -⟩
  · omega
  · rw [onRecord_of_executes hcall hexecutes] at hrecord
    cases hrecord

/-- A command keeps a call from being parked while it is on record. -/
theorem Tracked.apply {machine : Machine} {operation : Operation} {call : SessionCall}
    (h : machine.Tracked operation call) {command : Command}
    (hsame : command.call? = some call → command.operation = operation) :
    (machine.apply command).state.Tracked operation call := by
  refine ⟨h.toPlaced.apply hsame, fun value hrecord => ?_⟩
  cases hbefore : machine.onRecord call with
  | none =>
    cases hexecutes : machine.executes command with
    | false =>
      rw [onRecord_apply hbefore fun htrue => by rw [hexecutes] at htrue; cases htrue] at hrecord
      cases hrecord
    | true =>
      refine (h.toPlaced.answered hsame hexecutes).2 ?_
      by_contra hmem
      rw [onRecord_apply hbefore fun _ => hmem] at hrecord
      cases hrecord
  | some earlier =>
    have hfree := h.recorded earlier hbefore
    -- While the call is on record its retries are answered, so none of them parks it.
    cases machine.apply_parking command with
    | conserved hconserved =>
      have hcall := hconserved call.parked
      omega
    | @parked uid huid hkind hanswer hnotes hcount =>
      have hother : call.parked ≠ ⟨command.operation.kind, uid, command.invocation.session⟩ := by
        intro hparked
        have hcall := call?_of_parked hkind huid hparked
        cases hexecutes : machine.executes command with
        | false =>
          obtain ⟨result, happly, -⟩ := apply_of_not_executes hexecutes
          rw [happly] at hanswer
          cases hanswer
        | true =>
          rw [onRecord_of_executes hcall hexecutes] at hbefore
          cases hbefore
      rw [hcount, hfree, List.count_singleton, if_neg (by simpa using hother.symm)]

/-- A log keeps a call from being parked while it is on record, by induction from the step. -/
theorem Tracked.replay {machine : Machine} {operation : Operation} {call : SessionCall}
    (h : machine.Tracked operation call) {log : List Command}
    (hsame : ∀ command ∈ log, command.call? = some call → command.operation = operation) :
    (machine.replay log).Tracked operation call := by
  induction log generalizing machine with
  | nil => exact h
  | cons command rest ih =>
    exact ih (h.apply (hsame command List.mem_cons_self)) fun other hmem =>
      hsame other (List.mem_cons_of_mem _ hmem)

end Machine

end Quorum
