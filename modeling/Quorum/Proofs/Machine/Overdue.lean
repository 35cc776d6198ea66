import Quorum.Proofs.Due
import Quorum.Proofs.Machine.Timeouts
import Quorum.Proofs.Semaphore.Relief

namespace Quorum.Machine

/-- In every replica the head of a queue does not fit. -/
theorem semaphore_headBlocked {options : MachineOptions} {log : List Command} {name : String}
    {semaphore : Semaphore} (h : (run options log).semaphores.get? name = some semaphore) :
    semaphore.HeadBlocked := by
  have hhistory := replay_semaphore (new options) log name
  exact (ObjectEvent.follow_induction
    (P := fun semaphore : Semaphore => semaphore.HeadBlocked ∧ semaphore.Orderly)
    ⟨Semaphore.headBlocked_new, Semaphore.orderly_new⟩
    (fun event _ _ hbefore =>
      ⟨hbefore.1.react hbefore.2 options.overdraft event, hbefore.2.react options.overdraft event⟩)
    (by intro object hget; cases hget) (hhistory.symm.trans h)).1

/-- A call that is parked somewhere waits there. -/
theorem exists_waiting_of_parkedCount_pos {machine : Machine} {call : ParkedCall}
    (h : 0 < machine.parkedCount call) : ∃ wait, machine.Waiting wait ∧ wait.call = call := by
  rcases Nat.add_pos_iff_pos_or_pos.mp h with hsemaphores | hlatches
  · obtain ⟨name, semaphore, hget, hmem⟩ := exists_of_parkedIn_pos hsemaphores
    obtain ⟨wait, hwait, hcall⟩ := List.mem_map.mp (semaphore.map_call_waits ▸ hmem)
    have hfound : machine.semaphores.get? name = some semaphore := hget
    exact ⟨wait, ⟨name, .inl (hfound ▸ hwait)⟩, hcall⟩
  · obtain ⟨name, latch, hget, hmem⟩ := exists_of_parkedIn_pos hlatches
    obtain ⟨wait, hwait, hcall⟩ := List.mem_map.mp (latch.map_call_waits ▸ hmem)
    have hfound : machine.latches.get? name = some latch := hget
    exact ⟨wait, ⟨name, .inr (hfound ▸ hwait)⟩, hcall⟩

section Proposal

variable {machine : Machine} {command : Command} {uids : List InvocationUid}
  (hoperation : command.operation = .expireWaitKeys uids)

include hoperation

/-- A proposal of timeouts parks nobody. -/
theorem conserves_of_expireWaitKeys :
    machine.Conserves (machine.apply command).state (machine.apply command).notes := by
  cases machine.apply_parking command with
  | conserved hconserved => exact hconserved
  | parked huid hkind hanswer hnotes hcount =>
    rw [hoperation] at hkind
    simp [Operation.kind, SemaphoreOp.acquireKind, LatchOp.awaitKind] at hkind

variable (hexecutes : machine.executes command = true)

include hexecutes

/-- Who waits after an executed proposal waited before, and has none of its tokens. -/
theorem waited_of_waits {wait : Wait}
    (hsemaphores : ∀ name semaphore, machine.semaphores.get? name = some semaphore →
      semaphore.Orderly)
    (hlatches : ∀ name latch, machine.latches.get? name = some latch → latch.Orderly)
    (h : (machine.apply command).state.Waiting wait) :
    machine.Waiting wait ∧ wait.call.uid ∉ uids := by
  obtain ⟨name, hmem | hmem⟩ := h
  · have htimed := apply_timedOut_semaphore hoperation (hsemaphores name)
    rw [if_pos hexecutes] at htimed
    exact ⟨⟨name, .inl (htimed.sublist.subset hmem)⟩, htimed.cleared wait hmem⟩
  · have htimed := apply_timedOut_latch hoperation (hlatches name)
    rw [if_pos hexecutes] at htimed
    exact ⟨⟨name, .inr (htimed.sublist.subset hmem)⟩, htimed.cleared wait hmem⟩

/-- A latch answers each await under an expired token once. -/
theorem latch_answered_once {name : String}
    (horderly : ∀ latch, machine.latches.get? name = some latch → latch.Orderly) {wait : Wait}
    (hmem : wait ∈ Latch.waits (machine.latches.get? name)) (huid : wait.call.uid ∈ uids) :
    (machine.latchNotes name command).filter (fun note => note.call = wait.call) =
      [wait.call.answer (.ok (.bool false))] := by
  rw [latchNotes, latchEvents_expireWaitKeys hoperation, if_pos hexecutes]
  refine Latch.answered_once horderly ?_ hmem huid
  cases hget : machine.latches.get? name with
  | none => exact List.nodup_nil
  | some latch =>
    rw [latch.map_call_waits]
    exact (horderly latch hget).nodup_parkedCalls

/-- What becomes of a semaphore's queue when an executed proposal is applied. -/
theorem exists_relieved_apply {name : String} {semaphore : Semaphore}
    (hget : machine.semaphores.get? name = some semaphore) (horderly : semaphore.Orderly)
    (hblocked : semaphore.HeadBlocked) :
    ∃ after granted, (machine.apply command).state.semaphores.get? name = some after ∧
      Semaphore.Relieved semaphore after (machine.semaphoreNotes name command) granted ∧
      ∀ waiter ∈ semaphore.waiters, waiter.uid ∈ uids →
        (machine.semaphoreNotes name command).filter (fun note => note.call = waiter.call) =
          [waiter.answer (.ok (.bool (decide (waiter ∈ granted))))] := by
  have hevents : machine.semaphoreEvents command name = uids.map .timedOut := by
    rw [semaphoreEvents_expireWaitKeys hoperation, if_pos hexecutes]
  rw [apply_semaphore, semaphoreNotes, hevents, hget]
  obtain ⟨after, granted, hafter, hrelieved⟩ := Semaphore.exists_relieved horderly hblocked
    machine.semaphores.overdraft name uids
  refine ⟨after, granted, hafter, hrelieved, fun waiter hmem huid => ?_⟩
  have hsame : ∀ other, some semaphore = some other → other.Orderly := by
    rintro other ⟨⟩
    exact horderly
  have htimed := Semaphore.timedOut_notesOf hsame machine.semaphores.overdraft name uids
  have hconserved :=
    Semaphore.conserved_notesOf machine.semaphores.overdraft name (some semaphore) uids
  rw [hafter] at htimed hconserved
  exact hrelieved.answered_once horderly htimed hconserved horderly.nodup_parkedCalls hmem huid

end Proposal

/-- A proposal to tell the calls that are due that their time is up clears all of them when it is
    applied to the state that it was drawn up from. Nobody is due afterwards. A call that was due
    gets as many notifications as there were objects where it was parked, and one from each: an
    await is told that its time is up, and so is an acquire unless it was granted first, as those
    who stood in front of it had left. No semaphore is left with somebody at the head of its queue
    who could be served. -/
theorem due_calls_cleared (options : MachineOptions) (log : List Command) (command : Command)
    (now : Millis) (hsession : command.invocation.session = none)
    (hoperation : command.operation = .expireWaitKeys ((run options log).expiredWaitKeys now)) :
    let machine := run options log
    let step := machine.apply command
    step.state.expiredWaitKeys now = [] ∧
    (∀ due, machine.Waiting due → due.isDue now = true →
      (step.notes.map Notification.call).count due.call = machine.parkedCount due.call) ∧
    (∀ name, (machine.latchNotes name command).Sublist step.notes ∧
      ∀ due ∈ Latch.waits (machine.latches.get? name), due.isDue now = true →
        (machine.latchNotes name command).filter (fun note => note.call = due.call) =
          [due.call.answer (.ok (.bool false))]) ∧
    (∀ name semaphore, machine.semaphores.get? name = some semaphore →
      (machine.semaphoreNotes name command).Sublist step.notes ∧
      ∃ after granted, step.state.semaphores.get? name = some after ∧
        Semaphore.Relieved semaphore after (machine.semaphoreNotes name command) granted ∧
        ∀ waiter ∈ semaphore.waiters, waiter.wait.isDue now = true →
          (machine.semaphoreNotes name command).filter (fun note => note.call = waiter.call) =
            [waiter.answer (.ok (.bool (decide (waiter ∈ granted))))]) ∧
    ∀ name semaphore, step.state.semaphores.get? name = some semaphore →
      semaphore.HeadBlocked := by
  intro machine step
  have hexecutes : machine.executes command = true := executes_of_sessionless hsession
  -- Nobody joins a queue in this step, and nobody stays who has one of the tokens.
  have hwaited : ∀ wait, step.state.Waiting wait →
      machine.Waiting wait ∧ wait.call.uid ∉ machine.expiredWaitKeys now :=
    fun wait => waited_of_waits hoperation hexecutes (fun _ _ => semaphore_orderly)
      fun _ _ hget => (latch_orderly hget).1
  have htoken : ∀ due, machine.Waiting due → due.isDue now = true →
      due.call.uid ∈ machine.expiredWaitKeys now :=
    fun due hwaits hdue => mem_expiredWaitKeys.mpr ⟨due, hwaits, hdue, rfl⟩
  have hsemaphore : ∀ name semaphore, machine.semaphores.get? name = some semaphore →
      ∃ after granted, step.state.semaphores.get? name = some after ∧
        Semaphore.Relieved semaphore after (machine.semaphoreNotes name command) granted ∧
        ∀ waiter ∈ semaphore.waiters, waiter.uid ∈ machine.expiredWaitKeys now →
          (machine.semaphoreNotes name command).filter (fun note => note.call = waiter.call) =
            [waiter.answer (.ok (.bool (decide (waiter ∈ granted))))] :=
    fun name semaphore hget => exists_relieved_apply hoperation hexecutes hget
      (semaphore_orderly hget) (semaphore_headBlocked hget)
  refine ⟨?_, ?_, ?_, ?_, ?_⟩
  · refine List.eq_nil_iff_forall_not_mem.mpr fun uid hmem => ?_
    obtain ⟨wait, hwaits, hdue, rfl⟩ := mem_expiredWaitKeys.mp hmem
    obtain ⟨hbefore, hother⟩ := hwaited wait hwaits
    exact hother (htoken wait hbefore hdue)
  · intro due hwaits hdue
    have hgone : step.state.parkedCount due.call = 0 := by
      by_contra hparked
      obtain ⟨wait, hstill, hcall⟩ :=
        exists_waiting_of_parkedCount_pos (Nat.pos_of_ne_zero hparked)
      exact (hwaited wait hstill).2 (hcall ▸ htoken due hwaits hdue)
    have hconserves : machine.Conserves step.state step.notes :=
      conserves_of_expireWaitKeys hoperation
    have hcount := hconserves due.call
    rwa [hgone, Nat.zero_add] at hcount
  · refine fun name => ⟨(apply_relayed machine command).sublist name, fun due hmem hdue => ?_⟩
    exact latch_answered_once hoperation hexecutes (fun _ hget => (latch_orderly hget).1) hmem
      (htoken due ⟨name, .inr hmem⟩ hdue)
  · intro name semaphore hget
    obtain ⟨after, granted, hafter, hrelieved, hanswered⟩ := hsemaphore name semaphore hget
    refine ⟨(apply_reported machine command).sublist name, after, granted, hafter, hrelieved, ?_⟩
    intro waiter hmem hdue
    refine hanswered waiter hmem (htoken waiter.wait ⟨name, .inl ?_⟩ hdue)
    rw [hget]
    exact List.mem_map_of_mem hmem
  · intro name after hafter
    have hrun : step.state = run options (log ++ [command]) := (run_concat options log command).symm
    exact semaphore_headBlocked (hrun ▸ hafter)

/-- One permit is free. The first session waits for two of them, and the second one for one permit
    and for the end of a round, all with limits. -/
def crowdedLog : List Command :=
  let under (session : SessionId) (uid : Nat) (operation : Operation) : Command :=
    { invocation := { session, uid := some (.ofNat uid) }, operation, timestamp := 100 }
  [{ operation := .session (.create "a") }, { operation := .session (.create "b") },
    { operation := .semaphore "permit" (.init 1) }, { operation := .latch "gate" (.trySetCount 1) },
    under 1 1 (.semaphore "permit" (.acquire 2 (some 50))),
    under 2 2 (.semaphore "permit" (.acquire 1 (some 60))),
    under 2 3 (.latch "gate" (.await (some 40)))]

theorem crowded_calls_cleared :
    let options : MachineOptions := { sessionTtl := 10, dedupCapacity := 4, overdraft := true }
    let machine := run options crowdedLog
    let command : Command :=
      { operation := .expireWaitKeys [.ofNat 1, .ofNat 2, .ofNat 3], timestamp := 160 }
    let step := machine.apply command
    let behind : ParkedCall := ⟨SemaphoreOp.acquireKind, .ofNat 2, some 2⟩
    command.operation = .expireWaitKeys (machine.expiredWaitKeys 160) ∧
      step.state.expiredWaitKeys 160 = [] ∧
      (step.notes.map Notification.call).count behind = machine.parkedCount behind ∧
      step.notes = [⟨.ofNat 1, some 1, SemaphoreOp.acquireKind, .ok (.bool false)⟩,
        ⟨.ofNat 2, some 2, SemaphoreOp.acquireKind, .ok (.bool true)⟩,
        ⟨.ofNat 3, some 2, LatchOp.awaitKind, .ok (.bool false)⟩] := by
  intro options machine command step behind
  have hoperation : command.operation =
      .expireWaitKeys ((run options crowdedLog).expiredWaitKeys 160) := by
    decide +kernel
  have hwaits : machine.Waiting ⟨behind, some 160⟩ := by
    have hqueue : (⟨behind, some 160⟩ : Wait) ∈
        Semaphore.waits (machine.semaphores.get? "permit") := by
      decide +kernel
    exact ⟨"permit", .inl hqueue⟩
  obtain ⟨hcleared, hcount, -⟩ := due_calls_cleared options crowdedLog command 160 rfl hoperation
  exact ⟨hoperation, hcleared, hcount ⟨behind, some 160⟩ hwaits (by decide), by decide +kernel⟩

end Quorum.Machine
