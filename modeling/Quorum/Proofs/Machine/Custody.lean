import Mathlib.Algebra.Order.Group.Multiset
import Quorum.Proofs.Machine.Answers

namespace Quorum

namespace Machine

/-- The calls that are parked at a replica. -/
def parkedCalls (machine : Machine) : Multiset ParkedCall :=
  ↑(machine.semaphores.byName.values.flatMap Semaphore.parkedCalls) +
    ↑(machine.latches.byName.values.flatMap Latch.parkedCalls)

theorem count_values_flatMap {α : Type} (calls : α → List ParkedCall) (objects : SortedMap String α)
    (call : ParkedCall) :
    (objects.values.flatMap calls).count call = parkedIn calls objects call := by
  rw [SortedMap.values, List.flatMap_map, SortedMap.count_flatMap_entries]
  rfl

/-- A replica parks a call as often as its objects do. -/
theorem count_parkedCalls (machine : Machine) (call : ParkedCall) :
    machine.parkedCalls.count call = machine.parkedCount call := by
  rw [parkedCalls, Multiset.count_add, Multiset.coe_count, Multiset.coe_count,
    count_values_flatMap, count_values_flatMap]
  rfl

/-- The tokens that are parked where an operation can park its caller. -/
def queueOf? (machine : Machine) : Operation → Option (List InvocationUid)
  | .semaphore name (.acquire _ _) =>
    some ((machine.semaphores.byName.getD name {}).waiters.map AcquireWaiter.uid)
  | .latch name (.await _) => some ((machine.latches.latch name).waiters.map AwaitWaiter.uid)
  | _ => none

/-- The call that a command adds to a queue. -/
def newcomer (machine : Machine) (command : Command) : Option ParkedCall :=
  (machine.queueOf? command.operation).bind
    (joining command.operation.kind command.invocation (machine.apply command).answer)

/-- An operation that cannot park has no queue. -/
theorem queueOf?_of_not_parks {machine : Machine} {operation : Operation}
    (h : ¬ operation.Parks) : machine.queueOf? operation = none := by
  unfold queueOf?
  split
  · exact absurd (.inl rfl) h
  · exact absurd (.inr rfl) h
  · rfl

/-- A newcomer is the caller itself, and the caller is told to wait. -/
theorem newcomer_eq_some {machine : Machine} {command : Command} {call : ParkedCall}
    (h : machine.newcomer command = some call) :
    (machine.apply command).answer = .waiting ∧ call.kind = command.operation.kind ∧
      command.invocation.uid = some call.uid ∧ command.invocation.session = call.session := by
  obtain ⟨queue, -, hjoining⟩ := Option.bind_eq_some_iff.mp h
  exact joining_eq_some hjoining

/-- A call that is answered at once joins no queue. -/
theorem newcomer_of_answered {machine : Machine} {command : Command}
    (h : (machine.apply command).answer ≠ .waiting) : machine.newcomer command = none := by
  refine Option.eq_none_iff_forall_ne_some.mpr fun call hcall => ?_
  exact h (newcomer_eq_some hcall).1

/-- An operation that can park its caller adds the newcomer to the parked calls. -/
theorem parkedCount_of_parks {machine : Machine} {command : Command}
    (hparks : command.operation.Parks) (hexecutes : machine.executes command = true)
    (call : ParkedCall) :
    (machine.apply command).state.parkedCount call =
      machine.parkedCount call + (machine.newcomer command).toList.count call := by
  have hanswer : (machine.apply command).answer =
      (machine.execute command.operation command.invocation command.timestamp).answer := by
    rw [apply_of_executes hexecutes]
  obtain ⟨cache, hstate⟩ := apply_state_of_executes hexecutes
  rw [newcomer, hanswer, hstate]
  rcases hparks with hacquire | hawait
  · obtain ⟨name, permits, timeout, hoperation⟩ := Operation.eq_acquire_of_kind hacquire
    rw [hoperation]
    let before := machine.semaphores.byName.getD name {}
    let step := before.acquire command.invocation permits timeout command.timestamp
    let joined := joining SemaphoreOp.acquireKind command.invocation step.answer
      (before.waiters.map AcquireWaiter.uid)
    have hinsert : parkedIn Semaphore.parkedCalls
        (machine.semaphores.byName.insert name step.state) call =
          parkedIn Semaphore.parkedCalls machine.semaphores.byName call +
            joined.toList.count call :=
      parkedIn_insert_of_append Semaphore.parkedCalls _ name rfl
        (before.acquire_joining command.invocation permits timeout command.timestamp) call
    calc _ = parkedIn Semaphore.parkedCalls (machine.semaphores.byName.insert name step.state) call +
          parkedIn Latch.parkedCalls machine.latches.byName call := rfl
      _ = machine.parkedCount call + joined.toList.count call := by
          rw [hinsert, parkedCount, Nat.add_right_comm]
  · obtain ⟨name, timeout, hoperation⟩ := Operation.eq_await_of_kind hawait
    rw [hoperation]
    let before := machine.latches.latch name
    let step := before.await command.invocation timeout command.timestamp
    let joined := joining LatchOp.awaitKind command.invocation step.answer
      (before.waiters.map AwaitWaiter.uid)
    have hinsert : parkedIn Latch.parkedCalls (machine.latches.byName.insert name step.state) call =
        parkedIn Latch.parkedCalls machine.latches.byName call + joined.toList.count call :=
      parkedIn_insert_of_append Latch.parkedCalls _ name rfl
        (before.await_joining command.invocation timeout command.timestamp) call
    calc _ = parkedIn Semaphore.parkedCalls machine.semaphores.byName call +
          parkedIn Latch.parkedCalls (machine.latches.byName.insert name step.state) call := rfl
      _ = machine.parkedCount call + joined.toList.count call := by
          rw [hinsert, parkedCount, Nat.add_assoc]

/-- A step conserves every parked call: it stays, is answered, or joins. -/
theorem apply_parkedCount (machine : Machine) (command : Command) (call : ParkedCall) :
    (machine.apply command).state.parkedCount call +
        ((machine.apply command).notes.map Notification.call).count call =
      machine.parkedCount call + (machine.newcomer command).toList.count call := by
  cases hexecutes : machine.executes command with
  | false =>
    obtain ⟨result, happly, -⟩ := apply_of_not_executes hexecutes
    have hnone : machine.newcomer command = none := newcomer_of_answered (by rw [happly]; simp)
    rw [hnone, happly]
    rfl
  | true =>
    by_cases hparks : command.operation.Parks
    · rw [notes_of_parks hparks, parkedCount_of_parks hparks hexecutes call]
      rfl
    · have hnone : machine.newcomer command = none := by
        rw [newcomer, queueOf?_of_not_parks hparks]
        rfl
      rw [hnone]
      cases machine.apply_parking command with
      | conserved h => exact h call
      | parked huid hkind hanswer hnotes h => exact absurd hkind hparks

/-- The calls parked after a step and those that it answers are the calls parked before it and the
    newcomer. -/
theorem apply_parkedCalls (machine : Machine) (command : Command) :
    (machine.apply command).state.parkedCalls +
        ((machine.apply command).notes.map Notification.call : List ParkedCall) =
      machine.parkedCalls + ((machine.newcomer command).toList : List ParkedCall) := by
  ext call
  rw [Multiset.count_add, Multiset.count_add, count_parkedCalls, count_parkedCalls,
    Multiset.coe_count, Multiset.coe_count]
  exact machine.apply_parkedCount command call

/-- The calls that join queues while a log is applied. -/
def newcomersOver (machine : Machine) (log : List Command) : List ParkedCall :=
  machine.collect (fun machine command => (machine.newcomer command).toList) log

/-- The notifications that a log gives. -/
def notesOver (machine : Machine) (log : List Command) : List Notification :=
  machine.collect (fun machine command => (machine.apply command).notes) log

/-- A log conserves every parked call, by induction from the step. -/
theorem replay_parkedCalls (machine : Machine) (log : List Command) :
    (machine.replay log).parkedCalls +
        ((machine.notesOver log).map Notification.call : List ParkedCall) =
      machine.parkedCalls + (machine.newcomersOver log : List ParkedCall) := by
  induction log generalizing machine with
  | nil => rfl
  | cons command rest ih =>
    have hstep := machine.apply_parkedCalls command
    have hrest := ih (machine.apply command).state
    have hnotes : machine.notesOver (command :: rest) =
      (machine.apply command).notes ++ (machine.apply command).state.notesOver rest := rfl
    have hnewcomers : machine.newcomersOver (command :: rest) =
      (machine.newcomer command).toList ++ (machine.apply command).state.newcomersOver rest := rfl
    rw [replay_cons, hnotes, hnewcomers, List.map_append, ← Multiset.coe_add, ← Multiset.coe_add]
    calc _ = ((machine.apply command).state.replay rest).parkedCalls +
          (((machine.apply command).state.notesOver rest).map Notification.call :
            List ParkedCall) +
          ((machine.apply command).notes.map Notification.call : List ParkedCall) := by
          rw [add_assoc, add_comm (Multiset.ofList _)]
      _ = (machine.apply command).state.parkedCalls +
          ((machine.apply command).notes.map Notification.call : List ParkedCall) +
          ((machine.apply command).state.newcomersOver rest : List ParkedCall) := by
          rw [hrest, add_right_comm]
      _ = _ := by rw [hstep, add_assoc]

/-- No parked call is lost or answered twice. In every step the parked calls and the newcomer, who
    is the caller and is told to wait, are the calls parked afterwards and those that notifications
    answer; and so over every run. -/
theorem parked_calls_conserved (options : MachineOptions) (log later : List Command)
    (command : Command) :
    let machine := run options log
    (machine.apply command).state.parkedCalls +
          ((machine.apply command).notes.map Notification.call : List ParkedCall) =
        machine.parkedCalls + ((machine.newcomer command).toList : List ParkedCall) ∧
      (machine.newcomer command = none ∨
        (machine.apply command).answer = .waiting ∧
          ∃ uid, command.invocation.uid = some uid ∧ machine.newcomer command =
            some ⟨command.operation.kind, uid, command.invocation.session⟩) ∧
      (run options (log ++ later)).parkedCalls +
          ((machine.notesOver later).map Notification.call : List ParkedCall) =
        machine.parkedCalls + (machine.newcomersOver later : List ParkedCall) := by
  intro machine
  refine ⟨machine.apply_parkedCalls command, ?_, ?_⟩
  · rcases Option.eq_none_or_eq_some (machine.newcomer command) with hnone | ⟨call, hcall⟩
    · exact .inl hnone
    · obtain ⟨hwaiting, hkind, huid, hsession⟩ := newcomer_eq_some hcall
      refine .inr ⟨hwaiting, call.uid, huid, ?_⟩
      rw [hcall, ← hkind, hsession]
  · rw [run_append]
    exact machine.replay_parkedCalls later

end Machine

end Quorum
