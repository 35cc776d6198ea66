import Quorum.Proofs.Machine.Parked
import Quorum.Proofs.Relay
import Quorum.Proofs.Semaphore.Turns

namespace Quorum.Machine

/-- The notifications to parked acquires are those that events give at the semaphores: in the same
    order at every semaphore, and no others. -/
structure Reported (overdraft : Bool) (semaphores : Semaphores)
    (events : String → List (ObjectEvent SemaphoreOp)) (notes : List Notification) : Prop where
  sublist : ∀ name,
    (Semaphore.notesOf overdraft name (semaphores.get? name) (events name)).Sublist notes
  exists_mem : ∀ note ∈ notes, note.kind = SemaphoreOp.acquireKind →
    ∃ name, note ∈ Semaphore.notesOf overdraft name (semaphores.get? name) (events name)

namespace Reported

variable {overdraft : Bool} {semaphores : Semaphores}

theorem of_relayed {events : String → List (ObjectEvent SemaphoreOp)} {notes : List Notification}
    (h : Relayed SemaphoreOp.acquireKind
      (fun name => Semaphore.notesOf overdraft name (semaphores.get? name) (events name)) notes) :
    Reported overdraft semaphores events notes := ⟨h.sublist, h.exists_mem⟩

/-- Where nothing happens to semaphores, no parked acquire is answered. -/
theorem of_no_events {events : String → List (ObjectEvent SemaphoreOp)} {notes : List Notification}
    (hevents : ∀ name, events name = [])
    (hnotes : ∀ note ∈ notes, note.kind ≠ SemaphoreOp.acquireKind) :
    Reported overdraft semaphores events notes := by
  refine .of_relayed (.of_nothing (fun name => ?_) hnotes)
  rw [hevents]
  rfl

theorem of_silence {events : String → List (ObjectEvent SemaphoreOp)}
    (hevents : ∀ name, events name = []) : Reported overdraft semaphores events [] :=
  .of_no_events hevents fun _ hmem => absurd hmem List.not_mem_nil

/-- Where only one semaphore has an event, its notifications are all there are. -/
theorem of_event {events : String → List (ObjectEvent SemaphoreOp)} {name : String}
    {event : ObjectEvent SemaphoreOp} (hname : events name = [event])
    (hothers : ∀ other, name ≠ other → events other = []) :
    Reported overdraft semaphores events
      (Semaphore.notesAt overdraft name (semaphores.get? name) event) := by
  have hnotes : Semaphore.notesAt overdraft name (semaphores.get? name) event =
      Semaphore.notesOf overdraft name (semaphores.get? name) (events name) := by
    rw [hname, Semaphore.notesOf_singleton]
  rw [hnotes]
  refine .of_relayed (.of_one name fun other hother => ?_)
  rw [hothers other hother]
  rfl

/-- An event that befalls every semaphore, in the order of names, before others do. -/
theorem sweep {f : Semaphore → Semaphore × List Notification} {event : ObjectEvent SemaphoreOp}
    {rest : List (ObjectEvent SemaphoreOp)} {others later : List Notification}
    (hnotes : ∀ name semaphore?, Semaphore.notesAt overdraft name semaphore? event =
      (semaphore?.map fun semaphore => (f semaphore).2).getD [])
    (hfollow : ∀ semaphore?, ObjectEvent.follow {} (Semaphore.react overdraft) semaphore? event =
      semaphore?.map fun semaphore => (f semaphore).1)
    (hothers : ∀ note ∈ others, note.kind ≠ SemaphoreOp.acquireKind)
    (hrest : Reported overdraft (semaphores.stepAll f).1 (fun _ => rest) later) :
    Reported overdraft semaphores (fun _ => event :: rest)
      ((semaphores.stepAll f).2 ++ others ++ later) := by
  have hsplit : ∀ name, Semaphore.notesOf overdraft name (semaphores.get? name) (event :: rest) =
      ((semaphores.get? name).map fun semaphore => (f semaphore).2).getD [] ++
        Semaphore.notesOf overdraft name ((semaphores.stepAll f).1.get? name) rest := by
    intro name
    rw [Semaphores.get?_stepAll, ← hnotes name, ← hfollow]
    rfl
  have hswept := Relayed.sweep hsplit (fun _ hmem => absurd hmem List.not_mem_nil) hothers
    ⟨hrest.sublist, hrest.exists_mem⟩
  have hvalues : (semaphores.stepAll f).2 =
      semaphores.byName.entries.flatMap fun entry => (f entry.2).2 := List.flatMap_map _ _ _
  rw [hvalues]
  exact .of_relayed hswept

end Reported

/-- Latches answer no acquire. -/
theorem kind_of_latch_note {latch after : Latch} {notes : List Notification}
    (h : (after.parkedCalls ++ notes.map Notification.call).Perm latch.parkedCalls)
    {note : Notification} (hmem : note ∈ notes) : note.kind ≠ SemaphoreOp.acquireKind := by
  rw [kind_of_conserved latch.kind_of_parked h hmem]
  simp [LatchOp.awaitKind, SemaphoreOp.acquireKind]

/-- Latches answer no acquire. -/
theorem kind_of_latches_note {latches : Latches} {g : String → Latch → Latch × List Notification}
    (hg : ∀ name latch, ((g name latch).1.parkedCalls ++
      (g name latch).2.map Notification.call).Perm latch.parkedCalls) :
    ∀ note ∈ (latches.stepAll g).2, note.kind ≠ SemaphoreOp.acquireKind := by
  intro note hmem
  obtain ⟨⟨name, latch⟩, -, hnote⟩ := List.mem_flatMap.mp hmem
  exact kind_of_latch_note (hg name latch) hnote

/-- Closing sessions reports what the semaphores grant and refuse on it. -/
theorem closeAll_reported (machine : Machine) (closed : List SessionId) (overdraft : Bool) :
    Reported overdraft machine.semaphores (fun _ => closed.map .sessionClosed)
      (machine.closeAll closed).2 := by
  induction closed generalizing machine with
  | nil => exact .of_silence fun _ => rfl
  | cons session rest ih =>
    exact .sweep (fun _ _ => rfl) (fun _ => rfl)
      (kind_of_latches_note fun name latch => latch.releaseOwner_parkedCalls name session)
      (ih ({ machine with
        sessions := machine.sessions.without session }.releaseSession session).1)

/-- Timeouts report what the semaphores answer on them. -/
theorem expireWaitKeys_reported (machine : Machine) (uids : List InvocationUid)
    (overdraft : Bool) :
    Reported overdraft machine.semaphores (fun _ => uids.map .timedOut)
      (machine.expireWaitKeys uids).2 := by
  induction uids generalizing machine with
  | nil => exact .of_silence fun _ => rfl
  | cons uid rest ih =>
    exact .sweep (fun _ _ => rfl) (fun _ => rfl)
      (kind_of_latches_note fun _ latch => latch.expireWaiter_parkedCalls uid)
      (ih (machine.expireWaitKey uid).1)

/-- An operation reports what the semaphores answer on its events. -/
theorem execute_reported (machine : Machine) (operation : Operation) (invocation : Invocation)
    (now : Millis) :
    Reported machine.semaphores.overdraft machine.semaphores
      (fun name => machine.operationEvents operation invocation now .semaphore name
        (semaphoreCall? name))
      (machine.execute operation invocation now).notes := by
  cases operation with
  | session op =>
    cases op with
    | create endpoint => exact .of_silence fun _ => rfl
    | generateThreadId => exact .of_silence fun _ => rfl
    | heartbeat session =>
      simp only [execute, applySession]
      split <;> exact .of_silence fun _ => rfl
    | close session =>
      rw [execute, applySession_close]
      exact closeAll_reported machine _ _
  | atomicRef named op => cases op <;> exact .of_silence fun _ => rfl
  | latch named op =>
    refine .of_no_events (fun _ => rfl) fun note hmem => ?_
    cases hread : op.isReadOnly with
    | true =>
      simp only [execute, Latches.apply_of_readOnly _ _ hread] at hmem
      cases hmem
    | false =>
      simp only [execute, Latches.apply_eq _ _ hread] at hmem
      -- A latch answers awaits alone, and those are no acquires.
      rcases Latch.call_parkedCalls (machine.latches.latch named) op invocation now with
        hkept | ⟨uid, -, -, -, hnotes, -⟩
      · exact kind_of_latch_note hkept hmem
      · rw [hnotes] at hmem
        cases hmem
  | expireWaitKeys uids => exact expireWaitKeys_reported machine uids _
  | expireSessions sessions =>
    simp only [execute, expireSessions_eq]
    exact closeAll_reported machine _ _
  | destroy kind named =>
    cases kind with
    | atomicRef => exact .of_silence fun _ => rfl
    | latch =>
      refine .of_no_events (fun _ => rfl) fun note hmem => ?_
      simp only [execute, destroy, Latches.destroy] at hmem
      split at hmem
      · cases hmem
      · obtain ⟨waiter, -, rfl⟩ := List.mem_map.mp hmem
        simp [AwaitWaiter.answer, LatchOp.awaitKind, SemaphoreOp.acquireKind]
    | semaphore =>
      have hnotes : (machine.execute (.destroy .semaphore named) invocation now).notes =
          Semaphore.notesAt machine.semaphores.overdraft named (machine.semaphores.get? named)
            .destroyed := by
        simp only [execute, destroy, Semaphores.destroy, Semaphore.notesAt]
        cases machine.semaphores.get? named <;> rfl
      rw [hnotes]
      refine .of_event ?_ fun other hother => ?_
      · simp only [operationEvents, and_self, if_true]
      · simp only [operationEvents, hother, and_false, if_false]
  | semaphore named op =>
    cases hread : op.isReadOnly with
    | true =>
      simp only [execute, Semaphores.apply, hread, if_true]
      refine .of_silence fun name => ?_
      simp only [operationEvents, semaphoreCall?, hread, Bool.true_eq_false, and_false, if_false,
        closings]
      rfl
    | false =>
      have hnotes : (machine.execute (.semaphore named op) invocation now).notes =
          Semaphore.notesAt machine.semaphores.overdraft named (machine.semaphores.get? named)
            (.call op invocation now) := by
        simp only [execute, Semaphores.apply, hread, Bool.false_eq_true, if_false]
        rfl
      rw [hnotes]
      refine .of_event ?_ fun other hother => ?_
      · simp only [operationEvents, semaphoreCall?, hread, and_self, if_true]
      · simp only [operationEvents, semaphoreCall?, hother, false_and, if_false, closings]
        rfl

/-- A command reports what the semaphores answer on its events. -/
theorem apply_reported (machine : Machine) (command : Command) :
    Reported machine.semaphores.overdraft machine.semaphores
      (fun name => machine.semaphoreEvents command name) (machine.apply command).notes := by
  cases hexecutes : machine.executes command with
  | false =>
    obtain ⟨result, happly, -⟩ := apply_of_not_executes hexecutes
    rw [happly]
    refine .of_silence fun name => ?_
    rw [semaphoreEvents, hexecutes]
    rfl
  | true =>
    rw [apply_of_executes hexecutes]
    simp only [semaphoreEvents, hexecutes, if_true]
    exact execute_reported machine _ _ _

end Quorum.Machine
