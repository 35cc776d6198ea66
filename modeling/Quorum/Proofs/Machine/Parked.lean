import Quorum.Proofs.Machine.Events
import Quorum.Proofs.Parked
import Quorum.Proofs.SortedMap

namespace Quorum

section Counting

variable {α : Type} (calls : α → List ParkedCall)

/-- How often a call is parked at the objects of a map. -/
def parkedIn (objects : SortedMap String α) (call : ParkedCall) : Nat :=
  objects.total fun _ object => (calls object).count call

/-- A changed object parks what it parks, in the stead of what it parked. -/
theorem parkedIn_insert (objects : SortedMap String α) (name : String) {new : α}
    (hnew : calls new = []) (object : α) (call : ParkedCall) :
    parkedIn calls (objects.insert name object) call +
        (calls (objects.getD name new)).count call =
      parkedIn calls objects call + (calls object).count call := by
  have htotal := objects.total_insert (fun _ object => (calls object).count call) name object
  have hold : (objects.get? name).elim 0 (fun object => (calls object).count call) =
      (calls (objects.getD name new)).count call := by
    rw [SortedMap.getD]
    cases objects.get? name with
    | none =>
      rw [Option.getD_none, hnew]
      rfl
    | some object => rfl
  rw [← hold]
  exact htotal

/-- An object that keeps its parked calls or answers them is put back. -/
theorem parkedIn_insert_of_perm (objects : SortedMap String α) (name : String) {new after : α}
    (hnew : calls new = []) {notes : List Notification}
    (h : (calls after ++ notes.map Notification.call).Perm (calls (objects.getD name new)))
    (call : ParkedCall) :
    parkedIn calls (objects.insert name after) call + (notes.map Notification.call).count call =
      parkedIn calls objects call := by
  have hinsert := parkedIn_insert calls objects name hnew after call
  have hcount := h.count_eq call
  rw [List.count_append] at hcount
  omega

/-- An object that parks one more call is put back. -/
theorem parkedIn_insert_of_append (objects : SortedMap String α) (name : String) {new after : α}
    (hnew : calls new = []) {parked : List ParkedCall}
    (h : calls after = calls (objects.getD name new) ++ parked) (call : ParkedCall) :
    parkedIn calls (objects.insert name after) call =
      parkedIn calls objects call + parked.count call := by
  have hinsert := parkedIn_insert calls objects name hnew after call
  rw [h, List.count_append] at hinsert
  omega

/-- A removed object parks nothing. -/
theorem parkedIn_erase {objects : SortedMap String α} {name : String} {object : α}
    (h : objects.get? name = some object) (call : ParkedCall) :
    parkedIn calls (objects.erase name) call + (calls object).count call =
      parkedIn calls objects call := by
  have htotal := objects.total_erase (fun _ object => (calls object).count call) name
  rw [h] at htotal
  exact htotal

/-- If every object keeps its parked calls or answers them, so do all of them together. -/
theorem parkedIn_stepAll {f : String → α → α × List Notification}
    (h : ∀ name object,
      (calls (f name object).1 ++ (f name object).2.map Notification.call).Perm (calls object))
    (objects : SortedMap String α) (call : ParkedCall) :
    parkedIn calls (objects.mapValues fun name object => (f name object).1) call +
        ((objects.entries.flatMap fun e => (f e.1 e.2).2).map Notification.call).count call =
      parkedIn calls objects call := by
  rw [List.map_flatMap, SortedMap.count_flatMap_entries, parkedIn, SortedMap.total_mapValues,
    ← SortedMap.total_add]
  refine SortedMap.total_congr objects fun name object _ => ?_
  rw [← List.count_append]
  exact (h name object).count_eq call

end Counting

namespace Machine

/-- How often a call is parked at the replica. -/
def parkedCount (machine : Machine) (call : ParkedCall) : Nat :=
  parkedIn Semaphore.parkedCalls machine.semaphores.byName call +
    parkedIn Latch.parkedCalls machine.latches.byName call

/-- The parked calls stay parked or are answered by the notifications. -/
def Conserves (machine state : Machine) (notes : List Notification) : Prop :=
  ∀ call, state.parkedCount call + (notes.map Notification.call).count call =
    machine.parkedCount call

theorem conserves_refl (machine : Machine) : machine.Conserves machine [] := fun _ => rfl

/-- Two steps that conserve the parked calls do so together. -/
theorem Conserves.trans {machine between state : Machine} {notes later : List Notification}
    (h : machine.Conserves between notes) (hlater : between.Conserves state later) :
    machine.Conserves state (notes ++ later) := by
  intro call
  have hfirst := h call
  have hsecond := hlater call
  rw [List.map_append, List.count_append]
  omega

/-- Calls are conserved if those at semaphores are and latches stay as they are. -/
theorem conserves_semaphores {machine state : Machine} {notes : List Notification}
    (hlatches : state.latches = machine.latches)
    (h : ∀ call, parkedIn Semaphore.parkedCalls state.semaphores.byName call +
        (notes.map Notification.call).count call =
      parkedIn Semaphore.parkedCalls machine.semaphores.byName call) :
    machine.Conserves state notes := by
  intro call
  have hcall := h call
  rw [parkedCount, parkedCount, hlatches]
  omega

/-- Calls are conserved if those at latches are and semaphores stay as they are. -/
theorem conserves_latches {machine state : Machine} {notes : List Notification}
    (hsemaphores : state.semaphores = machine.semaphores)
    (h : ∀ call, parkedIn Latch.parkedCalls state.latches.byName call +
        (notes.map Notification.call).count call =
      parkedIn Latch.parkedCalls machine.latches.byName call) :
    machine.Conserves state notes := by
  intro call
  have hcall := h call
  rw [parkedCount, parkedCount, hsemaphores]
  omega

/-- If every semaphore and every latch keeps its parked calls or answers them, so does the
    replica. -/
theorem conserves_stepAll {f : Semaphore → Semaphore × List Notification}
    {g : String → Latch → Latch × List Notification}
    (hf : ∀ semaphore, ((f semaphore).1.parkedCalls ++ (f semaphore).2.map Notification.call).Perm
      semaphore.parkedCalls)
    (hg : ∀ name latch, ((g name latch).1.parkedCalls ++
      (g name latch).2.map Notification.call).Perm latch.parkedCalls)
    {machine state : Machine} (hsemaphores : state.semaphores = (machine.semaphores.stepAll f).1)
    (hlatches : state.latches = (machine.latches.stepAll g).1) :
    machine.Conserves state
      ((machine.semaphores.stepAll f).2 ++ (machine.latches.stepAll g).2) := by
  intro call
  have hatSemaphores := parkedIn_stepAll Semaphore.parkedCalls (f := fun _ => f)
    (fun _ semaphore => hf semaphore) machine.semaphores.byName call
  have hatLatches := parkedIn_stepAll Latch.parkedCalls hg machine.latches.byName call
  have hnotes : (machine.semaphores.stepAll f).2 =
      machine.semaphores.byName.entries.flatMap fun e => (f e.2).2 :=
    List.flatMap_map _ _ _
  rw [parkedCount, hsemaphores, hlatches, List.map_append, List.count_append, hnotes, parkedCount]
  simp only [Semaphores.stepAll, Latches.stepAll]
  omega

/-- Closing sessions conserves the parked calls, by induction on the sessions. -/
theorem closeAll_conserves (machine : Machine) (closed : List SessionId) :
    machine.Conserves (machine.closeAll closed).1 (machine.closeAll closed).2 := by
  induction closed generalizing machine with
  | nil => exact conserves_refl machine
  | cons session rest ih =>
    exact (conserves_stepAll (fun semaphore => semaphore.closeSession_parkedCalls session)
      (fun name latch => latch.releaseOwner_parkedCalls name session) rfl rfl).trans (ih _)

/-- Timeouts conserve the parked calls, by induction on the tokens. -/
theorem expireWaitKeys_conserves (machine : Machine) (uids : List InvocationUid) :
    machine.Conserves (machine.expireWaitKeys uids).1 (machine.expireWaitKeys uids).2 := by
  induction uids generalizing machine with
  | nil => exact conserves_refl machine
  | cons uid rest ih =>
    exact (conserves_stepAll (fun semaphore => semaphore.expireWaiter_parkedCalls uid)
      (fun _ latch => latch.expireWaiter_parkedCalls uid) rfl rfl).trans (ih _)

/-- A destroyed object answers all calls that are parked at it. -/
theorem destroy_conserves (machine : Machine) (kind : ObjectKind) (name : String) :
    machine.Conserves (machine.destroy kind name).state (machine.destroy kind name).notes := by
  cases kind with
  | atomicRef => exact conserves_refl machine
  | semaphore =>
    simp only [destroy, Semaphores.destroy]
    split
    · exact conserves_refl machine
    · rename_i semaphore hsemaphore
      refine conserves_semaphores rfl fun call => ?_
      rw [AcquireWaiter.map_call_answer]
      exact parkedIn_erase Semaphore.parkedCalls hsemaphore call
  | latch =>
    simp only [destroy, Latches.destroy]
    split
    · exact conserves_refl machine
    · rename_i latch hlatch
      refine conserves_latches rfl fun call => ?_
      rw [AwaitWaiter.map_call_answer]
      exact parkedIn_erase Latch.parkedCalls hlatch call

theorem conserves_refs (machine : Machine) (name : String) (op : AtomicRefOp) :
    machine.Conserves { machine with refs := (machine.refs.apply name op).state }
      (machine.refs.apply name op).notes := by
  have hnotes : (machine.refs.apply name op).notes = [] := by
    cases op <;> rfl
  rw [hnotes]
  exact conserves_refl machine

/-- What a step does to the parked calls: it conserves them, or it adds its caller, which is told to
    wait, and answers nobody. -/
inductive Parking (machine : Machine) (operation : Operation) (invocation : Invocation)
    (step : Step Machine Applied) : Prop
  | conserved (h : machine.Conserves step.state step.notes)
  | parked {uid : InvocationUid} (huid : invocation.uid = some uid)
      (hkind : operation.kind = SemaphoreOp.acquireKind ∨ operation.kind = LatchOp.awaitKind)
      (hanswer : step.answer = .waiting) (hnotes : step.notes = [])
      (h : ∀ call, step.state.parkedCount call = machine.parkedCount call +
        [(⟨operation.kind, uid, invocation.session⟩ : ParkedCall)].count call)

/-- An operation conserves the parked calls or adds its caller. -/
theorem execute_parking (machine : Machine) (operation : Operation) (invocation : Invocation)
    (now : Millis) :
    machine.Parking operation invocation (machine.execute operation invocation now) := by
  cases operation with
  | session op =>
    refine .conserved ?_
    cases op with
    | create endpoint => exact conserves_refl machine
    | generateThreadId => exact conserves_refl machine
    | heartbeat session =>
      simp only [execute, applySession]
      split <;> exact conserves_refl machine
    | close session =>
      rw [execute, applySession_close]
      exact closeAll_conserves machine _
  | atomicRef name op => exact .conserved (conserves_refs machine name op)
  | destroy kind name => exact .conserved (destroy_conserves machine kind name)
  | expireSessions sessions =>
    refine .conserved ?_
    simp only [execute, expireSessions_eq]
    exact closeAll_conserves machine _
  | expireWaitKeys uids => exact .conserved (expireWaitKeys_conserves machine uids)
  | semaphore name op =>
    simp only [execute, Semaphores.apply]
    split
    · exact .conserved (conserves_refl machine)
    · rcases Semaphore.step_parkedCalls machine.semaphores.overdraft
          (machine.semaphores.byName.getD name {}) op invocation now with
        hkept | ⟨uid, huid, hkind, hanswer, hnotes, hparked⟩
      · exact .conserved (conserves_semaphores rfl
          (parkedIn_insert_of_perm Semaphore.parkedCalls _ name rfl hkept))
      · refine .parked huid (.inl hkind) hanswer hnotes fun call => ?_
        have hadded := parkedIn_insert_of_append Semaphore.parkedCalls _ name rfl hparked call
        simp only [parkedCount, Semaphores.put, Operation.kind, hkind]
        omega
  | latch name op =>
    cases hread : op.isReadOnly with
    | true =>
      simp only [execute, Latches.apply_of_readOnly _ _ hread]
      exact .conserved (conserves_refl machine)
    | false =>
      simp only [execute, Latches.apply_eq _ _ hread]
      rcases Latch.call_parkedCalls (machine.latches.latch name) op invocation now with
        hkept | ⟨uid, huid, hkind, hanswer, hnotes, hparked⟩
      · exact .conserved (conserves_latches rfl
          (parkedIn_insert_of_perm Latch.parkedCalls _ name rfl hkept))
      · refine .parked huid (.inr hkind) hanswer hnotes fun call => ?_
        have hadded := parkedIn_insert_of_append Latch.parkedCalls _ name rfl hparked call
        simp only [parkedCount, Latches.put, Operation.kind, hkind]
        omega

/-- A command conserves the parked calls or adds its caller. -/
theorem apply_parking (machine : Machine) (command : Command) :
    machine.Parking command.operation command.invocation (machine.apply command) := by
  cases hexecutes : machine.executes command with
  | false =>
    obtain ⟨result, happly, -⟩ := apply_of_not_executes hexecutes
    rw [happly]
    exact .conserved (conserves_refl machine)
  | true =>
    have hexecute := execute_parking machine command.operation command.invocation command.timestamp
    obtain ⟨cache, hstate⟩ := apply_state_of_executes hexecutes
    have hcount : ∀ call, (machine.apply command).state.parkedCount call =
        (machine.execute command.operation command.invocation
          command.timestamp).state.parkedCount call := by
      intro call
      rw [hstate]
      rfl
    have hfields := apply_of_executes hexecutes
    cases hexecute with
    | conserved h =>
      refine .conserved fun call => ?_
      rw [hcount, hfields]
      exact h call
    | parked huid hkind hanswer hnotes h =>
      refine .parked huid hkind (by rw [hfields]; exact hanswer) (by rw [hfields]; exact hnotes) ?_
      intro call
      rw [hcount]
      exact h call

end Machine

end Quorum
