import Mathlib.Data.List.Nodup
import Quorum.Proofs.Machine.Parked
import Quorum.Proofs.Machine.Record

namespace Quorum

def SessionCall.parked (call : SessionCall) : ParkedCall :=
  ⟨call.key.kind, call.key.uid, some call.session⟩

/-- A command makes a call if it names a session and a token and is more than a read. -/
theorem Command.call?_eq_some_iff {command : Command} {call : SessionCall} :
    command.call? = some call ↔
      command.invocation.session = some call.session ∧
      command.invocation.uid = some call.key.uid ∧
      command.operation.kind = call.key.kind ∧ command.operation.isReadOnly = false := by
  obtain ⟨session, kind, uid⟩ := call
  unfold Command.call? Machine.recordKey
  cases command.invocation.session with
  | none => simp
  | some session' =>
    cases command.invocation.uid with
    | none => simp
    | some uid' =>
      cases command.operation.isReadOnly with
      | true => simp
      | false =>
        simp
        tauto

/-- An answer that a notification gives is one to the call it names. -/
theorem Notification.answer?_eq_some {note : Notification} {call : SessionCall} {value : Value}
    (h : note.answer? = some (call, value)) : note.call = call.parked := by
  unfold Notification.answer? at h
  split at h
  · rename_i session result hsession hresult
    obtain ⟨rfl, rfl⟩ := Prod.mk.inj (Option.some.inj h)
    rw [Notification.call, hsession]
    rfl
  · cases h

namespace Operation

/-- Only acquires are of the kind of an acquire. -/
theorem eq_acquire_of_kind {operation : Operation} (h : operation.kind = SemaphoreOp.acquireKind) :
    ∃ name permits timeout, operation = .semaphore name (.acquire permits timeout) := by
  cases operation with
  | semaphore name op =>
    cases op with
    | acquire permits timeout => exact ⟨name, permits, timeout, rfl⟩
    | _ => simp [kind, SemaphoreOp.kind, SemaphoreOp.acquireKind] at h
  | session op => cases op <;> simp [kind, SessionOp.kind, SemaphoreOp.acquireKind] at h
  | atomicRef name op => cases op <;> simp [kind, AtomicRefOp.kind, SemaphoreOp.acquireKind] at h
  | latch name op =>
    cases op <;> simp [kind, LatchOp.kind, LatchOp.awaitKind, SemaphoreOp.acquireKind] at h
  | _ => simp [kind, SemaphoreOp.acquireKind] at h

/-- Only awaits are of the kind of an await. -/
theorem eq_await_of_kind {operation : Operation} (h : operation.kind = LatchOp.awaitKind) :
    ∃ name timeout, operation = .latch name (.await timeout) := by
  cases operation with
  | latch name op =>
    cases op with
    | await timeout => exact ⟨name, timeout, rfl⟩
    | _ => simp [kind, LatchOp.kind, LatchOp.awaitKind] at h
  | session op => cases op <;> simp [kind, SessionOp.kind, LatchOp.awaitKind] at h
  | atomicRef name op => cases op <;> simp [kind, AtomicRefOp.kind, LatchOp.awaitKind] at h
  | semaphore name op =>
    cases op <;> simp [kind, SemaphoreOp.kind, SemaphoreOp.acquireKind, LatchOp.awaitKind] at h
  | _ => simp [kind, LatchOp.awaitKind] at h

/-- Whether calls of the operation's kind can be parked. -/
def Parks (operation : Operation) : Prop :=
  operation.kind = SemaphoreOp.acquireKind ∨ operation.kind = LatchOp.awaitKind

/-- An operation that may park is no read. -/
theorem Parks.not_readOnly {operation : Operation} (h : operation.Parks) :
    operation.isReadOnly = false := by
  rcases h with hacquire | hawait
  · obtain ⟨name, permits, timeout, rfl⟩ := eq_acquire_of_kind hacquire
    rfl
  · obtain ⟨name, timeout, rfl⟩ := eq_await_of_kind hawait
    rfl

end Operation

section Counting

variable {α : Type} {calls : α → List ParkedCall}

/-- A call that is counted among the parked ones is parked at some object. -/
theorem exists_of_parkedIn_pos {objects : SortedMap String α} {call : ParkedCall}
    (h : 0 < parkedIn calls objects call) :
    ∃ name object, objects.get? name = some object ∧ call ∈ calls object := by
  by_contra hnone
  push Not at hnone
  have hzero : parkedIn calls objects call = 0 :=
    (objects.total_eq_zero_iff _).mpr fun name object hget =>
      List.count_eq_zero.mpr (hnone name object hget)
  omega

/-- A call that is parked at one object only, and there at most once, is parked at most once. -/
theorem parkedIn_le_one {objects : SortedMap String α} {call : ParkedCall} {name : String}
    (hname : ∀ other object, objects.get? other = some object → call ∈ calls object →
      other = name)
    (hnodup : ∀ object, objects.get? name = some object → (calls object).Nodup) :
    parkedIn calls objects call ≤ 1 := by
  have honly : parkedIn calls objects call =
      objects.total fun other object => if other = name then (calls object).count call else 0 := by
    refine objects.total_congr fun other object hget => ?_
    by_cases heq : other = name
    · rw [if_pos heq]
    · rw [if_neg heq]
      exact List.count_eq_zero.mpr fun hmem => heq (hname other object hget hmem)
  rw [honly, SortedMap.total_single objects (fun _ object => (calls object).count call) name]
  cases hget : objects.get? name with
  | none => exact Nat.zero_le 1
  | some object => exact List.nodup_iff_count_le_one.mp (hnodup object hget) call

end Counting

theorem Semaphore.Orderly.nodup_parkedCalls {semaphore : Semaphore} (h : semaphore.Orderly) :
    semaphore.parkedCalls.Nodup := by
  refine List.Nodup.of_map ParkedCall.uid ?_
  rw [parkedCalls, List.map_map]
  exact h.distinct

theorem Latch.Orderly.nodup_parkedCalls {latch : Latch} (h : latch.Orderly) :
    latch.parkedCalls.Nodup := by
  refine List.Nodup.of_map ParkedCall.uid ?_
  rw [parkedCalls, List.map_map]
  exact h.distinct

namespace Machine

/-- Only acquires and awaits are parked. -/
theorem kind_of_parkedCount_pos {machine : Machine} {call : ParkedCall}
    (h : 0 < machine.parkedCount call) :
    call.kind = SemaphoreOp.acquireKind ∨ call.kind = LatchOp.awaitKind := by
  rcases Nat.add_pos_iff_pos_or_pos.mp h with hsemaphores | hlatches
  · obtain ⟨name, semaphore, -, hmem⟩ := exists_of_parkedIn_pos hsemaphores
    exact .inl (semaphore.kind_of_parked call hmem)
  · obtain ⟨name, latch, -, hmem⟩ := exists_of_parkedIn_pos hlatches
    exact .inr (latch.kind_of_parked call hmem)

/-- A notification answers a call that was parked before. -/
theorem parkedCount_pos_of_note {machine : Machine} {command : Command} {call : ParkedCall}
    (h : call ∈ (machine.apply command).notes.map Notification.call) :
    0 < machine.parkedCount call := by
  have hpos := List.count_pos_iff.mpr h
  cases machine.apply_parking command with
  | conserved hconserved =>
    have hcall := hconserved call
    omega
  | parked huid hkind hanswer hnotes hcount =>
    rw [hnotes] at h
    cases h

/-- An operation that can park its caller answers no parked call. -/
theorem notes_of_parks {machine : Machine} {command : Command}
    (h : command.operation.Parks) : (machine.apply command).notes = [] := by
  cases hexecutes : machine.executes command with
  | false =>
    obtain ⟨result, happly, -⟩ := apply_of_not_executes hexecutes
    rw [happly]
  | true =>
    rw [apply_of_executes hexecutes]
    rcases h with hacquire | hawait
    · obtain ⟨name, permits, timeout, hoperation⟩ := Operation.eq_acquire_of_kind hacquire
      rw [hoperation]
      exact Semaphore.acquire_notes _ command.invocation permits timeout command.timestamp
    · obtain ⟨name, timeout, hoperation⟩ := Operation.eq_await_of_kind hawait
      rw [hoperation]
      exact Latch.await_notes _ command.invocation timeout command.timestamp

/-- A step that answers its own caller answers no parked call of the same name. -/
theorem not_noted_of_own (machine : Machine) {command : Command} {call : SessionCall}
    (hcall : command.call? = some call) :
    call.parked ∉ (machine.apply command).notes.map Notification.call := by
  intro hmem
  obtain ⟨-, -, hkind, -⟩ := Command.call?_eq_some_iff.mp hcall
  have hparks : command.operation.Parks := by
    unfold Operation.Parks
    rw [hkind]
    exact kind_of_parkedCount_pos (parkedCount_pos_of_note hmem)
  rw [notes_of_parks hparks] at hmem
  cases hmem

/-- A call is answered at most as often as it is notified. -/
theorem count_answers_le (notes : List Notification) (call : SessionCall) :
    ((notes.filterMap Notification.answer?).map (·.1)).count call ≤
      (notes.map Notification.call).count call.parked := by
  induction notes with
  | nil => exact Nat.le_refl 0
  | cons note rest ih =>
    rw [List.filterMap_cons, List.map_cons]
    cases hanswer : note.answer? with
    | none => exact Nat.le_trans ih List.count_le_count_cons
    | some answer =>
      have hnote : note.call = answer.1.parked := Notification.answer?_eq_some hanswer
      simp only [List.map_cons, hnote, List.count_cons, beq_iff_eq]
      by_cases heq : answer.1 = call
      · simp only [heq, if_true]
        omega
      · simp only [heq, if_false]
        omega

end Machine

end Quorum
