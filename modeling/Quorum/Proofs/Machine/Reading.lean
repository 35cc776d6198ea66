import Quorum.Proofs.Latch.Reaction
import Quorum.Proofs.Machine.Run
import Quorum.Query

namespace Quorum

/-- References answer the queries that only read, and refuse the others. -/
theorem AtomicRefs.query_eq_ok (refs : AtomicRefs) (name : String) (op : AtomicRefOp) :
    (∃ value, refs.query name op = .ok value) ↔ op.isReadOnly = true := by
  cases op <;> simp [query, AtomicRefOp.isReadOnly]

/-- Semaphores answer the queries that only read, and refuse the others. -/
theorem Semaphores.query_eq_ok (semaphores : Semaphores) (name : String) (op : SemaphoreOp) :
    (∃ value, semaphores.query name op = .ok value) ↔ op.isReadOnly = true := by
  cases op <;> simp [query, SemaphoreOp.isReadOnly]

/-- Latches answer the queries that only read, and refuse the others. -/
theorem Latches.query_eq_ok (latches : Latches) (name : String) (op : LatchOp) :
    (∃ value, latches.query name op = .ok value) ↔ op.isReadOnly = true := by
  cases op <;> simp [query, LatchOp.isReadOnly]

/-- A read through the log answers as a query and changes no reference. -/
theorem AtomicRefs.apply_of_readOnly (refs : AtomicRefs) (name : String) {op : AtomicRefOp}
    (h : op.isReadOnly = true) :
    refs.apply name op = { answer := .done (refs.query name op), state := refs } := by
  cases op with
  | get => rfl
  | contains value => rfl
  | _ => cases h

/-- A read through the log answers as a query and changes no semaphore. -/
theorem Semaphores.apply_of_readOnly (semaphores : Semaphores) (name : String) {op : SemaphoreOp}
    (h : op.isReadOnly = true) (invocation : Invocation) (now : Millis) :
    semaphores.apply name op invocation now =
      { answer := .done (semaphores.query name op), state := semaphores } :=
  if_pos h

/-- A member admits a local query exactly if it only reads. -/
theorem QueryPolicy.admit_local (operation : Operation) (isLeader : Bool)
    (leader : Option MemberId) :
    QueryPolicy.local.admit operation isLeader leader = .ok () ↔ operation.isReadOnly = true := by
  unfold QueryPolicy.admit
  cases hread : operation.isReadOnly <;> simp

namespace Machine

/-- A replica answers the queries that only read, and refuses the others. -/
theorem query_eq_ok (machine : Machine) (operation : Operation) :
    (∃ value, machine.query operation = .ok value) ↔ operation.isReadOnly = true := by
  cases hread : operation.isReadOnly with
  | false => simp [query, hread]
  | true =>
    refine iff_of_true ?_ rfl
    simp only [query, hread, if_true]
    cases operation with
    | atomicRef name op => exact (machine.refs.query_eq_ok name op).mpr hread
    | semaphore name op => exact (machine.semaphores.query_eq_ok name op).mpr hread
    | latch name op => exact (machine.latches.query_eq_ok name op).mpr hread
    | _ => cases hread

/-- An operation that only reads answers as a query and changes nothing. -/
theorem execute_of_readOnly (machine : Machine) {operation : Operation}
    (h : operation.isReadOnly = true) (invocation : Invocation) (now : Millis) :
    machine.execute operation invocation now =
      { answer := .done (machine.query operation), state := machine } := by
  cases operation with
  | atomicRef name op =>
    simp only [execute, AtomicRefs.apply_of_readOnly _ _ h, query, h, if_true]
  | semaphore name op =>
    simp only [execute, Semaphores.apply_of_readOnly _ _ h, query, h, if_true]
  | latch name op =>
    simp only [execute, Latches.apply_of_readOnly _ _ h, query, h, if_true]
  | _ => cases h

/-- Reads are not recorded, not even under a token whose call is on record. -/
theorem recordKey_of_readOnly {operation : Operation} (h : operation.isReadOnly = true)
    (invocation : Invocation) : recordKey invocation operation = none := by
  unfold recordKey
  split
  · rw [h, if_pos rfl]
  · rfl

/-- A command that only reads answers as a query and changes nothing. -/
theorem apply_of_readOnly (machine : Machine) {operation : Operation}
    (h : operation.isReadOnly = true) {invocation : Invocation}
    (hopen : ∀ session, invocation.session = some session →
      machine.sessions.isActive session = true) (timestamp : Millis) :
    machine.apply { invocation, operation, timestamp } =
      { answer := .done (machine.query operation), state := machine } := by
  have hkey := recordKey_of_readOnly h invocation
  have hnew : machine.recorded invocation operation = none := by
    rw [recorded, hkey]
    rfl
  have hexecutes : machine.executes { invocation, operation, timestamp } = true :=
    executes_iff.mpr ⟨hopen, hnew⟩
  rw [apply_of_executes hexecutes]
  simp only [execute_of_readOnly machine h, rememberStep, hkey, List.foldl_nil]

/-- Reading through the log and reading from a replica agree, at every replica. A query of an
    operation is served exactly if the operation is classified as read-only, and exactly then any
    member admits it as a local query. Such an operation can also go through the log, under no
    session or an open one and whatever its token; it is answered with the query's result, answers
    no parked call and leaves the whole replica as it is, so that no object comes into being by
    being read. -/
theorem read_through_log (machine : Machine) (operation : Operation) :
    ((∃ value, machine.query operation = .ok value) ↔ operation.isReadOnly = true) ∧
      (∀ isLeader leader, QueryPolicy.local.admit operation isLeader leader = .ok () ↔
        operation.isReadOnly = true) ∧
      (operation.isReadOnly = true → ∀ (invocation : Invocation) (timestamp : Millis),
        (∀ session, invocation.session = some session →
          machine.sessions.isActive session = true) →
        machine.apply { invocation, operation, timestamp } =
          { answer := .done (machine.query operation), state := machine, notes := [] }) :=
  ⟨machine.query_eq_ok operation, QueryPolicy.admit_local operation,
    fun h _ timestamp hopen => machine.apply_of_readOnly h hopen timestamp⟩

/-- A session reads a missing semaphore under the token of a call that it made before. -/
theorem missing_semaphore_read_through_log :
    let machine := run { sessionTtl := 10000, dedupCapacity := 4, overdraft := false }
      [{ operation := .session (.create "a") },
        { invocation := { session := some 1, uid := some (.ofNat 7) }
          operation := .semaphore "permit" (.init 3) }]
    let operation : Operation := .semaphore "spare" .availablePermits
    machine.query operation = .ok (.count 0) ∧
      machine.apply
          { invocation := { session := some 1, uid := some (.ofNat 7) }, operation, timestamp := 5 } =
        { answer := .ok (.count 0), state := machine, notes := [] } := by
  intro machine operation
  have hquery : machine.query operation = .ok (.count 0) := by decide +kernel
  have hopen : ∀ session, some 1 = some session → machine.sessions.isActive session = true := by
    intro session heq
    cases heq
    decide +kernel
  obtain ⟨-, -, hthrough⟩ := read_through_log machine operation
  refine ⟨hquery, ?_⟩
  rw [hthrough rfl { session := some 1, uid := some (.ofNat 7) } 5 hopen, hquery]

end Machine

end Quorum
