import Quorum.Proofs.Machine.Events
import Quorum.Proofs.SortedMap

namespace Quorum

/-- A step that answers with a failure keeps the state and answers nobody else. -/
def Step.FailsIdly {σ : Type} (step : Step σ Applied) (before : σ) : Prop :=
  ∀ failure, step.answer = .failed failure → step.state = before ∧ step.notes = []

namespace Semaphores

/-- A call of a semaphore that fails leaves it as it is. -/
theorem step_failsIdly (overdraft : Bool) (semaphore : Semaphore) (op : SemaphoreOp)
    (invocation : Invocation) (now : Millis) :
    (step overdraft semaphore op invocation now).FailsIdly semaphore := by
  intro failure h
  cases op with
  | acquire permits timeout =>
    simp only [step] at h ⊢
    have houtcome := semaphore.acquire_outcome invocation permits timeout now
    generalize semaphore.acquire invocation permits timeout now = outcome at houtcome h
    cases houtcome with
    | failed other => exact ⟨rfl, rfl⟩
    | _ => cases h
  | release permits =>
    simp only [step] at h ⊢
    have houtcome := semaphore.release_outcome invocation permits
    generalize semaphore.release invocation permits = outcome at houtcome h
    cases houtcome with
    | refused other => exact ⟨rfl, rfl⟩
    | _ => cases h
  | reduce permits =>
    simp only [step] at h ⊢
    split at h
    · cases h
    · exact ⟨rfl, rfl⟩
  | _ => cases h

end Semaphores

namespace Latch

/-- A call of a latch that fails leaves it as it is. -/
theorem call_failsIdly (latch : Latch) (op : LatchOp) (invocation : Invocation) (now : Millis) :
    (latch.call op invocation now).FailsIdly latch := by
  intro failure h
  cases op with
  | trySetCount count =>
    simp only [call] at h ⊢
    split at h
    · cases h
    · exact ⟨rfl, rfl⟩
  | await timeout =>
    simp only [call] at h ⊢
    have houtcome := latch.await_outcome invocation timeout now
    generalize latch.await invocation timeout now = outcome at houtcome h
    cases houtcome with
    | failed other => exact ⟨rfl, rfl⟩
    | _ => cases h
  | _ => cases h

/-- An open latch takes any count. -/
theorem trySetCount_of_open {latch : Latch} (hopen : latch.count = 0) (count : UInt32) :
    ∃ started, latch.trySetCount count = .ok started := by
  unfold trySetCount
  rw [if_neg (not_not_intro hopen)]
  split <;> exact ⟨_, rfl⟩

/-- An open latch fails no call, and so a new one does not. -/
theorem answer_ne_failed_of_open {latch : Latch} (hopen : latch.count = 0) (op : LatchOp)
    (invocation : Invocation) (now : Millis) (failure : Failure) :
    (latch.call op invocation now).answer ≠ .failed failure := by
  intro h
  cases op with
  | trySetCount count =>
    obtain ⟨started, hstarted⟩ := trySetCount_of_open hopen count
    simp only [call, hstarted] at h
    cases h
  | await timeout =>
    simp only [call, await, hopen, if_true] at h
    cases h
  | _ => cases h

end Latch

/-- A call of a reference through the log does not fail. -/
theorem AtomicRefs.answer_ne_failed (refs : AtomicRefs) (name : String) (op : AtomicRefOp)
    (failure : Failure) : (refs.apply name op).answer ≠ .failed failure := by
  intro h
  cases op <;> cases h

/-- A call of a named latch that fails leaves all latches as they are. -/
theorem Latches.apply_failsIdly (latches : Latches) (name : String) (op : LatchOp)
    (invocation : Invocation) (now : Millis) :
    (latches.apply name op invocation now).FailsIdly latches := by
  intro failure h
  cases hread : op.isReadOnly with
  | true =>
    rw [apply_of_readOnly latches name hread]
    exact ⟨rfl, rfl⟩
  | false =>
    rw [apply_eq latches name hread] at h ⊢
    obtain ⟨hstate, hnotes⟩ := (latches.latch name).call_failsIdly op invocation now failure h
    refine ⟨?_, hnotes⟩
    -- The latch was there: a missing one is open.
    cases hget : latches.byName.get? name with
    | none =>
      have hopen : (latches.latch name).count = 0 := by
        rw [latch, SortedMap.getD, hget]
        rfl
      exact absurd h (Latch.answer_ne_failed_of_open hopen op invocation now failure)
    | some found =>
      have hfound : latches.latch name = found := by
        rw [latch, SortedMap.getD, hget, Option.getD_some]
      simp only [hstate]
      rw [hfound, put, SortedMap.insert_of_get? hget]

/-- A failed call at a semaphore leaves the semaphores as they are, or brings a missing one into
    being. -/
theorem Semaphores.apply_of_failed {semaphores : Semaphores} {name : String} {op : SemaphoreOp}
    {invocation : Invocation} {now : Millis} {failure : Failure}
    (h : (semaphores.apply name op invocation now).answer = .failed failure) :
    (semaphores.apply name op invocation now).notes = [] ∧
      ((semaphores.apply name op invocation now).state = semaphores ∨
        semaphores.get? name = none ∧
          (semaphores.apply name op invocation now).state = semaphores.put name {}) := by
  unfold apply at h ⊢
  split at h
  · rename_i hread
    rw [if_pos hread]
    exact ⟨rfl, .inl rfl⟩
  · rename_i hwrite
    rw [if_neg hwrite]
    obtain ⟨hstate, hnotes⟩ := step_failsIdly semaphores.overdraft _ op invocation now failure h
    refine ⟨hnotes, ?_⟩
    simp only [hstate]
    cases hget : semaphores.get? name with
    | none =>
      have hmissing : semaphores.byName.get? name = none := hget
      rw [SortedMap.getD, hmissing, Option.getD_none]
      exact .inr ⟨rfl, rfl⟩
    | some found =>
      have hfound : semaphores.byName.get? name = some found := hget
      rw [SortedMap.getD, hfound, Option.getD_some, put, SortedMap.insert_of_get? hfound]
      exact .inl rfl

namespace Machine

/-- The replica with a new semaphore. -/
def withSemaphore (machine : Machine) (name : String) : Machine :=
  { machine with semaphores := machine.semaphores.put name {} }

/-- A new semaphore reads like a missing one. -/
theorem query_withSemaphore {machine : Machine} {name : String}
    (h : machine.semaphores.get? name = none) (operation : Operation) :
    (machine.withSemaphore name).query operation = machine.query operation := by
  have hsame : ∀ other op, (machine.semaphores.put name {}).query other op =
      machine.semaphores.query other op := by
    intro other op
    cases op with
    | availablePermits =>
      simp only [Semaphores.query, Semaphores.get?_put]
      split
      · rename_i heq
        rw [← heq, h]
        rfl
      · rfl
    | _ => rfl
  cases operation with
  | semaphore other op => simp only [query, withSemaphore, hsame]
  | _ => rfl

/-- An operation that fails answers nobody, and at most creates the semaphore that it names. -/
theorem execute_of_failed {machine : Machine} {operation : Operation} {invocation : Invocation}
    {now : Millis} {failure : Failure}
    (h : (machine.execute operation invocation now).answer = .failed failure) :
    (machine.execute operation invocation now).notes = [] ∧
      ((machine.execute operation invocation now).state = machine ∨
        ∃ name op, operation = .semaphore name op ∧ machine.semaphores.get? name = none ∧
          (machine.execute operation invocation now).state = machine.withSemaphore name) := by
  cases operation with
  | session op =>
    cases op with
    | heartbeat session =>
      simp only [execute, applySession] at h ⊢
      split at h
      · cases h
      · exact ⟨rfl, .inl rfl⟩
    | close session =>
      rw [execute, applySession_close] at h
      cases h
    | _ => cases h
  | atomicRef name op => exact absurd h (machine.refs.answer_ne_failed name op failure)
  | semaphore name op =>
    obtain ⟨hnotes, hstate⟩ := Semaphores.apply_of_failed h
    refine ⟨hnotes, ?_⟩
    simp only [execute]
    rcases hstate with hsame | ⟨hmissing, hnew⟩
    · rw [hsame]
      exact .inl rfl
    · rw [hnew]
      exact .inr ⟨name, op, rfl, hmissing, rfl⟩
  | latch name op =>
    obtain ⟨hstate, hnotes⟩ := machine.latches.apply_failsIdly name op invocation now failure h
    refine ⟨hnotes, .inl ?_⟩
    simp only [execute, hstate]
  | _ => cases h

/-- A step that fails and answers nobody records nothing. -/
theorem rememberStep_of_failed {invocation : Invocation} {operation : Operation}
    {step : Step Machine Applied} {failure : Failure} (hanswer : step.answer = .failed failure)
    (hnotes : step.notes = []) : rememberStep invocation operation step = step.state := by
  unfold rememberStep
  rw [hanswer, hnotes]
  cases recordKey invocation operation <;> rfl

/-- A failed call changes nothing that a client can read, at any replica: it answers no parked call,
    and the replica (the sessions with the counters of their ids, the recorded answers, every
    object) is exactly as before, but that the semaphore that the call named exists from then on, in
    its first state, if it did not. So every query is answered as before. -/
theorem failed_unchanged (machine : Machine) (command : Command) (failure : Failure)
    (h : (machine.apply command).answer = .failed failure) :
    let step := machine.apply command
    step.notes = [] ∧
      (step.state = machine ∨
        ∃ name op, command.operation = .semaphore name op ∧ machine.semaphores.get? name = none ∧
          step.state = { machine with semaphores := machine.semaphores.put name {} }) ∧
      ∀ operation, step.state.query operation = machine.query operation := by
  intro step
  have htrace : step.notes = [] ∧ (step.state = machine ∨
      ∃ name op, command.operation = .semaphore name op ∧ machine.semaphores.get? name = none ∧
        step.state = machine.withSemaphore name) := by
    cases hexecutes : machine.executes command with
    | false =>
      obtain ⟨result, happly, -⟩ := apply_of_not_executes hexecutes
      exact ⟨congrArg Step.notes happly, .inl (congrArg Step.state happly)⟩
    | true =>
      have happly := apply_of_executes hexecutes
      have hfailed := (congrArg Step.answer happly).symm.trans h
      obtain ⟨hnotes, hstate⟩ := execute_of_failed hfailed
      have hsame : step.state =
          (machine.execute command.operation command.invocation command.timestamp).state :=
        (congrArg Step.state happly).trans (rememberStep_of_failed hfailed hnotes)
      exact ⟨(congrArg Step.notes happly).trans hnotes, hsame ▸ hstate⟩
  obtain ⟨hnotes, hstate⟩ := htrace
  refine ⟨hnotes, hstate, fun operation => ?_⟩
  rcases hstate with hsame | ⟨name, op, -, hmissing, hnew⟩
  · rw [hsame]
  · rw [hnew]
    exact query_withSemaphore hmissing operation

/-- A session that holds a permit and waits for another one gives back one of a semaphore that does
    not exist. -/
theorem missing_semaphore_release_unchanged :
    let machine := run { sessionTtl := 10000, dedupCapacity := 4, overdraft := false }
      [{ operation := .session (.create "a") }, { operation := .semaphore "permit" (.init 1) },
        { invocation := { session := some 1, uid := some (.ofNat 1) }
          operation := .semaphore "permit" (.acquire 1 none) },
        { invocation := { session := some 1, uid := some (.ofNat 2) }
          operation := .semaphore "permit" (.acquire 1 none) }]
    let command : Command :=
      { invocation := { session := some 1, uid := some (.ofNat 3) }
        operation := .semaphore "spare" (.release 1) }
    (machine.apply command).answer =
        .failed (.illegalState "session 1 thread 0 holds 0 permits, cannot release 1") ∧
      (machine.apply command).state.semaphores.get? "spare" = some {} ∧
      (machine.apply command).state.semaphores.get? "permit" = machine.semaphores.get? "permit" ∧
      ∀ operation, (machine.apply command).state.query operation = machine.query operation := by
  intro machine command
  have hfailed : (machine.apply command).answer =
      .failed (.illegalState "session 1 thread 0 holds 0 permits, cannot release 1") := by
    decide +kernel
  obtain ⟨-, -, hqueries⟩ := failed_unchanged machine command _ hfailed
  exact ⟨hfailed, by decide +kernel, by decide +kernel, hqueries⟩

end Machine

end Quorum
