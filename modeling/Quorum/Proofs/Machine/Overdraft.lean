import Quorum.Proofs.Machine.Permits

namespace Quorum

namespace Semaphore

/-- A semaphore that reacts to an event, with its ledger and what was written off. -/
def coveredReact (overdraft : Bool) (entry : (Semaphore × Ledger) × Nat)
    (event : ObjectEvent SemaphoreOp) : ((Semaphore × Ledger) × Nat) × List Notification :=
  (((auditedReact overdraft entry.1 event).1, entry.2 + entry.1.1.writeOff event),
    (auditedReact overdraft entry.1 event).2)

/-- The semaphore that events leave, with the ledger of its life since it was last created and what
    drains wrote off in that life. -/
def auditCover (overdraft : Bool) (events : List (ObjectEvent SemaphoreOp)) :
    Option ((Semaphore × Ledger) × Nat) :=
  events.foldl (ObjectEvent.follow (({}, {}), 0) (coveredReact overdraft)) none

/-- The audit with a cover follows the same semaphore as the one without. -/
theorem map_auditCover (overdraft : Bool) (events : List (ObjectEvent SemaphoreOp)) :
    (auditCover overdraft events).map (·.1) = audit overdraft none events :=
  ObjectEvent.map_foldl_follow (fun _ _ => rfl) events none

/-- Events keep the permits of every semaphore covered. -/
theorem covered_of_auditCover {overdraft : Bool} {events : List (ObjectEvent SemaphoreOp)}
    {entry : (Semaphore × Ledger) × Nat} (hentry : auditCover overdraft events = some entry) :
    entry.1.1.Covered entry.1.2 entry.2 :=
  (ObjectEvent.follow_induction
    (P := fun entry : (Semaphore × Ledger) × Nat =>
      entry.1.1.Covered entry.1.2 entry.2 ∧ entry.1.1.Orderly)
    ⟨covered_new, orderly_new⟩
    (fun event _ _ hbefore =>
      ⟨hbefore.1.react hbefore.2 overdraft event, hbefore.2.react overdraft event⟩)
    (by simp) hentry).1

end Semaphore

namespace Machine

/-- A release that is executed is accepted if its semaphore accepts it. -/
theorem apply_release_iff {machine : Machine} {command : Command} {name : String}
    {permits : UInt32} {semaphore : Semaphore}
    (hget : machine.semaphores.get? name = some semaphore)
    (hexecutes : machine.executes command = true)
    (hoperation : command.operation = .semaphore name (.release permits)) :
    (machine.apply command).answer = .ok .unit ↔
      (semaphore.release command.invocation permits).answer = .ok () := by
  have hfound : machine.semaphores.byName.getD name {} = semaphore := by
    rw [SortedMap.getD]
    exact congrArg (·.getD {}) hget
  have hanswer : (machine.apply command).answer =
      .done ((semaphore.release command.invocation permits).answer.map fun _ => .unit) := by
    rw [apply_of_executes hexecutes, hoperation]
    simp only [execute, Semaphores.apply, SemaphoreOp.isReadOnly, Bool.false_eq_true, if_false,
      Semaphores.step, hfound]
  rw [hanswer]
  cases (semaphore.release command.invocation permits).answer with
  | ok => exact iff_of_true rfl rfl
  | error failure => simp [Except.map]

/-- The permits of any semaphore after any log. What is available and held exceeds the capacity
    exactly if drains wrote off more than callers without a session have taken, and these can give
    back what they took, less what was written off. -/
theorem permits_covered (options : MachineOptions) (log : List Command) (name : String)
    (semaphore : Semaphore) (h : (run options log).semaphores.get? name = some semaphore) :
    ∃ ledger writtenOff,
      Semaphore.auditCover options.overdraft ((new options).semaphoreHistory name log) =
        some ((semaphore, ledger), writtenOff) ∧
      semaphore.capacity + writtenOff =
        semaphore.available + semaphore.totalHeld + ledger.account none ∧
      0 ≤ ledger.account none ∧
      (semaphore.available + semaphore.totalHeld ≤ semaphore.capacity ↔
        (writtenOff : Int) ≤ ledger.account none) ∧
      ∀ command permits, command.invocation.session = none → 0 < permits.toNat →
        command.operation = .semaphore name (.release permits) →
        (((run options log).apply command).answer = .ok .unit ↔
          (permits.toNat : Int) + writtenOff ≤ ledger.account none) := by
  have hhistory := replay_semaphore (new options) log name
  have hmap := Semaphore.map_audit options.overdraft none ((new options).semaphoreHistory name log)
  rw [← Semaphore.map_auditCover, Option.map_map] at hmap
  obtain ⟨⟨⟨found, ledger⟩, writtenOff⟩, haudit, hfound⟩ := Option.map_eq_some_iff.mp
    (hmap.trans (hhistory.symm.trans h))
  obtain rfl : found = semaphore := hfound
  have hcovered := Semaphore.covered_of_auditCover haudit
  refine ⟨ledger, writtenOff, haudit, hcovered.capacity_eq, hcovered.balanced.outside_nonneg,
    hcovered.within_iff, fun command permits hsession hpermits hoperation => ?_⟩
  rw [apply_release_iff h (executes_of_sessionless hsession) hoperation]
  exact hcovered.release_iff hsession hpermits

/-- A semaphore is overdrawn while a session and a caller without one have permits in hand, and then
    drained. -/
def overdrawnLog : List Command :=
  let outside (op : SemaphoreOp) : Command := { operation := .semaphore "permit" op }
  [{ operation := .session (.create "a") }, outside (.init 4),
    { invocation := { session := some 1, uid := some (.ofNat 1) }
      operation := .semaphore "permit" (.acquire 2 none) },
    outside (.acquire 1 none), outside (.reduce 4), outside .drain]

theorem overdrawn_permits_covered :
    let options : MachineOptions := { sessionTtl := 10, dedupCapacity := 4, overdraft := true }
    ∃ semaphore ledger writtenOff,
      (run options overdrawnLog).semaphores.get? "permit" = some semaphore ∧
      Semaphore.auditCover true ((new options).semaphoreHistory "permit" overdrawnLog) =
        some ((semaphore, ledger), writtenOff) ∧
      semaphore.capacity + writtenOff =
        semaphore.available + semaphore.totalHeld + ledger.account none ∧
      (semaphore.available + semaphore.totalHeld ≤ semaphore.capacity ↔
        (writtenOff : Int) ≤ ledger.account none) := by
  intro options
  have hsome : ((run options overdrawnLog).semaphores.get? "permit").isSome = true := by
    decide +kernel
  obtain ⟨semaphore, hsemaphore⟩ := Option.isSome_iff_exists.mp hsome
  obtain ⟨ledger, writtenOff, haudit, hcapacity, -, hwithin, -⟩ :=
    permits_covered options overdrawnLog "permit" semaphore hsemaphore
  exact ⟨semaphore, ledger, writtenOff, hsemaphore, haudit, hcapacity, hwithin⟩

/-- The drain makes permits available that nobody gave back. After it more is outstanding than the
    capacity, and the caller without a session cannot give back what it took. -/
theorem drained_overdraft_exceeds_capacity :
    let options : MachineOptions := { sessionTtl := 10, dedupCapacity := 4, overdraft := true }
    (¬ ∀ (log : List Command) (name : String) (semaphore : Semaphore),
      (run options log).semaphores.get? name = some semaphore →
      semaphore.available + semaphore.totalHeld ≤ semaphore.capacity) ∧
    ¬ ∀ (log : List Command) (name : String) (semaphore : Semaphore) (ledger : Ledger)
        (command : Command) (permits : UInt32),
      Semaphore.audit true none ((new options).semaphoreHistory name log) =
        some (semaphore, ledger) →
      command.invocation.session = none → 0 < permits.toNat →
      (permits.toNat : Int) ≤ ledger.account none →
      command.operation = .semaphore name (.release permits) →
      ((run options log).apply command).answer = .ok .unit := by
  intro options
  constructor
  · intro hall
    have hexceeds : ((run options overdrawnLog).semaphores.get? "permit").map
        (fun semaphore : Semaphore =>
          decide (semaphore.available + semaphore.totalHeld ≤ semaphore.capacity)) =
        some false := by
      decide +kernel
    obtain ⟨semaphore, hsemaphore, hfalse⟩ := Option.map_eq_some_iff.mp hexceeds
    exact of_decide_eq_false hfalse (hall overdrawnLog "permit" semaphore hsemaphore)
  · intro hall
    let giveBack : Command := { operation := .semaphore "permit" (.release 1) }
    have htaken : (Semaphore.audit true none
        ((new options).semaphoreHistory "permit" overdrawnLog)).map
          (fun entry => entry.2.account none) = some 1 := by
      decide +kernel
    obtain ⟨⟨semaphore, ledger⟩, haudit, haccount⟩ := Option.map_eq_some_iff.mp htaken
    have hrefused : ((run options overdrawnLog).apply giveBack).answer ≠ .ok .unit := by
      decide +kernel
    exact hrefused (hall overdrawnLog "permit" semaphore ledger giveBack 1 haudit rfl (by decide)
      (Int.le_of_eq haccount.symm) rfl)

end Machine

end Quorum
