import Quorum.Proofs.Machine.Holdings
import Quorum.Proofs.Semaphore.Overdraft

namespace Quorum

namespace Semaphore

/-- A semaphore that reacts to an event, with the ledger in which the event is booked. -/
def auditedReact (overdraft : Bool) (entry : Semaphore × Ledger) (event : ObjectEvent SemaphoreOp) :
    (Semaphore × Ledger) × List Notification :=
  (((entry.1.react overdraft event).1, entry.2.book overdraft entry.1 event),
    (entry.1.react overdraft event).2)

/-- The semaphore that events leave, with the ledger of its life since it was last created. -/
def audit (overdraft : Bool) (audited? : Option (Semaphore × Ledger))
    (events : List (ObjectEvent SemaphoreOp)) : Option (Semaphore × Ledger) :=
  events.foldl (ObjectEvent.follow ({}, {}) (auditedReact overdraft)) audited?

/-- An audit follows the semaphore that the events leave. -/
theorem map_audit (overdraft : Bool) (audited? : Option (Semaphore × Ledger))
    (events : List (ObjectEvent SemaphoreOp)) :
    (audit overdraft audited? events).map (·.1) =
      events.foldl (ObjectEvent.follow {} (react overdraft)) (audited?.map (·.1)) :=
  ObjectEvent.map_foldl_follow (fun _ _ => rfl) events audited?

/-- Without overdraft, events keep every semaphore in agreement with its ledger. -/
theorem audited_of_audit {audited? : Option (Semaphore × Ledger)}
    (h : ∀ entry, audited? = some entry → entry.1.Audited entry.2 ∧ entry.1.Orderly)
    {events : List (ObjectEvent SemaphoreOp)} {entry : Semaphore × Ledger}
    (hentry : audit false audited? events = some entry) :
    entry.1.Audited entry.2 ∧ entry.1.Orderly :=
  ObjectEvent.follow_induction
    (P := fun entry : Semaphore × Ledger => entry.1.Audited entry.2 ∧ entry.1.Orderly)
    ⟨audited_new, orderly_new⟩
    (fun event _ _ hbefore => ⟨hbefore.1.react hbefore.2 event, hbefore.2.react false event⟩)
    h hentry

end Semaphore

namespace Machine

/-- All that a log does to a semaphore. -/
def semaphoreHistory (machine : Machine) (name : String) :
    List Command → List (ObjectEvent SemaphoreOp)
  | [] => []
  | command :: rest =>
    machine.semaphoreEvents command name ++ (machine.apply command).state.semaphoreHistory name rest

/-- A log leaves the semaphore that its history leaves. -/
theorem replay_semaphore (machine : Machine) (log : List Command) (name : String) :
    (machine.replay log).semaphores.get? name =
      (machine.semaphoreHistory name log).foldl
        (ObjectEvent.follow {} (Semaphore.react machine.semaphores.overdraft))
        (machine.semaphores.get? name) := by
  induction log generalizing machine with
  | nil => rfl
  | cons command rest ih =>
    rw [replay_cons, ih, apply_overdraft, apply_semaphore, semaphoreHistory, List.foldl_append]

/-- The permits of a semaphore are accounted for by the ledger of its life. -/
structure Accounted (machine : Machine) (semaphore : Semaphore) (ledger : Ledger) : Prop where
  available_nonneg : 0 ≤ semaphore.available
  /-- An open session's holders hold what they were granted and did not give back. -/
  held_eq : ∀ holder : Holder, machine.sessions.isActive holder.1 = true →
    (semaphore.held.getD holder 0 : Int) = ledger.account (some holder)
  held_ne_zero : ∀ holder, semaphore.held.get? holder ≠ some 0
  held_closed : ∀ holder : Holder, machine.sessions.isActive holder.1 = false →
    semaphore.held.get? holder = none
  outside_nonneg : 0 ≤ ledger.account none
  /-- No permit is lost or made up: each is available, held, or with callers without a session. -/
  capacity_eq : semaphore.capacity =
    semaphore.available + semaphore.totalHeld + ledger.account none
  within_capacity : semaphore.available + semaphore.totalHeld ≤ semaphore.capacity
  configured_eq : semaphore.capacity = ledger.configured

/-- Without overdraft, after any log, the permits of every semaphore are accounted for by the ledger
    of its life since it was last created. -/
theorem permits_accounted (options : MachineOptions) (hoverdraft : options.overdraft = false)
    (log : List Command) (name : String) (semaphore : Semaphore)
    (h : (run options log).semaphores.get? name = some semaphore) :
    ∃ ledger,
      Semaphore.audit false none ((new options).semaphoreHistory name log) =
        some (semaphore, ledger) ∧
      (run options log).Accounted semaphore ledger := by
  have hhistory := replay_semaphore (new options) log name
  have hmap := Semaphore.map_audit false none ((new options).semaphoreHistory name log)
  have hnew : (new options).semaphores.overdraft = false := hoverdraft
  rw [hnew] at hhistory
  obtain ⟨⟨audited, ledger⟩, haudit, rfl⟩ := Option.map_eq_some_iff.mp
    (hmap.trans (hhistory.symm.trans h))
  obtain ⟨hbooks, -⟩ := Semaphore.audited_of_audit (by simp) haudit
  have hcapacity := hbooks.capacity_eq
  have houtside := hbooks.outside_nonneg
  refine ⟨ledger, haudit, ?_⟩
  constructor
  · exact hbooks.available_nonneg
  · exact fun holder _ => hbooks.held_eq holder
  · exact hbooks.held_ne_zero
  · intro holder hclosed
    refine Option.eq_none_iff_forall_ne_some.mpr fun permits hheld => ?_
    have hopen := settled_run options log holder.1 (.permits h ⟨holder.2, permits, hheld⟩)
    rw [hclosed] at hopen
    cases hopen
  · exact houtside
  · exact hcapacity
  · omega
  · exact hbooks.configured_eq

/-- Callers with and without a session share a semaphore, one session closes with permits in hand,
    and the permits are granted to a parked call. -/
def sharedLog : List Command :=
  let under (session : SessionId) (op : SemaphoreOp) : Command :=
    { invocation := { session, thread := some 7, uid := some (.ofNat 1) }
      operation := .semaphore "permit" op }
  let outside (op : SemaphoreOp) : Command := { operation := .semaphore "permit" op }
  [{ operation := .session (.create "a") }, { operation := .session (.create "b") },
    outside (.init 4), under 1 (.acquire 3 none), outside (.acquire 1 none),
    under 2 (.acquire 2 none), { operation := .session (.close 1) }, outside (.reduce 1)]

theorem shared_permits_accounted :
    let options : MachineOptions := { sessionTtl := 10, dedupCapacity := 4, overdraft := false }
    ∃ semaphore ledger, (run options sharedLog).semaphores.get? "permit" = some semaphore ∧
      Semaphore.audit false none ((new options).semaphoreHistory "permit" sharedLog) =
        some (semaphore, ledger) ∧
      (run options sharedLog).Accounted semaphore ledger := by
  intro options
  have hsome : ((run options sharedLog).semaphores.get? "permit").isSome = true := by
    decide +kernel
  obtain ⟨semaphore, hsemaphore⟩ := Option.isSome_iff_exists.mp hsome
  obtain ⟨ledger, haudit, haccounted⟩ :=
    permits_accounted options rfl sharedLog "permit" semaphore hsemaphore
  exact ⟨semaphore, ledger, hsemaphore, haudit, haccounted⟩

end Machine

end Quorum
