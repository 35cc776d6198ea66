import Quorum.Proofs.Machine.Custody
import Quorum.Proofs.Machine.Permits
import Quorum.Proofs.Machine.Reports
import Quorum.Proofs.Semaphore.Queue

namespace Quorum.Machine

/-- No waiter is stranded. After any log the head of a queue asks for more than is available, every
    parked acquire asks for permits, and no token is parked twice. -/
theorem no_waiter_stranded (options : MachineOptions) (log : List Command) (name : String)
    (semaphore : Semaphore) (h : (run options log).semaphores.get? name = some semaphore) :
    (∀ waiter ∈ semaphore.waiters.head?, semaphore.available < (waiter.permits.toNat : Int)) ∧
      (∀ waiter ∈ semaphore.waiters, 0 < waiter.permits.toNat) ∧
      (semaphore.waiters.map AcquireWaiter.uid).Nodup := by
  have hhistory := replay_semaphore (new options) log name
  obtain ⟨hblocked, horderly⟩ := ObjectEvent.follow_induction
    (P := fun semaphore : Semaphore => semaphore.HeadBlocked ∧ semaphore.Orderly)
    ⟨Semaphore.headBlocked_new, Semaphore.orderly_new⟩
    (fun event _ _ hbefore =>
      ⟨hbefore.1.react hbefore.2 options.overdraft event, hbefore.2.react options.overdraft event⟩)
    (by intro object hget; cases hget) (hhistory.symm.trans h)
  exact ⟨hblocked, horderly.asks, horderly.distinct⟩

/-- One session has the only permit and another one waits for it. -/
def contendedLog : List Command :=
  let under (session : SessionId) (uid : Nat) (op : SemaphoreOp) : Command :=
    { invocation := { session, uid := some (.ofNat uid) }, operation := .semaphore "permit" op }
  [{ operation := .session (.create "a") }, { operation := .session (.create "b") },
    { operation := .semaphore "permit" (.init 1) }, under 1 1 (.acquire 1 none),
    under 2 2 (.acquire 1 none)]

theorem contended_waiter_not_stranded :
    let options : MachineOptions := { sessionTtl := 10, dedupCapacity := 4, overdraft := true }
    ∃ semaphore, (run options contendedLog).semaphores.get? "permit" = some semaphore ∧
      semaphore.waiters.isEmpty = false ∧
      (∀ waiter ∈ semaphore.waiters.head?, semaphore.available < (waiter.permits.toNat : Int)) ∧
      (∀ waiter ∈ semaphore.waiters, 0 < waiter.permits.toNat) ∧
      (semaphore.waiters.map AcquireWaiter.uid).Nodup := by
  intro options
  have hqueued : ((run options contendedLog).semaphores.get? "permit").map
      (fun semaphore => semaphore.waiters.isEmpty) = some false := by
    decide +kernel
  obtain ⟨semaphore, hsemaphore, hwaits⟩ := Option.map_eq_some_iff.mp hqueued
  exact ⟨semaphore, hsemaphore, hwaits,
    no_waiter_stranded options contendedLog "permit" semaphore hsemaphore⟩

/-- The notifications that a command gives to calls that are parked at a semaphore. -/
def semaphoreNotes (machine : Machine) (name : String) (command : Command) : List Notification :=
  Semaphore.notesOf machine.semaphores.overdraft name (machine.semaphores.get? name)
    (machine.semaphoreEvents command name)

/-- The calls that are parked at a semaphore, from the front. -/
def parkedAt (machine : Machine) (name : String) : List ParkedCall :=
  Semaphore.queue (machine.semaphores.get? name)

/-- The caller's turn at a semaphore: an acquire that gets there is answered at once or joins the
    queue. -/
def callerTurn (machine : Machine) (name : String) (command : Command) : List Turn :=
  match command.operation with
  | .semaphore named (.acquire _ _) =>
    if named = name ∧ machine.executes command then
      match (machine.apply command).answer with
      | .done result => [.atOnce command.invocation result]
      | .waiting => (machine.newcomer command).toList.map .joined
    else []
  | _ => []

/-- The turns that a command gives at a semaphore. -/
def turns (machine : Machine) (name : String) (command : Command) : List Turn :=
  machine.callerTurn name command ++ (machine.semaphoreNotes name command).map .answered

/-- The turns that a log gives at a semaphore. -/
def turnsOver (machine : Machine) (name : String) (log : List Command) : List Turn :=
  machine.collect (fun machine command => machine.turns name command) log

/-- A command leaves the queue of a semaphore as its events there do. -/
theorem parkedAt_apply (machine : Machine) (name : String) (command : Command) :
    (machine.apply command).state.parkedAt name =
      Semaphore.queue ((machine.semaphoreEvents command name).foldl
        (ObjectEvent.follow {} (Semaphore.react machine.semaphores.overdraft))
        (machine.semaphores.get? name)) := by
  rw [parkedAt, apply_semaphore]

/-- An acquire that gets to a semaphore is answered as its object answers it. -/
theorem answer_of_acquire {machine : Machine} {name : String} {command : Command}
    {permits : UInt32} {timeout : Option Millis}
    (hoperation : command.operation = .semaphore name (.acquire permits timeout))
    (hexecutes : machine.executes command = true) :
    (machine.apply command).answer = (((machine.semaphores.get? name).getD {}).acquire
      command.invocation permits timeout command.timestamp).answer := by
  rw [apply_of_executes hexecutes, hoperation]
  rfl

/-- An acquire is granted at once only if nobody waits. -/
theorem parkedAt_of_granted {machine : Machine} {name : String} {invocation : Invocation}
    {permits : UInt32} {timeout : Option Millis} {now : Millis}
    (h : (((machine.semaphores.get? name).getD {}).acquire invocation permits timeout now).answer =
      .ok (.bool true)) : machine.parkedAt name = [] := by
  rw [parkedAt, ← Semaphore.queue_getD, Semaphore.parkedCalls,
    Semaphore.waiters_nil_of_granted h, List.map_nil]

/-- While others wait, the only acquires that are granted at once are those on record. -/
theorem recorded_of_granted {machine : Machine} {name : String} {command : Command}
    {permits : UInt32} {timeout : Option Millis}
    (hoperation : command.operation = .semaphore name (.acquire permits timeout))
    (hwaiting : machine.parkedAt name ≠ [])
    (hgranted : (machine.apply command).answer = .ok (.bool true)) :
    machine.recorded command.invocation command.operation = some (.bool true) := by
  cases hexecutes : machine.executes command with
  | true =>
    rw [answer_of_acquire hoperation hexecutes] at hgranted
    exact absurd (parkedAt_of_granted hgranted) hwaiting
  | false =>
    obtain ⟨result, happly, hrecorded⟩ := apply_of_not_executes hexecutes
    rw [happly] at hgranted
    exact hrecorded (.bool true) (Applied.done.inj hgranted)

/-- An acquire that gets to a semaphore is granted at once only if nobody waits there, and it joins
    the queue at its end. -/
theorem apply_fifo_of_acquire {machine : Machine} {name : String} {command : Command}
    {permits : UInt32} {timeout : Option Millis}
    (hoperation : command.operation = .semaphore name (.acquire permits timeout))
    (hexecutes : machine.executes command = true) :
    Fifo (machine.parkedAt name) (machine.turns name command)
      ((machine.apply command).state.parkedAt name) := by
  let before := (machine.semaphores.get? name).getD {}
  let step := before.acquire command.invocation permits timeout command.timestamp
  have hanswer : (machine.apply command).answer = step.answer :=
    answer_of_acquire hoperation hexecutes
  have hnewcomer : machine.newcomer command = joining SemaphoreOp.acquireKind command.invocation
      step.answer (before.waiters.map AcquireWaiter.uid) := by
    rw [newcomer, hanswer, hoperation]
    rfl
  have hevents : machine.semaphoreEvents command name =
      [.call (.acquire permits timeout) command.invocation command.timestamp] :=
    semaphoreEvents_of_call hoperation rfl hexecutes
  have hnotes : machine.semaphoreNotes name command = [] := by
    rw [semaphoreNotes, hevents, Semaphore.notesOf_singleton]
    exact before.acquire_notes command.invocation permits timeout command.timestamp
  have hqueue : machine.parkedAt name = before.parkedCalls :=
    (Semaphore.queue_getD (machine.semaphores.get? name)).symm
  have hafter : (machine.apply command).state.parkedAt name =
      before.parkedCalls ++ (machine.newcomer command).toList := by
    rw [parkedAt_apply, hevents, hnewcomer]
    exact before.acquire_joining command.invocation permits timeout command.timestamp
  have hturn : machine.turns name command = match step.answer with
      | .done result => [.atOnce command.invocation result]
      | .waiting => (machine.newcomer command).toList.map .joined := by
    simp only [turns, hnotes, List.map_nil, List.append_nil, callerTurn, hoperation, hexecutes,
      and_self, if_true, hanswer]
  rw [hturn, hqueue, hafter]
  cases hstep : step.answer with
  | done result =>
    have hnone : machine.newcomer command = none :=
      newcomer_of_answered (by rw [hanswer, hstep]; simp)
    rw [hnone]
    refine .atOnce (fun hgranted => ?_) ((List.append_nil before.parkedCalls).symm ▸ .done _)
    exact hqueue.symm.trans (parkedAt_of_granted (hstep.trans (congrArg Applied.done hgranted)))
  | waiting =>
    cases machine.newcomer command with
    | none => exact (List.append_nil before.parkedCalls).symm ▸ .done _
    | some call => exact .joined (.done _)

/-- Every step serves the queue of every semaphore first come first served. -/
theorem apply_fifo (machine : Machine) (name : String) (command : Command) :
    Fifo (machine.parkedAt name) (machine.turns name command)
      ((machine.apply command).state.parkedAt name) := by
  by_cases hacquire : (∃ permits timeout,
      command.operation = .semaphore name (.acquire permits timeout)) ∧
        machine.executes command = true
  · obtain ⟨⟨permits, timeout, hoperation⟩, hexecutes⟩ := hacquire
    exact apply_fifo_of_acquire hoperation hexecutes
  · have hcaller : machine.callerTurn name command = [] := by
      unfold callerTurn
      split
      · rename_i named permits timeout hoperation
        refine if_neg ?_
        rintro ⟨rfl, hexecutes⟩
        exact hacquire ⟨⟨permits, timeout, hoperation⟩, hexecutes⟩
      · rfl
    have hevents : ∀ event ∈ machine.semaphoreEvents command name,
        ¬ Semaphore.IsAcquire event := by
      intro event hmem hevent
      unfold Semaphore.IsAcquire at hevent
      split at hevent
      · rename_i permits timeout invocation now
        obtain ⟨hoperation, -⟩ := call_of_mem_semaphoreEvents hmem
        exact hacquire ⟨⟨permits, timeout, hoperation⟩, executes_of_mem_semaphoreEvents hmem⟩
      · exact hevent
    rw [turns, hcaller, List.nil_append, parkedAt_apply]
    exact Semaphore.fifo_notesOf hevents _ name _

/-- A log serves the queue of a semaphore in order, by induction from the step. -/
theorem replay_fifo (machine : Machine) (name : String) (log : List Command) :
    Fifo (machine.parkedAt name) (machine.turnsOver name log)
      ((machine.replay log).parkedAt name) := by
  induction log generalizing machine with
  | nil => exact .done _
  | cons command rest ih =>
    exact (machine.apply_fifo name command).append (ih (machine.apply command).state)

theorem note?_callerTurn (machine : Machine) (name : String) (command : Command) :
    (machine.callerTurn name command).filterMap Turn.note? = [] := by
  unfold callerTurn
  split
  · split
    · split
      · rfl
      · cases machine.newcomer command <;> rfl
    · rfl
  · rfl

theorem notesIn_turnsOver_cons (machine : Machine) (name : String) (command : Command)
    (rest : List Command) :
    (machine.turnsOver name (command :: rest)).filterMap Turn.note? =
      machine.semaphoreNotes name command ++
        ((machine.apply command).state.turnsOver name rest).filterMap Turn.note? := by
  have hturns : machine.turnsOver name (command :: rest) = machine.callerTurn name command ++
      (machine.semaphoreNotes name command).map .answered ++
      (machine.apply command).state.turnsOver name rest := rfl
  rw [hturns, List.filterMap_append, List.filterMap_append, note?_callerTurn,
    Turn.note?_map_answered, List.nil_append]

/-- The answers to parked calls among a semaphore's turns are notifications, in their order. -/
theorem turnsOver_notes_sublist (machine : Machine) (name : String) (log : List Command) :
    ((machine.turnsOver name log).filterMap Turn.note?).Sublist (machine.notesOver log) := by
  induction log generalizing machine with
  | nil => exact List.Sublist.refl _
  | cons command rest ih =>
    rw [notesIn_turnsOver_cons]
    exact ((machine.apply_reported command).sublist name).append (ih (machine.apply command).state)

/-- Every notification to an acquire is among the turns of a semaphore. -/
theorem exists_turn_of_note (machine : Machine) (log : List Command) {note : Notification}
    (hmem : note ∈ machine.notesOver log) (hkind : note.kind = SemaphoreOp.acquireKind) :
    ∃ name, note ∈ (machine.turnsOver name log).filterMap Turn.note? := by
  induction log generalizing machine with
  | nil => cases hmem
  | cons command rest ih =>
    have hnotes : machine.notesOver (command :: rest) =
        (machine.apply command).notes ++ (machine.apply command).state.notesOver rest := rfl
    rw [hnotes] at hmem
    simp only [notesIn_turnsOver_cons]
    rcases List.mem_append.mp hmem with hnow | hlater
    · obtain ⟨name, hnote⟩ := (machine.apply_reported command).exists_mem note hnow hkind
      exact ⟨name, List.mem_append_left _ hnote⟩
    · obtain ⟨name, hnote⟩ := ih (machine.apply command).state hlater
      exact ⟨name, List.mem_append_right _ hnote⟩

/-- Acquires are served strictly first come first served, through everything that a log can do to
    the semaphore. Until a parked call is answered, nobody is granted, at once or by a notification,
    but the call itself and those ahead of it; in particular nobody who comes later. The grants that
    a step or a log makes to parked calls are in the order of arrival. The answers to parked calls
    are the notifications, in their order at every semaphore. -/
theorem first_come_first_served (options : MachineOptions) (log later : List Command)
    (name : String) :
    let machine := run options log
    let turns := machine.turnsOver name later
    Fifo (machine.parkedAt name) turns ((machine.replay later).parkedAt name) ∧
      (∀ front call back, machine.parkedAt name = front ++ call :: back →
        (∀ command permits timeout,
          command.operation = .semaphore name (.acquire permits timeout) →
          (machine.apply command).answer = .ok (.bool true) →
          machine.recorded command.invocation command.operation = some (.bool true)) ∧
        ∀ earlier turn rest, turns = earlier ++ turn :: rest → turn.grants = true →
          turn.call? ∈ (front ++ [call]).map some ∨
            ∃ note, Turn.answered note ∈ earlier ∧ note.call = call) ∧
      (turns.filterMap Turn.granted? ++ (machine.replay later).parkedAt name).Sublist
        (machine.parkedAt name ++ turns.filterMap Turn.joined?) ∧
      (turns.filterMap Turn.note?).Sublist (machine.notesOver later) ∧
      ∀ note ∈ machine.notesOver later, note.kind = SemaphoreOp.acquireKind →
        ∃ other, note ∈ (machine.turnsOver other later).filterMap Turn.note? := by
  intro machine turns
  have hfifo : Fifo (machine.parkedAt name) turns ((machine.replay later).parkedAt name) :=
    machine.replay_fifo name later
  refine ⟨hfifo, fun front call back hqueue => ⟨?_, hfifo.notOvertaken hqueue⟩, hfifo.in_order,
    machine.turnsOver_notes_sublist name later,
    fun note hmem hkind => machine.exists_turn_of_note later hmem hkind⟩
  intro command permits timeout hoperation hgranted
  have hwaiting : machine.parkedAt name ≠ [] := by simp [hqueue]
  exact recorded_of_granted hoperation hwaiting hgranted

/-- Another call comes later, the permit is released, and then the session that got it closes. -/
theorem contended_first_come_first_served :
    let options : MachineOptions := { sessionTtl := 10, dedupCapacity := 4, overdraft := false }
    let machine := run options contendedLog
    let under (uid : Nat) (op : SemaphoreOp) : Command :=
      { invocation := { session := some 1, uid := some (.ofNat uid) }
        operation := .semaphore "permit" op }
    let turns := machine.turnsOver "permit" [under 3 (.acquire 1 none), under 4 (.release 1),
      { operation := .session (.close 2) }]
    let first : ParkedCall := ⟨SemaphoreOp.acquireKind, .ofNat 2, some 2⟩
    let second : ParkedCall := ⟨SemaphoreOp.acquireKind, .ofNat 3, some 1⟩
    machine.parkedAt "permit" = [] ++ first :: [] ∧
      turns.filterMap Turn.granted? = [first, second] ∧
      ∀ earlier turn rest, turns = earlier ++ turn :: rest → turn.grants = true →
        turn.call? ∈ ([] ++ [first]).map some ∨
          ∃ note, Turn.answered note ∈ earlier ∧ note.call = first := by
  intro options machine under turns first second
  have hqueue : machine.parkedAt "permit" = [] ++ first :: [] := by decide +kernel
  have hgranted : turns.filterMap Turn.granted? = [first, second] := by decide +kernel
  obtain ⟨-, hnobody, -⟩ := first_come_first_served options contendedLog _ "permit"
  exact ⟨hqueue, hgranted, (hnobody [] first [] hqueue).2⟩

end Quorum.Machine
