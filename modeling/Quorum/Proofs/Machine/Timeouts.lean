import Quorum.Proofs.Machine.Queues
import Quorum.Proofs.Machine.Rounds
import Quorum.Proofs.Timeout

namespace Quorum.Machine

/-- A call is parked somewhere at a replica. -/
def Waiting (machine : Machine) (wait : Wait) : Prop :=
  ∃ name, wait ∈ Semaphore.waits (machine.semaphores.get? name) ∨
    wait ∈ Latch.waits (machine.latches.get? name)

/-- The tokens of the calls that are due at the objects of a map. -/
theorem mem_dueTokens {α β : Type} (objects : SortedMap String α) (waiters : α → List β)
    (wait : β → Wait) (now : Millis) (uid : InvocationUid) :
    uid ∈ ((objects.values.flatMap waiters).filter fun waiter => (wait waiter).isDue now).map
        (fun waiter => (wait waiter).call.uid) ↔
      ∃ name, ∃ entry ∈ ((objects.get? name).map fun object => (waiters object).map wait).getD [],
        entry.isDue now = true ∧ entry.call.uid = uid := by
  simp only [List.mem_map, List.mem_filter, List.mem_flatMap, SortedMap.mem_values]
  constructor
  · rintro ⟨waiter, ⟨⟨object, ⟨name, hget⟩, hmem⟩, hdue⟩, rfl⟩
    refine ⟨name, wait waiter, ?_, hdue, rfl⟩
    rw [hget]
    exact List.mem_map_of_mem hmem
  · rintro ⟨name, entry, hmem, hdue, rfl⟩
    cases hget : objects.get? name with
    | none =>
      rw [hget] at hmem
      cases hmem
    | some object =>
      rw [hget] at hmem
      obtain ⟨waiter, hwaiter, rfl⟩ := List.mem_map.mp hmem
      exact ⟨waiter, ⟨⟨object, ⟨name, hget⟩, hwaiter⟩, hdue⟩, rfl⟩

/-- The tokens that are proposed are those of the calls that are due. -/
theorem mem_expiredWaitKeys {machine : Machine} {now : Millis} {uid : InvocationUid} :
    uid ∈ machine.expiredWaitKeys now ↔
      ∃ wait, machine.Waiting wait ∧ wait.isDue now = true ∧ wait.call.uid = uid := by
  have hsemaphores : uid ∈ machine.semaphores.expiredWaitKeys now ↔
      ∃ name, ∃ wait ∈ Semaphore.waits (machine.semaphores.get? name),
        wait.isDue now = true ∧ wait.call.uid = uid :=
    mem_dueTokens machine.semaphores.byName Semaphore.waiters AcquireWaiter.wait now uid
  have hlatches : uid ∈ machine.latches.expiredWaitKeys now ↔
      ∃ name, ∃ wait ∈ Latch.waits (machine.latches.get? name),
        wait.isDue now = true ∧ wait.call.uid = uid :=
    mem_dueTokens machine.latches.byName Latch.waiters AwaitWaiter.wait now uid
  rw [expiredWaitKeys, List.mem_append, hsemaphores, hlatches]
  constructor
  · rintro (⟨name, wait, hmem, hdue⟩ | ⟨name, wait, hmem, hdue⟩)
    · exact ⟨wait, ⟨name, .inl hmem⟩, hdue⟩
    · exact ⟨wait, ⟨name, .inr hmem⟩, hdue⟩
  · rintro ⟨wait, ⟨name, hmem | hmem⟩, hdue⟩
    · exact .inl ⟨name, wait, hmem, hdue⟩
    · exact .inr ⟨name, wait, hmem, hdue⟩

/-- In every replica the queues of semaphores are in order. -/
theorem semaphore_orderly {options : MachineOptions} {log : List Command} {name : String}
    {semaphore : Semaphore} (h : (run options log).semaphores.get? name = some semaphore) :
    semaphore.Orderly := by
  have hhistory := replay_semaphore (new options) log name
  exact ObjectEvent.follow_induction (P := Semaphore.Orderly) Semaphore.orderly_new
    (fun event _ _ hbefore => hbefore.react options.overdraft event)
    (by intro object hget; cases hget) (hhistory.symm.trans h)

section Proposal

variable {machine : Machine} {command : Command} {uids : List InvocationUid}

/-- An executed list of tokens is so many timeouts at each semaphore. -/
theorem semaphoreEvents_expireWaitKeys (h : command.operation = .expireWaitKeys uids)
    (name : String) :
    machine.semaphoreEvents command name =
      (if machine.executes command then uids else []).map .timedOut := by
  unfold semaphoreEvents
  split
  · rw [h]
    rfl
  · rfl

/-- An executed list of tokens is so many timeouts at each latch. -/
theorem latchEvents_expireWaitKeys (h : command.operation = .expireWaitKeys uids)
    (name : String) :
    machine.latchEvents command name =
      (if machine.executes command then uids else []).map .timedOut := by
  unfold latchEvents
  split
  · rw [h]
    rfl
  · rfl

/-- Expired tokens time out the acquires under them and no others. -/
theorem apply_timedOut_semaphore (h : command.operation = .expireWaitKeys uids) {name : String}
    (horderly : ∀ semaphore, machine.semaphores.get? name = some semaphore → semaphore.Orderly) :
    TimedOut (if machine.executes command then uids else [])
      (Semaphore.waits (machine.semaphores.get? name))
      (Semaphore.waits ((machine.apply command).state.semaphores.get? name))
      (machine.semaphoreNotes name command) := by
  rw [apply_semaphore, semaphoreNotes, semaphoreEvents_expireWaitKeys h]
  exact Semaphore.timedOut_notesOf horderly _ name _

/-- Expired tokens time out the awaits under them and no others. -/
theorem apply_timedOut_latch (h : command.operation = .expireWaitKeys uids) {name : String}
    (horderly : ∀ latch, machine.latches.get? name = some latch → latch.Orderly) :
    TimedOut (if machine.executes command then uids else [])
      (Latch.waits (machine.latches.get? name))
      (Latch.waits ((machine.apply command).state.latches.get? name))
      (machine.latchNotes name command) := by
  rw [apply_latch, latchNotes, latchEvents_expireWaitKeys h]
  exact Latch.timedOut_notesOf horderly name _

end Proposal

/-- Every notification of a step is given by a semaphore or a latch. -/
theorem exists_object_of_note {machine : Machine} {command : Command} {note : Notification}
    (h : note ∈ (machine.apply command).notes) :
    ∃ name, note ∈ machine.semaphoreNotes name command ∨
      note ∈ machine.latchNotes name command := by
  have hparked := parkedCount_pos_of_note (List.mem_map_of_mem h)
  rcases kind_of_parkedCount_pos hparked with hacquire | hawait
  · obtain ⟨name, hnote⟩ := (apply_reported machine command).exists_mem note h hacquire
    exact ⟨name, .inl hnote⟩
  · obtain ⟨name, hnote⟩ := (apply_relayed machine command).exists_mem note h hawait
    exact ⟨name, .inr hnote⟩

/-- What becomes of parked calls when a proposal to tell some that their time is up, which was drawn
    up from the calls that were due at an earlier state, is applied after a further log. It asks for
    tokens, not for deadlines: a call is told that its time is up only if a call that was due had
    its token, and whoever has such a token leaves the queue. All others stay parked or are
    granted. -/
theorem timed_out_by_token (options : MachineOptions) (log later : List Command)
    (command : Command) (now : Millis)
    (hoperation : command.operation = .expireWaitKeys ((run options log).expiredWaitKeys now)) :
    let observed := run options log
    let machine := run options (log ++ later)
    let step := machine.apply command
    let tokens := if machine.executes command then observed.expiredWaitKeys now else []
    (∀ uid, uid ∈ observed.expiredWaitKeys now ↔
      ∃ wait, observed.Waiting wait ∧ wait.isDue now = true ∧ wait.call.uid = uid) ∧
    (∀ name, TimedOut tokens (Semaphore.waits (machine.semaphores.get? name))
      (Semaphore.waits (step.state.semaphores.get? name)) (machine.semaphoreNotes name command)) ∧
    (∀ name, TimedOut tokens (Latch.waits (machine.latches.get? name))
      (Latch.waits (step.state.latches.get? name)) (machine.latchNotes name command)) ∧
    (∀ note ∈ step.notes, note.result = .ok (.bool true) ∨ note.result = .ok (.bool false) ∧
      ∃ due, observed.Waiting due ∧ due.isDue now = true ∧ due.call.uid = note.uid) ∧
    ∀ wait, machine.Waiting wait →
      (∀ due, observed.Waiting due → due.isDue now = true → due.call.uid ≠ wait.call.uid) →
      step.state.Waiting wait ∨
        ∃ note ∈ step.notes, note.call = wait.call ∧ note.result = .ok (.bool true) := by
  intro observed machine step tokens
  have hsemaphores : ∀ name, TimedOut tokens (Semaphore.waits (machine.semaphores.get? name))
      (Semaphore.waits (step.state.semaphores.get? name)) (machine.semaphoreNotes name command) :=
    fun name => apply_timedOut_semaphore hoperation fun _ hget => semaphore_orderly hget
  have hlatches : ∀ name, TimedOut tokens (Latch.waits (machine.latches.get? name))
      (Latch.waits (step.state.latches.get? name)) (machine.latchNotes name command) :=
    fun name => apply_timedOut_latch hoperation fun _ hget => (latch_orderly hget).1
  have hdue : ∀ uid ∈ tokens,
      ∃ due, observed.Waiting due ∧ due.isDue now = true ∧ due.call.uid = uid := by
    intro uid hmem
    simp only [tokens] at hmem
    split at hmem
    · exact mem_expiredWaitKeys.mp hmem
    · cases hmem
  refine ⟨fun uid => mem_expiredWaitKeys, hsemaphores, hlatches, ?_, ?_⟩
  · intro note hmem
    obtain ⟨name, hnote | hnote⟩ := exists_object_of_note hmem
    · exact ((hsemaphores name).result note hnote).2.imp_right (And.imp_right (hdue note.uid))
    · exact ((hlatches name).result note hnote).2.imp_right (And.imp_right (hdue note.uid))
  · intro wait hwaits hother
    have huid : wait.call.uid ∉ tokens := by
      intro hmem
      obtain ⟨due, hwaiting, hup, heq⟩ := hdue _ hmem
      exact hother due hwaiting hup heq
    obtain ⟨name, hwait | hwait⟩ := hwaits
    · refine ((hsemaphores name).stays_or_granted hwait huid).imp (fun h => ⟨name, .inl h⟩) ?_
      rintro ⟨note, hnote, hgranted⟩
      exact ⟨note, ((apply_reported machine command).sublist name).subset hnote, hgranted⟩
    · refine ((hlatches name).stays_or_granted hwait huid).imp (fun h => ⟨name, .inr h⟩) ?_
      rintro ⟨note, hnote, hgranted⟩
      exact ⟨note, ((apply_relayed machine command).sublist name).subset hnote, hgranted⟩

/-- A round is owned by the first session. The second one awaits its end twice, once with a limit of
    50 milliseconds. -/
def limitedLog : List Command :=
  let gate (op : LatchOp) (session : Option SessionId) (uid : Nat) : Command :=
    { invocation := { session, uid := some (.ofNat uid) }, operation := .latch "gate" op,
      timestamp := 100 }
  [{ operation := .session (.create "a") }, { operation := .session (.create "b") },
    gate (.trySetCount 2) none 1, gate .countDown (some 1) 2, gate (.await (some 50)) (some 2) 7,
    gate (.await none) (some 2) 8]

theorem limited_await_timed_out :
    let options : MachineOptions := { sessionTtl := 10, dedupCapacity := 4, overdraft := true }
    let later : List Command := [{ operation := .session (.heartbeat 2), timestamp := 155 }]
    let command : Command := { operation := .expireWaitKeys [.ofNat 7], timestamp := 160 }
    let machine := run options (limitedLog ++ later)
    let patient : Wait := ⟨⟨LatchOp.awaitKind, .ofNat 8, some 2⟩, none⟩
    command.operation = .expireWaitKeys ((run options limitedLog).expiredWaitKeys 160) ∧
      machine.Waiting patient ∧
      ((machine.apply command).state.Waiting patient ∨
        ∃ note ∈ (machine.apply command).notes,
          note.call = patient.call ∧ note.result = .ok (.bool true)) := by
  intro options later command machine patient
  have hoperation : command.operation =
      .expireWaitKeys ((run options limitedLog).expiredWaitKeys 160) := by
    decide +kernel
  have hwaits : machine.Waiting patient := by
    have hqueue : patient ∈ Latch.waits (machine.latches.get? "gate") := by decide +kernel
    exact ⟨"gate", .inr hqueue⟩
  have hother : InvocationUid.ofNat 8 ∉ (run options limitedLog).expiredWaitKeys 160 := by
    decide +kernel
  obtain ⟨htokens, -, -, -, hkept⟩ :=
    timed_out_by_token options limitedLog later command 160 hoperation
  refine ⟨hoperation, hwaits, hkept patient hwaits fun due hwaiting hup heq => hother ?_⟩
  exact (htokens (.ofNat 8)).mpr ⟨due, hwaiting, hup, heq⟩

/-- Before the proposal to time out the limited await is applied, the owner's session closes, which
    fails the round's awaits, and the second session makes the failed call again. The call is parked
    until 208, and told at 160 that its time is up. -/
theorem retried_await_timed_out_early :
    let options : MachineOptions := { sessionTtl := 10, dedupCapacity := 4, overdraft := true }
    let retry : Command :=
      { invocation := { session := some 2, uid := some (.ofNat 7) }
        operation := .latch "gate" (.await (some 50)), timestamp := 158 }
    let later : List Command := [{ operation := .session (.close 1), timestamp := 155 }, retry]
    let machine := run options (limitedLog ++ later)
    let command : Command :=
      { operation := .expireWaitKeys ((run options limitedLog).expiredWaitKeys 160)
        timestamp := 160 }
    let retried : Wait := ⟨⟨LatchOp.awaitKind, .ofNat 7, some 2⟩, some 208⟩
    Latch.waits (machine.latches.get? "gate") = [retried] ∧ retried.isDue 160 = false ∧
      (machine.apply command).notes =
        [⟨.ofNat 7, some 2, LatchOp.awaitKind, .ok (.bool false)⟩] ∧
      Latch.waits ((machine.apply command).state.latches.get? "gate") = [] := by
  decide +kernel

end Quorum.Machine
