import Quorum.Proofs.Latch.Rounds
import Quorum.Proofs.Machine.Holdings
import Quorum.Proofs.Relay

namespace Quorum.Machine

/-- All that a log does to a latch. -/
def latchHistory (machine : Machine) (name : String) (log : List Command) :
    List (ObjectEvent LatchOp) :=
  machine.collect (fun machine command => machine.latchEvents command name) log

/-- A log leaves the latch that its history leaves. -/
theorem replay_latch (machine : Machine) (log : List Command) (name : String) :
    (machine.replay log).latches.get? name =
      (machine.latchHistory name log).foldl (ObjectEvent.follow {} (Latch.react name))
        (machine.latches.get? name) := by
  induction log generalizing machine with
  | nil => rfl
  | cons command rest ih =>
    rw [replay_cons, ih, apply_latch, latchHistory, latchHistory, collect, List.foldl_append]

/-- The notifications that a command gives to calls that are parked at a latch. -/
def latchNotes (machine : Machine) (name : String) (command : Command) : List Notification :=
  Latch.notesOf name (machine.latches.get? name) (machine.latchEvents command name)

/-- Semaphores answer no await. -/
theorem kind_of_semaphore_note {semaphore after : Semaphore} {notes : List Notification}
    (h : (after.parkedCalls ++ notes.map Notification.call).Perm semaphore.parkedCalls)
    {note : Notification} (hmem : note ∈ notes) : note.kind ≠ LatchOp.awaitKind := by
  rw [kind_of_conserved semaphore.kind_of_parked h hmem]
  simp [LatchOp.awaitKind, SemaphoreOp.acquireKind]

/-- Semaphores in a sweep answer no await. -/
theorem kind_of_semaphores_note {semaphores : Semaphores}
    {f : Semaphore → Semaphore × List Notification}
    (hf : ∀ semaphore, ((f semaphore).1.parkedCalls ++
      (f semaphore).2.map Notification.call).Perm semaphore.parkedCalls) :
    ∀ note ∈ (semaphores.stepAll f).2, note.kind ≠ LatchOp.awaitKind := by
  intro note hmem
  obtain ⟨semaphore, -, hnote⟩ := List.mem_flatMap.mp hmem
  exact kind_of_semaphore_note (hf semaphore) hnote

/-- An event that befalls every latch, after every semaphore and before others do. -/
theorem relayed_sweep {latches : Latches} {g : String → Latch → Latch × List Notification}
    (event : ObjectEvent LatchOp) {rest : List (ObjectEvent LatchOp)}
    {earlier later : List Notification}
    (hnotes : ∀ name latch?, Latch.notesAt name latch? event =
      (latch?.map fun latch => (g name latch).2).getD [])
    (hfollow : ∀ name latch?, ObjectEvent.follow {} (Latch.react name) latch? event =
      latch?.map fun latch => (g name latch).1)
    (hearlier : ∀ note ∈ earlier, note.kind ≠ LatchOp.awaitKind)
    (hrest : Relayed LatchOp.awaitKind
      (fun name => Latch.notesOf name ((latches.stepAll g).1.get? name) rest) later) :
    Relayed LatchOp.awaitKind
      (fun name => Latch.notesOf name (latches.get? name) (event :: rest))
      (earlier ++ (latches.stepAll g).2 ++ later) := by
  have hsplit : ∀ name, Latch.notesOf name (latches.get? name) (event :: rest) =
      ((latches.get? name).map fun latch => (g name latch).2).getD [] ++
        Latch.notesOf name ((latches.stepAll g).1.get? name) rest := by
    intro name
    rw [Latches.get?_stepAll, ← hnotes name, ← hfollow]
    rfl
  have hswept := Relayed.sweep hsplit hearlier
    (fun _ hmem => absurd hmem List.not_mem_nil) hrest
  rwa [List.append_nil] at hswept

/-- Closing sessions relays what the latches answer on it. -/
theorem closeAll_relayed (machine : Machine) (closed : List SessionId) :
    Relayed LatchOp.awaitKind
      (fun name => Latch.notesOf name (machine.latches.get? name) (closed.map .sessionClosed))
      (machine.closeAll closed).2 := by
  induction closed generalizing machine with
  | nil => exact .of_silence fun _ => rfl
  | cons session rest ih =>
    exact relayed_sweep (.sessionClosed session) (fun _ _ => rfl) (fun _ _ => rfl)
      (kind_of_semaphores_note fun semaphore => semaphore.closeSession_parkedCalls session)
      (ih ({ machine with
        sessions := machine.sessions.without session }.releaseSession session).1)

/-- Timeouts relay what the latches answer on them. -/
theorem expireWaitKeys_relayed (machine : Machine) (uids : List InvocationUid) :
    Relayed LatchOp.awaitKind
      (fun name => Latch.notesOf name (machine.latches.get? name) (uids.map .timedOut))
      (machine.expireWaitKeys uids).2 := by
  induction uids generalizing machine with
  | nil => exact .of_silence fun _ => rfl
  | cons uid rest ih =>
    exact relayed_sweep (.timedOut uid) (fun _ _ => rfl) (fun _ _ => rfl)
      (kind_of_semaphores_note fun semaphore => semaphore.expireWaiter_parkedCalls uid)
      (ih (machine.expireWaitKey uid).1)

/-- An operation relays what the latches answer on its events. -/
theorem execute_relayed (machine : Machine) (operation : Operation) (invocation : Invocation)
    (now : Millis) :
    Relayed LatchOp.awaitKind
      (fun name => Latch.notesOf name (machine.latches.get? name)
        (machine.operationEvents operation invocation now .latch name (latchCall? name)))
      (machine.execute operation invocation now).notes := by
  cases operation with
  | session op =>
    cases op with
    | create endpoint => exact .of_silence fun _ => rfl
    | generateThreadId => exact .of_silence fun _ => rfl
    | heartbeat session =>
      simp only [execute, applySession]
      split <;> exact .of_silence fun _ => rfl
    | close session =>
      rw [execute, applySession_close]
      exact closeAll_relayed machine _
  | atomicRef named op => cases op <;> exact .of_silence fun _ => rfl
  | semaphore named op =>
    refine .of_nothing (fun _ => rfl) fun note hmem => ?_
    cases hread : op.isReadOnly with
    | true =>
      simp only [execute, Semaphores.apply, hread, if_true] at hmem
      cases hmem
    | false =>
      simp only [execute, Semaphores.apply, hread, Bool.false_eq_true, if_false] at hmem
      -- A semaphore answers acquires alone, and those are no awaits.
      rcases Semaphore.step_parkedCalls machine.semaphores.overdraft
          (machine.semaphores.byName.getD named {}) op invocation now with
        hkept | ⟨uid, -, -, -, hnotes, -⟩
      · exact kind_of_semaphore_note hkept hmem
      · rw [hnotes] at hmem
        cases hmem
  | expireWaitKeys uids => exact expireWaitKeys_relayed machine uids
  | expireSessions sessions =>
    simp only [execute, expireSessions_eq]
    exact closeAll_relayed machine _
  | destroy kind named =>
    cases kind with
    | atomicRef => exact .of_silence fun _ => rfl
    | semaphore =>
      refine .of_nothing (fun _ => rfl) fun note hmem => ?_
      simp only [execute, destroy, Semaphores.destroy] at hmem
      split at hmem
      · cases hmem
      · obtain ⟨waiter, -, rfl⟩ := List.mem_map.mp hmem
        simp [AcquireWaiter.answer, LatchOp.awaitKind, SemaphoreOp.acquireKind]
    | latch =>
      have hnotes : (machine.execute (.destroy .latch named) invocation now).notes =
          Latch.notesOf named (machine.latches.get? named)
            (machine.operationEvents (.destroy .latch named) invocation now .latch named
              (latchCall? named)) := by
        simp only [execute, destroy, Latches.destroy, operationEvents, and_self, if_true,
          Latch.notesOf_singleton, Latch.notesAt]
        cases machine.latches.get? named <;> rfl
      rw [hnotes]
      refine .of_one named fun other hother => ?_
      simp only [operationEvents, hother, and_false, if_false]
      rfl
  | latch named op =>
    cases hread : op.isReadOnly with
    | true =>
      simp only [execute, Latches.apply_of_readOnly _ _ hread]
      refine .of_silence fun name => ?_
      simp only [operationEvents, latchCall?, hread, Bool.true_eq_false, and_false, if_false,
        closings]
      rfl
    | false =>
      have hnotes : (machine.execute (.latch named op) invocation now).notes =
          Latch.notesOf named (machine.latches.get? named)
            (machine.operationEvents (.latch named op) invocation now .latch named
              (latchCall? named)) := by
        simp only [execute, Latches.apply_eq _ _ hread, operationEvents, latchCall?, hread,
          and_self, if_true, Latch.notesOf_singleton]
        rfl
      rw [hnotes]
      refine .of_one named fun other hother => ?_
      simp only [operationEvents, latchCall?, hother, false_and, if_false, closings]
      rfl

/-- The notifications to parked awaits are those that the step's events give at the latches. -/
theorem apply_relayed (machine : Machine) (command : Command) :
    Relayed LatchOp.awaitKind (fun name => machine.latchNotes name command)
      (machine.apply command).notes := by
  cases hexecutes : machine.executes command with
  | false =>
    obtain ⟨result, happly, -⟩ := apply_of_not_executes hexecutes
    rw [happly]
    refine .of_silence fun name => ?_
    rw [latchNotes, latchEvents, hexecutes]
    rfl
  | true =>
    rw [apply_of_executes hexecutes]
    simp only [latchNotes, latchEvents, hexecutes, if_true]
    exact execute_relayed machine _ _ _

/-- An operation is at most one call at an object. -/
theorem countP_operationEvents {Op : Type} (machine : Machine) (operation : Operation)
    (invocation : Invocation) (now : Millis) (kind : ObjectKind) (name : String)
    (call? : Operation → Option Op) :
    (machine.operationEvents operation invocation now kind name call?).countP
      ObjectEvent.isCall ≤ 1 := by
  have hnone : ∀ events : List (ObjectEvent Op), (∀ event ∈ events, event.isCall = false) →
      events.countP ObjectEvent.isCall ≤ 1 := by
    intro events hcalls
    rw [List.countP_eq_zero.mpr fun event hmem => by simp [hcalls event hmem]]
    exact Nat.zero_le 1
  unfold operationEvents
  split
  · split <;> exact hnone _ (by simp [ObjectEvent.isCall])
  · exact hnone _ (by simp [ObjectEvent.isCall])
  · split
    · exact Nat.le_refl 1
    · exact hnone _ (by simp [ObjectEvent.isCall])

/-- A log calls a latch at most as often as it has commands. -/
theorem countP_latchHistory_le (machine : Machine) (name : String) (log : List Command) :
    (machine.latchHistory name log).countP ObjectEvent.isCall ≤ log.length := by
  refine countP_collect_le (fun machine command => ?_) machine log
  unfold latchEvents
  split
  · exact countP_operationEvents machine _ _ _ _ name _
  · exact Nat.zero_le 1

/-- A call waits at the named latch in a round that goes on. -/
def AwaitsRound (machine : Machine) (name : String) (round : UInt64) (call : ParkedCall) : Prop :=
  ∃ latch, machine.latches.get? name = some latch ∧ latch.AwaitsIn round call

/-- A command counts the named latch down to the end of a round. -/
structure EndsRound (machine : Machine) (name : String) (round : UInt64) (command : Command) :
    Prop where
  countDown : command.operation = .latch name .countDown
  executed : machine.executes command = true
  last : ∃ latch, machine.latches.get? name = some latch ∧ latch.round = round ∧
    latch.count = 1 ∧ (machine.apply command).state.latches.get? name =
      some { latch with count := 0, owner := none, waiters := [] }

/-- A latch grants an await when a command ends its round, and at no other time. -/
theorem endsRound_of_granted {machine : Machine} {name : String} {command : Command}
    {note : Notification} (hmem : note ∈ machine.latchNotes name command)
    (hgranted : note.result = .ok (.bool true)) {latch : Latch}
    (hget : machine.latches.get? name = some latch) :
    machine.EndsRound name latch.round command := by
  obtain ⟨event, hevent, before?, hnote⟩ := Latch.exists_event_of_note hmem
  obtain ⟨-, invocation, now, -, rfl, -⟩ := Latch.opens_of_granted hnote hgranted
  obtain ⟨hoperation, -⟩ := call_of_mem_latchEvents hevent
  have hexecutes : machine.executes command = true := executes_of_mem_latchEvents hevent
  have hevents : machine.latchEvents command name =
      [.call .countDown command.invocation command.timestamp] :=
    latchEvents_of_call hoperation rfl hexecutes
  rw [latchNotes, hevents, Latch.notesOf_singleton, hget] at hmem
  obtain ⟨found, -, -, hfound, -, hlast, -, hafter⟩ := Latch.opens_of_granted hmem hgranted
  obtain rfl := Option.some.inj hfound
  refine ⟨hoperation, hexecutes, latch, hget, rfl, hlast, ?_⟩
  rw [apply_latch, hevents, hget]
  exact congrArg some hafter

/-- A call that waits in a round waits while the round goes on, or the latch answers it; a command
    that grants it, or any other call, with it ends the very round. -/
theorem AwaitsRound.fate {machine : Machine} {name : String} {round : UInt64} {call : ParkedCall}
    (h : machine.AwaitsRound name round call) (log : List Command) :
    (machine.replay log).AwaitsRound name round call ∨
      ∃ earlier command rest note, log = earlier ++ command :: rest ∧
        (machine.replay earlier).AwaitsRound name round call ∧
        note ∈ (machine.replay earlier).latchNotes name command ∧ note.call = call ∧
        ∀ granting ∈ (machine.replay earlier).latchNotes name command,
          granting.result = .ok (.bool true) →
            (machine.replay earlier).EndsRound name round command := by
  induction log generalizing machine with
  | nil => exact .inl h
  | cons command rest ih =>
    obtain ⟨latch, hget, hwaits⟩ := h
    rcases Latch.fate_of_events hwaits name (machine.latchEvents command name) with
      ⟨after, hafter, hstill⟩ | ⟨note, hnote, hcall⟩
    · have hnext : (machine.apply command).state.AwaitsRound name round call :=
        ⟨after, by rw [apply_latch, hget, hafter], hstill⟩
      refine (ih hnext).imp_right ?_
      rintro ⟨earlier, other, later, note, hsplit, hanswered⟩
      exact ⟨command :: earlier, other, later, note, by rw [hsplit, List.cons_append], hanswered⟩
    · have hmem : note ∈ machine.latchNotes name command := by rwa [latchNotes, hget]
      refine .inr ⟨[], command, rest, note, rfl, ⟨latch, hget, hwaits⟩, hmem, hcall, ?_⟩
      intro granting hgranting hgranted
      exact hwaits.round_eq ▸ endsRound_of_granted hgranting hgranted hget

/-- In every replica latches are in order, and open ones have no owner. -/
theorem latch_orderly {options : MachineOptions} {log : List Command} {name : String}
    {latch : Latch} (h : (run options log).latches.get? name = some latch) :
    latch.Orderly ∧ latch.Unowned := by
  have hhistory := replay_latch (new options) log name
  exact ObjectEvent.follow_induction (P := fun latch : Latch => latch.Orderly ∧ latch.Unowned)
    ⟨Latch.orderly_new, Latch.unowned_new⟩
    (fun event _ _ hbefore => ⟨hbefore.1.react name event, hbefore.2.react name event⟩)
    (by intro latch hget; cases hget) (hhistory.symm.trans h)

/-- The rounds of any latch after any log. An open latch has no owner and no awaiters, and no token
    is parked twice. The chronicle of the latch's life since it was last created has as many rounds
    as the latch says; each started when nothing was left, the count is what is left of the latest
    one, and all others were counted down to their end. A call that waits in a round waits while
    that round goes on or is answered, and a command that grants it, or any call beside it, is the
    countdown that ends that very round. The notifications to awaits are those that the latches
    give, and every grant among those of this latch ends the round. -/
theorem rounds_chronicled (options : MachineOptions) (log : List Command) (name : String)
    (latch : Latch) (h : (run options log).latches.get? name = some latch) :
    (latch.count = 0 → latch.owner = none ∧ latch.waiters = []) ∧
      (latch.waiters.map AwaitWaiter.uid).Nodup ∧
      (∃ rounds,
        Latch.chronicleOf name ((new options).latchHistory name log) = some (latch, rounds) ∧
        latch.Chronicled rounds ∧
        (log.length < UInt64.size → latch.round.toNat = rounds.length)) ∧
      (∀ call ∈ latch.parkedCalls, ∀ later,
        (run options (log ++ later)).AwaitsRound name latch.round call ∨
        ∃ earlier command rest note, later = earlier ++ command :: rest ∧
          (run options (log ++ earlier)).AwaitsRound name latch.round call ∧
          note ∈ (run options (log ++ earlier)).latchNotes name command ∧ note.call = call ∧
          ∀ granting ∈ (run options (log ++ earlier)).latchNotes name command,
            granting.result = .ok (.bool true) →
              (run options (log ++ earlier)).EndsRound name latch.round command) ∧
      ∀ command, Relayed LatchOp.awaitKind
          (fun other => (run options log).latchNotes other command)
          ((run options log).apply command).notes ∧
        ∀ granting ∈ (run options log).latchNotes name command,
          granting.result = .ok (.bool true) →
            (run options log).EndsRound name latch.round command := by
  obtain ⟨horderly, hunowned⟩ := latch_orderly h
  refine ⟨fun hopen => ⟨hunowned hopen, horderly.awaited hopen⟩, horderly.distinct, ?_, ?_,
    fun command => ⟨apply_relayed _ command,
      fun granting hmem hgranted => endsRound_of_granted hmem hgranted h⟩⟩
  · have hhistory := replay_latch (new options) log name
    have hmap := Latch.map_chronicleOf name ((new options).latchHistory name log)
    obtain ⟨⟨found, rounds⟩, hchronicle, rfl⟩ := Option.map_eq_some_iff.mp
      (hmap.trans (hhistory.symm.trans h))
    have hchronicled := Latch.chronicled_of_chronicleOf hchronicle
    have hlength := Latch.length_rounds_le hchronicle
    have hcalls := countP_latchHistory_le (new options) name log
    refine ⟨rounds, hchronicle, hchronicled, fun hlog => ?_⟩
    have hfew : rounds.length < UInt64.size := by
      simp only [Option.map_none, Option.getD_none] at hlength
      omega
    rw [hchronicled.round_eq]
    exact UInt64.toNat_ofNat_of_lt' hfew
  · intro call hcall later
    have hwaits : (run options log).AwaitsRound name latch.round call :=
      ⟨latch, h, horderly.awaitsIn hcall⟩
    simp only [run_append]
    exact hwaits.fate later

/-- The second round of a latch goes on: one countdown is left, and a session waits for it. -/
def awaitedLog : List Command :=
  let gate (op : LatchOp) : Command := { operation := .latch "gate" op }
  [{ operation := .session (.create "a") }, gate (.trySetCount 1), gate .countDown,
    gate (.trySetCount 2), gate .countDown,
    { gate (.await none) with invocation := { session := some 1, uid := some (.ofNat 7) } }]

/-- A call waits in the second round of a latch, and its fate is as told. -/
theorem awaited_rounds_chronicled :
    let options : MachineOptions := { sessionTtl := 10, dedupCapacity := 4, overdraft := true }
    let machine := run options awaitedLog
    let call : ParkedCall := ⟨LatchOp.awaitKind, .ofNat 7, some 1⟩
    ∃ latch rounds, machine.latches.get? "gate" = some latch ∧ latch.round.toNat = 2 ∧
      latch.count = 1 ∧ call ∈ latch.parkedCalls ∧
      Latch.chronicleOf "gate" ((new options).latchHistory "gate" awaitedLog) =
        some (latch, rounds) ∧
      latch.Chronicled rounds ∧ latch.round.toNat = rounds.length ∧
      ∀ later, (run options (awaitedLog ++ later)).AwaitsRound "gate" latch.round call ∨
        ∃ earlier command rest note, later = earlier ++ command :: rest ∧
          (run options (awaitedLog ++ earlier)).AwaitsRound "gate" latch.round call ∧
          note ∈ (run options (awaitedLog ++ earlier)).latchNotes "gate" command ∧
          note.call = call ∧
          ∀ granting ∈ (run options (awaitedLog ++ earlier)).latchNotes "gate" command,
            granting.result = .ok (.bool true) →
              (run options (awaitedLog ++ earlier)).EndsRound "gate" latch.round command := by
  intro options machine call
  have hround : (machine.latches.get? "gate").map
      (fun latch => (latch.round.toNat, latch.count, latch.parkedCalls)) =
        some (2, 1, [call]) := by
    decide +kernel
  obtain ⟨latch, hlatch, hfields⟩ := Option.map_eq_some_iff.mp hround
  simp only [Prod.mk.injEq] at hfields
  obtain ⟨hsecond, hcount, hparked⟩ := hfields
  have hcall : call ∈ latch.parkedCalls := hparked ▸ List.mem_singleton_self call
  obtain ⟨-, -, ⟨rounds, hchronicle, hchronicled, hlength⟩, hfate, -⟩ :=
    rounds_chronicled options awaitedLog "gate" latch hlatch
  exact ⟨latch, rounds, hlatch, hsecond, hcount, hcall, hchronicle, hchronicled,
    hlength (by decide), hfate call hcall⟩

end Quorum.Machine
