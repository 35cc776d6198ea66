import Quorum.Proofs.Machine.Custody
import Quorum.Proofs.Machine.Expiry
import Quorum.Proofs.Machine.Record
import Quorum.Proofs.Machine.Rounds

namespace Quorum

/-- A session that can be closed is open. -/
theorem SessionRegistry.isActive_of_mem_closable {registry : SessionRegistry}
    {pairs : List (SessionId × UInt64)} {id : SessionId} (h : id ∈ registry.closable pairs) :
    registry.isActive id = true := by
  induction pairs generalizing registry with
  | nil => cases h
  | cons pair rest ih =>
    rw [closable_cons] at h
    split at h
    · rename_i hversion
      rcases List.mem_cons.mp h with rfl | hlater
      · obtain ⟨session, hget, -⟩ := (Option.any_eq_true _ _).mp hversion
        exact Option.isSome_iff_exists.mpr ⟨session, hget⟩
      · exact ((registry.isActive_without pair.1 id).mp (ih hlater)).1
    · exact ih h

namespace Latch

/-- The first of several closings, followed by the others. -/
theorem closings_cons {latch after : Latch} {notes : List Notification} {name : String}
    {first : SessionId} (h : latch.releaseOwner name first = (after, notes))
    (rest : List SessionId) :
    ((first :: rest).map .sessionClosed).foldl (ObjectEvent.follow {} (react name)) (some latch) =
        (rest.map .sessionClosed).foldl (ObjectEvent.follow {} (react name)) (some after) ∧
      notesOf name (some latch) ((first :: rest).map .sessionClosed) =
        notes ++ notesOf name (some after) (rest.map .sessionClosed) := by
  have hfollow : ObjectEvent.follow {} (react name) (some latch) (.sessionClosed first) =
      some after := by
    change some (latch.releaseOwner name first).1 = some after
    rw [h]
  have hnotes : notesAt name (some latch) (.sessionClosed first) = notes := by
    change (latch.releaseOwner name first).2 = notes
    rw [h]
  rw [List.map_cons, List.foldl_cons, hfollow, notesOf, ObjectEvent.replies, hnotes, hfollow]
  exact ⟨rfl, rfl⟩

/-- Where no session that closes owns the round, nothing happens. -/
theorem closings_of_unowned {latch : Latch} {closed : List SessionId}
    (h : ∀ session ∈ closed, latch.owner ≠ some session) (name : String) :
    (closed.map .sessionClosed).foldl (ObjectEvent.follow {} (react name)) (some latch) =
        some latch ∧
      notesOf name (some latch) (closed.map .sessionClosed) = [] := by
  induction closed with
  | nil => exact ⟨rfl, rfl⟩
  | cons first rest ih =>
    have hkept : latch.releaseOwner name first = (latch, []) := if_neg (h first List.mem_cons_self)
    obtain ⟨hafter, hnotes⟩ := closings_cons hkept rest
    obtain ⟨hrest, hsilent⟩ := ih fun session hmem => h session (List.mem_cons_of_mem _ hmem)
    exact ⟨hafter.trans hrest, hnotes.trans hsilent⟩

/-- If a session that closes owns the round, its awaiters are failed, whoever they are. -/
theorem closings_of_owned {latch : Latch} {closed : List SessionId} {owner : SessionId}
    (howner : latch.owner = some owner) (hmem : owner ∈ closed) (name : String) :
    (closed.map .sessionClosed).foldl (ObjectEvent.follow {} (react name)) (some latch) =
        some { latch with owner := none, waiters := [] } ∧
      notesOf name (some latch) (closed.map .sessionClosed) =
        latch.waiters.map fun waiter =>
          waiter.answer (.error (.ownerDisconnected name owner)) := by
  induction closed with
  | nil => cases hmem
  | cons first rest ih =>
    by_cases hfirst : latch.owner = some first
    · obtain rfl : first = owner := Option.some.inj (hfirst.symm.trans howner)
      have hreleased : latch.releaseOwner name first =
          ({ latch with owner := none, waiters := [] }, latch.waiters.map fun waiter =>
            waiter.answer (.error (.ownerDisconnected name first))) := if_pos hfirst
      obtain ⟨hafter, hnotes⟩ := closings_cons hreleased rest
      -- The round has no owner any more, so the sessions that close next do not matter.
      have hunowned : ∀ session ∈ rest,
          ({ latch with owner := none, waiters := [] } : Latch).owner ≠ some session := by
        simp
      obtain ⟨hrest, hsilent⟩ := closings_of_unowned hunowned name
      rw [hsilent, List.append_nil] at hnotes
      exact ⟨hafter.trans hrest, hnotes⟩
    · have hkept : latch.releaseOwner name first = (latch, []) := if_neg hfirst
      obtain ⟨hafter, hnotes⟩ := closings_cons hkept rest
      have hlater : owner ∈ rest := by
        refine (List.mem_cons.mp hmem).resolve_left fun heq => hfirst ?_
        rw [← heq, howner]
      obtain ⟨hrest, hfailed⟩ := ih hlater
      exact ⟨hafter.trans hrest, hnotes.trans hfailed⟩

end Latch

namespace Machine

/-- The sessions that a command closes, in order. -/
def departures (machine : Machine) (command : Command) : List SessionId :=
  if machine.executes command then machine.closings command.operation else []

section Departing

variable {machine : Machine} {command : Command} {session : SessionId}

/-- Sessions depart only as a command is executed. -/
theorem executes_of_departures (h : machine.departures command ≠ []) :
    machine.executes command = true := by
  by_contra hnot
  exact h (if_neg hnot)

theorem departures_of_executes (h : machine.executes command = true) :
    machine.departures command = machine.closings command.operation := if_pos h

/-- A session that an operation closes is open. -/
theorem isActive_of_mem_closings {operation : Operation} (h : session ∈ machine.closings operation) :
    machine.sessions.isActive session = true := by
  unfold closings at h
  split at h
  · split at h
    · rename_i hopen
      rwa [List.mem_singleton.mp h]
    · cases h
  · exact SessionRegistry.isActive_of_mem_closable h
  · cases h

/-- A session that does not depart stays open. -/
theorem apply_isActive_of_kept (hopen : machine.sessions.isActive session = true)
    (hkept : session ∉ machine.departures command) :
    (machine.apply command).state.sessions.isActive session = true := by
  cases hexecutes : machine.executes command with
  | false =>
    obtain ⟨result, happly, -⟩ := apply_of_not_executes hexecutes
    rwa [happly]
  | true =>
    rw [departures_of_executes hexecutes] at hkept
    rw [apply_isActive_of_executes hexecutes]
    exact execute_isActive hopen hkept _ _

/-- A command closes the sessions that are open before it and not after it. -/
theorem mem_departures_iff : session ∈ machine.departures command ↔
    machine.sessions.isActive session = true ∧
      (machine.apply command).state.sessions.isActive session = false := by
  constructor
  · intro hmem
    have hexecutes := executes_of_departures (List.ne_nil_of_mem hmem)
    rw [departures_of_executes hexecutes] at hmem
    refine ⟨isActive_of_mem_closings hmem, ?_⟩
    rw [apply_isActive_of_executes hexecutes]
    exact execute_isActive_of_closing hmem _ _
  · rintro ⟨hopen, hclosed⟩
    by_contra hkept
    rw [apply_isActive_of_kept hopen hkept] at hclosed
    cases hclosed

/-- A command that closes sessions parks nobody. -/
theorem newcomer_of_departures (h : machine.departures command ≠ []) :
    machine.newcomer command = none := by
  have hparks : ¬ command.operation.Parks := by
    intro hparks
    rw [departures_of_executes (executes_of_departures h)] at h
    rcases hparks with hacquire | hawait
    · obtain ⟨name, permits, timeout, hoperation⟩ := Operation.eq_acquire_of_kind hacquire
      rw [hoperation] at h
      exact h rfl
    · obtain ⟨name, timeout, hoperation⟩ := Operation.eq_await_of_kind hawait
      rw [hoperation] at h
      exact h rfl
  rw [newcomer, queueOf?_of_not_parks hparks]
  rfl

/-- To a latch, a command that closes sessions is their closing and nothing else. -/
theorem latchEvents_of_departures (h : machine.departures command ≠ []) (name : String) :
    machine.latchEvents command name = (machine.departures command).map .sessionClosed := by
  have hexecutes := executes_of_departures h
  rw [departures_of_executes hexecutes] at h ⊢
  rw [latchEvents, if_pos hexecutes]
  exact (operationEvents_of_closing machine _ _ _ _ name
    fun _ hop => closings_of_latchCall hop).resolve_left h

/-- An acquire that is parked under a session which closes is answered, as often as it is parked. -/
theorem count_answered_acquires (hsettled : machine.Settled)
    (hmem : session ∈ machine.departures command) {call : ParkedCall}
    (hkind : call.kind = SemaphoreOp.acquireKind) (hsession : call.session = some session) :
    (machine.apply command).state.parkedCount call = 0 ∧
      ((machine.apply command).notes.map Notification.call).count call =
        machine.parkedCount call := by
  have hclosed := (mem_departures_iff.mp hmem).2
  have hnone : (machine.apply command).state.parkedCount call = 0 := by
    by_contra hparked
    rcases Nat.add_pos_iff_pos_or_pos.mp (Nat.pos_of_ne_zero hparked) with hsemaphores | hlatches
    · obtain ⟨name, semaphore, hget, hcall⟩ := exists_of_parkedIn_pos hsemaphores
      obtain ⟨waiter, hwaiter, rfl⟩ := List.mem_map.mp hcall
      rw [hsettled.apply command session (.acquire hget ⟨waiter, hwaiter, hsession⟩)] at hclosed
      cases hclosed
    · obtain ⟨name, latch, -, hcall⟩ := exists_of_parkedIn_pos hlatches
      rw [latch.kind_of_parked call hcall] at hkind
      simp [LatchOp.awaitKind, SemaphoreOp.acquireKind] at hkind
  have hconserved := machine.apply_parkedCount command call
  rw [hnone, newcomer_of_departures (List.ne_nil_of_mem hmem)] at hconserved
  exact ⟨hnone, (Nat.zero_add _).symm.trans hconserved⟩

/-- What closings do at a latch, by who owns the round. -/
theorem apply_latch_of_departures {name : String} {latch : Latch}
    (hget : machine.latches.get? name = some latch) (hdepart : machine.departures command ≠ []) :
    (∀ owner ∈ machine.departures command, latch.owner = some owner →
      (machine.apply command).state.latches.get? name =
          some { latch with owner := none, waiters := [] } ∧
        machine.latchNotes name command = latch.waiters.map fun waiter =>
          waiter.answer (.error (.ownerDisconnected name owner))) ∧
      ((∀ owner ∈ machine.departures command, latch.owner ≠ some owner) →
        (machine.apply command).state.latches.get? name = some latch ∧
          machine.latchNotes name command = []) := by
  rw [apply_latch, latchNotes, latchEvents_of_departures hdepart, hget]
  exact ⟨fun owner hmem howner => Latch.closings_of_owned howner hmem name,
    fun hunowned => Latch.closings_of_unowned hunowned name⟩

/-- An await that is parked after a command was parked before it, or its caller made it. -/
theorem mem_waiters_of_apply {name : String} {latch : Latch}
    (hget : (machine.apply command).state.latches.get? name = some latch) {waiter : AwaitWaiter}
    (hmem : waiter ∈ latch.waiters) :
    (∃ before, machine.latches.get? name = some before ∧ waiter ∈ before.waiters) ∨
      machine.executes command = true ∧ machine.departures command = [] ∧
        waiter.session = command.invocation.session := by
  rw [apply_latch] at hget
  refine ObjectEvent.follow_induction (P := fun latch : Latch => ∀ waiter ∈ latch.waiters,
    (∃ before, machine.latches.get? name = some before ∧ waiter ∈ before.waiters) ∨
      machine.executes command = true ∧ machine.departures command = [] ∧
        waiter.session = command.invocation.session)
    (fun _ hnew => by cases hnew) ?_ (fun before hbefore _ hwaiter => .inl ⟨before, hbefore, hwaiter⟩)
    hget waiter hmem
  intro event hevent current hcurrent waiter hwaiter
  rcases Latch.react_waiters name current event with
    hsub | ⟨invocation, timeout, now, uid, rfl, huid, -, -, -, hafter⟩
  · exact hcurrent waiter (hsub.subset hwaiter)
  · rw [hafter] at hwaiter
    rcases List.mem_append.mp hwaiter with hold | hnew
    · exact hcurrent waiter hold
    · obtain ⟨hoperation, rfl⟩ := call_of_mem_latchEvents hevent
      have hexecutes : machine.executes command = true := executes_of_mem_latchEvents hevent
      refine .inr ⟨hexecutes, ?_, ?_⟩
      · rw [departures_of_executes hexecutes, hoperation]
        rfl
      · rw [List.mem_singleton.mp hnew]
        rfl

end Departing

/-- A command closes the session of a parked await and leaves the await parked, for it closes no
    owner of the round. -/
structure Forgets (machine : Machine) (command : Command) (name : String) (waiter : AwaitWaiter)
    (session : SessionId) : Prop where
  departs : session ∈ machine.departures command
  parked : ∃ latch, machine.latches.get? name = some latch ∧ waiter ∈ latch.waiters ∧
    ∀ owner ∈ machine.departures command, latch.owner ≠ some owner

/-- A parked await belongs to an open session, or it was forgotten when its session was closed. -/
theorem awaits_attended (options : MachineOptions) (log : List Command) {name : String}
    {latch : Latch} (hget : (run options log).latches.get? name = some latch)
    {waiter : AwaitWaiter} (hmem : waiter ∈ latch.waiters) {session : SessionId}
    (hsession : waiter.session = some session) :
    (run options log).sessions.isActive session = true ∨
      ∃ earlier command later, log = earlier ++ command :: later ∧
        (run options earlier).Forgets command name waiter session := by
  refine run_induction (P := fun log machine => ∀ latch,
    machine.latches.get? name = some latch → waiter ∈ latch.waiters →
    machine.sessions.isActive session = true ∨
      ∃ earlier command later, log = earlier ++ command :: later ∧
        (run options earlier).Forgets command name waiter session) ?_ ?_ log latch hget hmem
  · intro latch hnone
    cases hnone
  intro log command ih after hafter hwaiter
  rcases mem_waiters_of_apply hafter hwaiter with
    ⟨before, hbefore, hparked⟩ | ⟨hexecutes, hstay, hcaller⟩
  · rcases ih before hbefore hparked with hopen | ⟨earlier, other, later, hlog, hforgets⟩
    · by_cases hdeparts : session ∈ (run options log).departures command
      · refine .inr ⟨log, command, [], rfl, hdeparts, before, hbefore, hparked, ?_⟩
        intro owner hmem howner
        obtain ⟨hreleased, -⟩ :=
          (apply_latch_of_departures hbefore (List.ne_nil_of_mem hdeparts)).1 owner hmem howner
        obtain rfl := Option.some.inj (hafter.symm.trans hreleased)
        cases hwaiter
      · exact .inl (apply_isActive_of_kept hopen hdeparts)
    · refine .inr ⟨earlier, other, later ++ [command], ?_, hforgets⟩
      rw [hlog, List.append_assoc, List.cons_append]
  · have hopen : (run options log).sessions.isActive session = true :=
      (executes_iff.mp hexecutes).1 session (hcaller.symm.trans hsession)
    exact .inl (apply_isActive_of_kept hopen (by rw [hstay]; exact List.not_mem_nil))

/-- Which parked calls are answered when their session closes. After any log every parked acquire
    that was made under a session belongs to an open one. A parked await does, too, or a command of
    the log closed its session and no owner of the round, and left it parked. Whatever command comes
    next: the sessions that it closes are those that are open before it and not after it; it answers
    the acquires that are parked under them, each as often as it is parked; of the awaits it
    answers those that are parked at latches which one of these sessions owns, all of them, with
    the owner's disconnection, and no others. -/
theorem parked_beyond_departure (options : MachineOptions) (log : List Command) :
    let machine := run options log
    (∀ name semaphore, machine.semaphores.get? name = some semaphore →
      ∀ waiter ∈ semaphore.waiters, ∀ session, waiter.session = some session →
        machine.sessions.isActive session = true) ∧
    (∀ name latch, machine.latches.get? name = some latch →
      ∀ waiter ∈ latch.waiters, ∀ session, waiter.session = some session →
        machine.sessions.isActive session = true ∨
          ∃ earlier command later, log = earlier ++ command :: later ∧
            (run options earlier).Forgets command name waiter session) ∧
    ∀ command,
      let closed := machine.departures command
      let step := machine.apply command
      (∀ session, session ∈ closed ↔ machine.sessions.isActive session = true ∧
        step.state.sessions.isActive session = false) ∧
      (∀ call session, call.kind = SemaphoreOp.acquireKind → call.session = some session →
        session ∈ closed → step.state.parkedCount call = 0 ∧
          (step.notes.map Notification.call).count call = machine.parkedCount call) ∧
      (closed ≠ [] → ∀ name latch, machine.latches.get? name = some latch →
        (∀ owner ∈ closed, latch.owner = some owner →
          step.state.latches.get? name = some { latch with owner := none, waiters := [] } ∧
            machine.latchNotes name command = latch.waiters.map fun waiter =>
              waiter.answer (.error (.ownerDisconnected name owner))) ∧
          ((∀ owner ∈ closed, latch.owner ≠ some owner) →
            step.state.latches.get? name = some latch ∧
              machine.latchNotes name command = [])) ∧
      Relayed LatchOp.awaitKind (fun name => machine.latchNotes name command) step.notes := by
  intro machine
  have hsettled : machine.Settled := settled_run options log
  refine ⟨?_, ?_, fun command => ⟨fun session => mem_departures_iff, ?_, ?_, ?_⟩⟩
  · intro name semaphore hget waiter hmem session hsession
    exact hsettled session (.acquire hget ⟨waiter, hmem, hsession⟩)
  · intro name latch hget waiter hmem session hsession
    exact awaits_attended options log hget hmem hsession
  · intro call session hkind hsession hmem
    exact count_answered_acquires hsettled hmem hkind hsession
  · intro hdepart name latch hget
    exact apply_latch_of_departures hget hdepart
  · exact apply_relayed machine command

/-- A session waits at a latch without an owner, and for a permit, and then it is closed. Its
    acquire is refused, and its await stays parked without a limit. -/
theorem await_of_closed_session_parked :
    let options : MachineOptions := { sessionTtl := 10000, dedupCapacity := 4, overdraft := false }
    let under (uid : Nat) (operation : Operation) : Command :=
      { invocation := { session := some 1, uid := some (.ofNat uid) }, operation }
    let log : List Command := [{ operation := .session (.create "a") },
      { operation := .session (.create "b") }, { operation := .latch "gate" (.trySetCount 1) },
      under 7 (.latch "gate" (.await none)), under 8 (.semaphore "permit" (.acquire 1 none))]
    let command : Command := { operation := .session (.close 1) }
    let machine := run options (log ++ [command])
    ((run options log).apply command).notes =
        [⟨.ofNat 8, some 1, SemaphoreOp.acquireKind, .error (.sessionExpired 1)⟩] ∧
      machine.sessions.isActive 1 = false ∧
      (machine.latches.get? "gate").map Latch.waiters =
        some [{ uid := .ofNat 7, session := some 1, deadline := none }] := by
  decide +kernel

end Machine

end Quorum
