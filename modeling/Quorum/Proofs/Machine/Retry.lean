import Mathlib.Data.List.Infix
import Quorum.Proofs.Machine.Tracked

namespace Quorum.Machine

/-- The caller of a call is its session, and open if that is. -/
theorem caller_isActive {machine : Machine} {command : Command} {call : SessionCall}
    (hcall : command.call? = some call)
    (hopen : machine.sessions.isActive call.session = true) (session : SessionId)
    (hcaller : command.invocation.session = some session) :
    machine.sessions.isActive session = true := by
  obtain ⟨hsession, -⟩ := Command.call?_eq_some_iff.mp hcall
  rw [hsession] at hcaller
  rw [← Option.some.inj hcaller]
  exact hopen

/-- A call whose answer is on record is answered from there, without effect. -/
theorem apply_of_onRecord {machine : Machine} {command : Command} {call : SessionCall}
    {value : Value} (hcall : command.call? = some call)
    (hopen : machine.sessions.isActive call.session = true)
    (h : machine.onRecord call = some value) :
    machine.apply command = { answer := .ok value, state := machine } := by
  refine apply_of_recorded (caller_isActive hcall hopen) ?_
  rw [recorded_eq, hcall]
  exact h

/-- A call of an open session that is not on record is executed. -/
theorem executes_of_onRecord_none {machine : Machine} {command : Command} {call : SessionCall}
    (hcall : command.call? = some call)
    (hopen : machine.sessions.isActive call.session = true) (h : machine.onRecord call = none) :
    machine.executes command = true := by
  refine executes_iff.mpr ⟨caller_isActive hcall hopen, ?_⟩
  rw [recorded_eq, hcall]
  exact h

/-- A call that no command of a log answers does not come on record. -/
theorem onRecord_replay {machine : Machine} {call : SessionCall} (h : machine.onRecord call = none)
    {log : List Command} (hnone : ∀ value, (call, value) ∉ machine.answersOver log) :
    (machine.replay log).onRecord call = none := by
  induction log generalizing machine with
  | nil => exact h
  | cons command rest ih =>
    refine ih (onRecord_apply h fun _ hmem => ?_) fun value hmem => ?_
    · obtain ⟨answer, hanswer, rfl⟩ := List.mem_map.mp hmem
      exact hnone answer.2 (List.mem_append_left _ hanswer)
    · exact hnone value (List.mem_append_right _ hmem)

/-- An answer stays on record through a log that keeps its session open and records few new keys. -/
theorem kept_replay {machine : Machine} {operation : Operation} {call : SessionCall} {value : Value}
    {younger : Nat} (h : machine.Kept call value younger)
    (htracked : machine.Tracked operation call) {log : List Command}
    (hsame : ∀ command ∈ log, command.call? = some call → command.operation = operation)
    (hopen : ∀ part, part <+: log →
      (machine.replay part).sessions.isActive call.session = true)
    (hfew : younger + (machine.newKeysOver log).countP (·.session = call.session) <
      machine.cache.capacity) :
    (machine.replay log).Kept call value
      (younger + (machine.newKeysOver log).countP (·.session = call.session)) := by
  induction log generalizing machine younger with
  | nil => exact h
  | cons command rest ih =>
    rw [newKeysOver, List.countP_append, ← Nat.add_assoc] at hfew ⊢
    have hfirst := kept_apply h (htracked.not_answered_of_onRecord h.onRecord)
      (hopen [command] (List.prefix_append [command] rest)) (by omega)
    refine ih hfirst (htracked.apply (hsame command List.mem_cons_self))
      (fun other hmem => hsame other (List.mem_cons_of_mem _ hmem)) (fun part hpart => ?_) ?_
    · exact hopen (command :: part) (List.cons_prefix_cons.mpr ⟨rfl, hpart⟩)
    · rw [apply_capacity]
      exact hfew

/-- An answer that is given for the first time comes out of an execution. -/
theorem executes_of_answered {machine : Machine} {command : Command} {call : SessionCall}
    {value : Value} (hnew : machine.onRecord call = none)
    (hanswer : (call, value) ∈ machine.answersOf command) : machine.executes command = true := by
  by_contra hexecutes
  obtain ⟨result, happly, hrecorded⟩ :=
    apply_of_not_executes (Bool.eq_false_iff.mpr hexecutes)
  have hmem := List.mem_map_of_mem (f := Prod.fst) hanswer
  rw [answersOf, happly, answersIn, List.filterMap_nil, List.append_nil] at hmem
  rcases count_ownAnswer command.call? (.done result) call with hown | ⟨hcall, ⟨own, hown⟩, -⟩
  · exact List.count_eq_zero.mp hown hmem
  · have hrecord := hrecorded own (Applied.done.inj hown)
    rw [recorded_eq, hcall, Option.bind_some, hnew] at hrecord
    cases hrecord

/-- Let every command of a log that makes a call be of the same operation, and let a command of the
    log give the call its first answer, be it to the caller or to the parked call. As long as the
    session stays open and fewer new keys of it than the capacity are recorded after the call's own,
    a retry gets this answer, answers nobody else and leaves the replica as it is. -/
theorem retry_answered_from_record (options : MachineOptions) (log rest : List Command)
    (command retry : Command) (call : SessionCall) (value : Value)
    (hretry : retry.call? = some call)
    (hsame : ∀ other ∈ log ++ command :: rest, other.call? = some call →
      other.operation = retry.operation)
    (hfirst : ∀ earlier, (call, earlier) ∉ (new options).answersOver log)
    (hanswer : (call, value) ∈ (run options log).answersOf command)
    (hopen : ∀ part, part <+: rest →
      (run options (log ++ command :: part)).sessions.isActive call.session = true)
    (hfew : (run options log).newKeysAfter call (command :: rest) < max options.dedupCapacity 1) :
    (run options (log ++ command :: rest)).apply retry =
      { answer := .ok value, state := run options (log ++ command :: rest) } := by
  have hcapacity := run_capacity options log
  have hbefore : (run options log).onRecord call = none := onRecord_replay rfl hfirst
  have htracked : (run options log).Tracked retry.operation call :=
    (tracked_new options retry.operation call).replay fun other hmem =>
      hsame other (List.mem_append_left _ hmem)
  have hcommand : command.call? = some call → command.operation = retry.operation :=
    hsame command (List.mem_append_right _ List.mem_cons_self)
  have hrest : ∀ other ∈ rest, other.call? = some call → other.operation = retry.operation :=
    fun other hmem => hsame other (List.mem_append_right _ (List.mem_cons_of_mem _ hmem))
  have hopenAfter := hopen [] List.nil_prefix
  rw [run_concat] at hopenAfter
  -- the step that answers the call answers it once
  have hexecutes := executes_of_answered hbefore hanswer
  have honce := (htracked.toPlaced.answered hcommand hexecutes).1
  obtain ⟨others, later, hanswers⟩ := List.append_of_mem hanswer
  have hcounts : (others.map (·.1)).count call = 0 ∧ (later.map (·.1)).count call = 0 := by
    rw [hanswers, List.map_append, List.count_append, List.map_cons, List.count_cons_self] at honce
    omega
  obtain ⟨earlierKeys, laterKeys, hkeys, hnotEarlier, -, hkept, -⟩ :=
    record_apply (matched_run options log) hexecutes hbefore hanswers
      (List.count_eq_zero.mp hcounts.1) (List.count_eq_zero.mp hcounts.2) hopenAfter (by omega)
  rw [newKeysAfter, newKeysOver, hkeys, List.append_assoc, List.cons_append,
    countAfter_append hnotEarlier, List.countP_append] at hfew
  -- from there on its answer ages by the new keys of the log
  have hstart := hkept (by omega)
  have hend := kept_replay hstart (htracked.apply hcommand) hrest
    (fun part hpart => by
      have hpartOpen := hopen part hpart
      rw [run_append] at hpartOpen
      exact hpartOpen)
    (by rw [apply_capacity]; omega)
  have hfinal : ((run options log).apply command).state.replay rest =
      run options (log ++ command :: rest) := (run_append options log (command :: rest)).symm
  rw [hfinal] at hend
  exact apply_of_onRecord hretry (hopen rest List.prefix_rfl) hend.onRecord

/-- A session's call of a semaphore, made by one of its threads. -/
def permitCall (thread : ThreadId) (uid : Nat) (op : SemaphoreOp) : Command :=
  { invocation := { session := some 1, thread, uid := some (.ofNat uid) }
    operation := .semaphore "permit" op }

/-- One thread of a session holds the only permit and another waits for it. -/
def wakingLog : List Command :=
  [{ operation := .session (.create "a") }, { operation := .semaphore "permit" (.init 1) },
    permitCall 1 1 (.acquire 1 none), permitCall 2 2 (.acquire 1 none)]

/-- The waiting thread is woken by the other, and asks again after a later call. -/
theorem woken_retry_answered_from_record :
    let options : MachineOptions := { sessionTtl := 10, dedupCapacity := 2, overdraft := false }
    let later : Command :=
      { invocation := { session := some 1, uid := some (.ofNat 4) }
        operation := .session .generateThreadId }
    let state := run options (wakingLog ++ [permitCall 1 3 (.release 1), later])
    state.apply (permitCall 2 2 (.acquire 1 none)) = { answer := .ok (.bool true), state } := by
  intro options later
  have hfirst : (⟨1, ⟨SemaphoreOp.acquireKind, .ofNat 2⟩⟩ : SessionCall) ∉
      ((new options).answersOver wakingLog).map (·.1) := by decide +kernel
  have hopen : ∀ part ∈ [later].inits,
      (run options (wakingLog ++ permitCall 1 3 (.release 1) :: part)).sessions.isActive 1 =
        true := by decide +kernel
  exact retry_answered_from_record options wakingLog [later] (permitCall 1 3 (.release 1))
    (permitCall 2 2 (.acquire 1 none)) ⟨1, ⟨SemaphoreOp.acquireKind, .ofNat 2⟩⟩ (.bool true)
    (by decide +kernel) (by decide +kernel) (fun _ hmem => hfirst (List.mem_map_of_mem hmem))
    (by decide +kernel) (fun part hpart => hopen part ((List.mem_inits part [later]).mpr hpart))
    (by decide +kernel)

/-- A caller that is answered by an execution is the first whose answer the step records. -/
theorem answersOf_of_own {machine : Machine} {command : Command} {call : SessionCall}
    {value : Value} (hcall : command.call? = some call)
    (hanswer : (machine.apply command).answer = .ok value) :
    ∃ woken, machine.answersOf command = (call, value) :: woken ∧ call ∉ woken.map (·.1) ∧
      ((machine.apply command).notes = [] → woken = []) := by
  refine ⟨(machine.apply command).notes.filterMap Notification.answer?, ?_, fun hmem => ?_,
    fun hquiet => ?_⟩
  · rw [answersOf, answersIn, hcall, hanswer]
    rfl
  · have hcount := count_answers_le (machine.apply command).notes call
    have hnoted := List.count_eq_zero.mpr (not_noted_of_own machine hcall)
    have hpos := List.count_pos_iff.mpr hmem
    omega
  · rw [hquiet]
    rfl

/-- An execution that answers its caller and nobody else leaves the answer on record. -/
theorem onRecord_of_quiet {machine : Machine} {command : Command} {call : SessionCall}
    {value : Value} (hmatched : machine.cache.Matched) (hcall : command.call? = some call)
    (hexecutes : machine.executes command = true)
    (hanswer : (machine.apply command).answer = .ok value)
    (hquiet : (machine.apply command).notes = [])
    (hopen : (machine.apply command).state.sessions.isActive call.session = true)
    (hcapacity : 0 < machine.cache.capacity) :
    (machine.apply command).state.onRecord call = some value := by
  have hnew := onRecord_of_executes hcall hexecutes
  obtain ⟨woken, hanswers, -, hnone⟩ := answersOf_of_own hcall hanswer
  rw [hnone hquiet] at hanswers
  have hsplit : machine.answersOf command = [] ++ (call, value) :: [] := hanswers
  obtain ⟨earlier, later, -, -, hlength, hkept, -⟩ := record_apply hmatched hexecutes hnew hsplit
    List.not_mem_nil List.not_mem_nil hopen hcapacity
  obtain rfl := List.length_eq_zero_iff.mp (Nat.le_zero.mp hlength)
  exact (hkept hcapacity).onRecord

/-- When a call is answered with a value and its session is still open, the same command is answered
    alike, without notification or effect, exactly when the calls that the first application woke
    brought fewer new keys of the session than the capacity. -/
theorem immediate_retry_iff (options : MachineOptions) (log : List Command) (command : Command)
    (call : SessionCall) (value : Value) (hcall : command.call? = some call)
    (hanswer : ((run options log).apply command).answer = .ok value)
    (hopen : ((run options log).apply command).state.sessions.isActive call.session = true) :
    (((run options log).apply command).state.apply command =
        { answer := .ok value, state := ((run options log).apply command).state }) ↔
      (run options log).newKeysAfter call [command] < max options.dedupCapacity 1 := by
  have hcapacity := run_capacity options log
  have hmatched := matched_run options log
  generalize run options log = machine at *
  cases hexecutes : machine.executes command with
  | false =>
    obtain ⟨result, happly, hrecorded⟩ := apply_of_not_executes hexecutes
    have hnone : machine.newKeysAfter call [command] = 0 := by
      simp [newKeysAfter, newKeysOver, newKeys, hexecutes]
    rw [hnone]
    refine iff_of_true ?_ (by omega)
    rw [happly] at hanswer hopen ⊢
    have hrecord := hrecorded value (Applied.done.inj hanswer)
    rw [recorded_eq, hcall] at hrecord
    exact apply_of_onRecord hcall hopen hrecord
  | true =>
    have hnew := onRecord_of_executes hcall hexecutes
    obtain ⟨woken, hanswers, hothers, -⟩ := answersOf_of_own hcall hanswer
    have hsplit : machine.answersOf command = [] ++ (call, value) :: woken := hanswers
    obtain ⟨earlier, later, hkeys, hnotEarlier, -, hkept, hevicted⟩ :=
      record_apply hmatched hexecutes hnew hsplit List.not_mem_nil hothers hopen (by omega)
    have hafter : machine.newKeysAfter call [command] =
        later.countP (·.session = call.session) := by
      rw [newKeysAfter, newKeysOver, newKeysOver, List.append_nil, hkeys,
        countAfter_append hnotEarlier]
    rw [hafter, ← hcapacity]
    constructor
    · intro hretry
      by_contra hmany
      have hgone := hevicted (Nat.not_lt.mp hmany)
      -- the retry is executed once more, which puts the answer back on record
      have hagain := executes_of_onRecord_none hcall hopen hgone
      have hback := onRecord_of_quiet (matched_apply hmatched command) hcall hagain
        (by rw [hretry]) (by rw [hretry])
        (by rw [hretry]; exact hopen) (by rw [apply_capacity]; omega)
      rw [hretry, hgone] at hback
      cases hback
    · intro hfew
      exact apply_of_onRecord hcall hopen (hkept hfew).onRecord

/-- A thread that gives its permit to another of its session asks again, with room for both
    answers. -/
theorem waking_retry_answered :
    let options : MachineOptions := { sessionTtl := 10, dedupCapacity := 2, overdraft := false }
    let state := ((run options wakingLog).apply (permitCall 1 3 (.release 1))).state
    state.apply (permitCall 1 3 (.release 1)) = { answer := .ok .unit, state } := by
  intro options
  exact (immediate_retry_iff options wakingLog (permitCall 1 3 (.release 1))
    ⟨1, ⟨"semaphore.release", .ofNat 3⟩⟩ .unit (by decide +kernel) (by decide +kernel)
    (by decide +kernel)).mpr (by decide +kernel)

/-- With room for one answer, the answer to the woken thread evicts the one to the caller. -/
theorem not_every_immediate_retry_answered :
    ¬ ∀ (options : MachineOptions) (log : List Command) (command : Command) (call : SessionCall)
        (value : Value), command.call? = some call →
      ((run options log).apply command).answer = .ok value →
      ((run options log).apply command).state.sessions.isActive call.session = true →
      ((run options log).apply command).state.apply command =
        { answer := .ok value, state := ((run options log).apply command).state } := by
  intro hall
  let options : MachineOptions := { sessionTtl := 10, dedupCapacity := 1, overdraft := false }
  have hretry := hall options wakingLog (permitCall 1 3 (.release 1))
    ⟨1, ⟨"semaphore.release", .ofNat 3⟩⟩ .unit (by decide +kernel) (by decide +kernel)
    (by decide +kernel)
  have hrefused : (((run options wakingLog).apply (permitCall 1 3 (.release 1))).state.apply
      (permitCall 1 3 (.release 1))).answer ≠ .ok .unit := by decide +kernel
  exact hrefused (congrArg Step.answer hretry)

end Quorum.Machine
