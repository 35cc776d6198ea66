import Quorum.Proofs.InvocationCache
import Quorum.Proofs.Machine.Holdings

namespace Quorum.Machine

/-- The recorded answer of a call. -/
def onRecord (machine : Machine) (call : SessionCall) : Option Value :=
  machine.cache.lookup call.session call.key.kind call.key.uid

/-- The recorded answer of a command is that of the call it makes. -/
theorem recorded_eq (machine : Machine) (command : Command) :
    machine.recorded command.invocation command.operation =
      command.call?.bind machine.onRecord := by
  unfold recorded Command.call?
  cases recordKey command.invocation command.operation <;> rfl

/-- A retried call is executed only if its answer is not on record. -/
theorem onRecord_of_executes {machine : Machine} {command : Command} {call : SessionCall}
    (hcall : command.call? = some call) (h : machine.executes command = true) :
    machine.onRecord call = none := by
  have hnew := (executes_iff.mp h).2
  rw [recorded_eq, hcall] at hnew
  exact hnew

/-- The call's key if its answer is to be recorded and its key is not on record. -/
def freshKey (machine : Machine) (call : SessionCall) : List SessionCall :=
  if machine.sessions.isActive call.session ∧ machine.onRecord call = none then [call] else []

/-- The keys that are new when answers are recorded one after the other. -/
def freshKeys (machine : Machine) : List (SessionCall × Value) → List SessionCall
  | [] => []
  | answer :: rest =>
    machine.freshKey answer.1 ++ (machine.rememberAnswer answer).freshKeys rest

/-- The keys that a command newly records, in order. -/
def newKeys (machine : Machine) (command : Command) : List SessionCall :=
  if machine.executes command then
    (machine.execute command.operation command.invocation command.timestamp).state.freshKeys
      (machine.answersOf command)
  else []

/-- The keys that a log newly records, in order. -/
def newKeysOver (machine : Machine) : List Command → List SessionCall
  | [] => []
  | command :: rest => machine.newKeys command ++ (machine.apply command).state.newKeysOver rest

/-- How many keys a log newly records for the call's session after the call's own. -/
def newKeysAfter (machine : Machine) (call : SessionCall) (log : List Command) : Nat :=
  ((machine.newKeysOver log).dropWhile (· ≠ call)).tail.countP (·.session = call.session)

/-- Keys that are new to answers in two parts are those of the first and then of the second. -/
theorem freshKeys_append (machine : Machine) (answers later : List (SessionCall × Value)) :
    machine.freshKeys (answers ++ later) =
      machine.freshKeys answers ++ (answers.foldl rememberAnswer machine).freshKeys later := by
  induction answers generalizing machine with
  | nil => rfl
  | cons answer rest ih =>
    rw [List.cons_append, freshKeys, freshKeys, ih, List.append_assoc, List.foldl_cons]

/-- Only calls that are answered bring new keys. -/
theorem mem_of_mem_freshKeys {machine : Machine} {answers : List (SessionCall × Value)}
    {call : SessionCall} (h : call ∈ machine.freshKeys answers) : call ∈ answers.map (·.1) := by
  induction answers generalizing machine with
  | nil => cases h
  | cons answer rest ih =>
    rcases List.mem_append.mp h with hown | hrest
    · unfold freshKey at hown
      split at hown
      · rw [List.mem_singleton.mp hown]
        exact List.mem_cons_self
      · cases hown
    · exact List.mem_cons_of_mem _ (ih hrest)

/-- Each answer brings at most one new key. -/
theorem length_freshKeys_le (machine : Machine) (answers : List (SessionCall × Value)) :
    (machine.freshKeys answers).length ≤ answers.length := by
  induction answers generalizing machine with
  | nil => exact Nat.le_refl 0
  | cons answer rest ih =>
    have hfirst : (machine.freshKey answer.1).length ≤ 1 := by
      unfold freshKey
      split
      · exact Nat.le_refl 1
      · exact Nat.zero_le 1
    have hrest := ih (machine.rememberAnswer answer)
    rw [freshKeys, List.length_append, List.length_cons]
    omega

/-- The keys that follow the first time a call occurs are those behind it. -/
theorem countAfter_append {before after : List SessionCall} {call : SessionCall}
    (h : call ∉ before) :
    ((before ++ call :: after).dropWhile (· ≠ call)).tail.countP (·.session = call.session) =
      after.countP (·.session = call.session) := by
  rw [List.dropWhile_append_of_pos fun other hmem => by
    simpa using fun heq : other = call => h (heq ▸ hmem),
    List.dropWhile_cons_of_neg (by simp), List.tail_cons]

section Remembering

variable {machine : Machine}

theorem rememberAnswers_sessions (machine : Machine) (answers : List (SessionCall × Value)) :
    (answers.foldl rememberAnswer machine).sessions = machine.sessions := by
  obtain ⟨cache, hframe⟩ := rememberAnswers_eq machine answers
  rw [hframe]

theorem rememberAnswer_sessions (machine : Machine) (answer : SessionCall × Value) :
    (machine.rememberAnswer answer).sessions = machine.sessions :=
  rememberAnswers_sessions machine [answer]

theorem rememberAnswer_capacity (machine : Machine) (answer : SessionCall × Value) :
    (machine.rememberAnswer answer).cache.capacity = machine.cache.capacity := by
  unfold rememberAnswer remember
  split <;> rfl

theorem rememberAnswers_capacity (machine : Machine) (answers : List (SessionCall × Value)) :
    (answers.foldl rememberAnswer machine).cache.capacity = machine.cache.capacity := by
  induction answers generalizing machine with
  | nil => rfl
  | cons answer rest ih => rw [List.foldl_cons, ih, rememberAnswer_capacity]

/-- An answer is recorded among those of its session, if that is open. -/
theorem ofSession_rememberAnswer_self {answer : SessionCall × Value}
    (hopen : machine.sessions.isActive answer.1.session = true) :
    (machine.rememberAnswer answer).cache.ofSession answer.1.session =
      ((machine.cache.ofSession answer.1.session).put answer.1.key answer.2).trim
        machine.cache.capacity := by
  simp only [rememberAnswer, remember, hopen, if_true]
  exact (SortedMap.getD_insert _ _ _ _ _).trans (if_pos rfl)

/-- An answer leaves the record of other sessions as it is. -/
theorem ofSession_rememberAnswer_other {answer : SessionCall × Value} {session : SessionId}
    (hother : answer.1.session ≠ session) :
    (machine.rememberAnswer answer).cache.ofSession session = machine.cache.ofSession session := by
  unfold rememberAnswer remember
  split
  · exact (SortedMap.getD_insert _ _ _ _ _).trans (if_neg hother)
  · rfl

/-- An answer to another call does not put the call on record. -/
theorem onRecord_rememberAnswer {answer : SessionCall × Value} {call : SessionCall}
    (h : machine.onRecord call = none) (hother : answer.1 ≠ call) :
    (machine.rememberAnswer answer).onRecord call = none := by
  by_cases hsession : answer.1.session = call.session
  · have hkey : answer.1.key ≠ call.key := fun hkey => hother (SessionCall.ext hsession hkey)
    cases hopen : machine.sessions.isActive answer.1.session with
    | true =>
      have hself := ofSession_rememberAnswer_self hopen
      rw [hsession] at hself
      rw [onRecord, InvocationCache.lookup, hself]
      exact SessionResults.lookup_record_of_none h hkey _ _
    | false =>
      simp only [rememberAnswer, remember, hopen, Bool.false_eq_true, if_false]
      exact h
  · rw [onRecord, InvocationCache.lookup, ofSession_rememberAnswer_other hsession]
    exact h

/-- Recording an answer keeps the map and the queue of each session's results together. -/
theorem matched_rememberAnswer (h : machine.cache.Matched) (answer : SessionCall × Value) :
    (machine.rememberAnswer answer).cache.Matched := by
  unfold rememberAnswer remember
  split
  · exact h.record _ _ _ _
  · exact h

/-- Recording answers keeps the map and the queue of each session's results together. -/
theorem matched_rememberAnswers {answers : List (SessionCall × Value)}
    (h : machine.cache.Matched) : (answers.foldl rememberAnswer machine).cache.Matched := by
  induction answers generalizing machine with
  | nil => exact h
  | cons answer rest ih => exact ih (matched_rememberAnswer h answer)

/-- Answers to other calls do not put the call on record. -/
theorem onRecord_rememberAnswers {answers : List (SessionCall × Value)} {call : SessionCall}
    (h : machine.onRecord call = none) (hothers : call ∉ answers.map (·.1)) :
    (answers.foldl rememberAnswer machine).onRecord call = none := by
  induction answers generalizing machine with
  | nil => exact h
  | cons answer rest ih =>
    rw [List.map_cons, List.mem_cons, not_or] at hothers
    exact ih (onRecord_rememberAnswer h (Ne.symm hothers.1)) hothers.2

/-- The call's answer is on record, and so many answers of its session are younger. -/
def Kept (machine : Machine) (call : SessionCall) (value : Value) (younger : Nat) : Prop :=
  (machine.cache.ofSession call.session).Kept call.key value younger

/-- An answer that is kept is on record. -/
theorem Kept.onRecord {call : SessionCall} {value : Value} {younger : Nat}
    (h : machine.Kept call value younger) : machine.onRecord call = some value :=
  SessionResults.Kept.lookup h

/-- What recording an answer adds to the keys of the call's session. -/
def freshCount (machine : Machine) (call : SessionCall) (answers : List (SessionCall × Value)) :
    Nat :=
  (machine.freshKeys answers).countP (·.session = call.session)

/-- New keys are counted answer by answer. -/
theorem freshCount_cons (call : SessionCall) (answer : SessionCall × Value)
    (rest : List (SessionCall × Value)) :
    machine.freshCount call (answer :: rest) =
      (machine.freshKey answer.1).countP (·.session = call.session) +
        (machine.rememberAnswer answer).freshCount call rest :=
  List.countP_append

/-- An answer of the session adds a key unless its call is on record. -/
theorem countP_freshKey_same {call other : SessionCall} (hsession : other.session = call.session)
    (hopen : machine.sessions.isActive call.session = true) :
    (machine.freshKey other).countP (·.session = call.session) =
      (machine.cache.ofSession call.session).added other.key := by
  have hopen' : machine.sessions.isActive other.session = true := hsession ▸ hopen
  unfold freshKey SessionResults.added
  rw [← hsession]
  simp only [hopen', true_and, Option.isNone_iff_eq_none]
  by_cases hnew : machine.onRecord other = none
  · have hlookup : (machine.cache.ofSession other.session).lookup other.key = none := hnew
    simp [hnew, hlookup]
  · have hlookup : (machine.cache.ofSession other.session).lookup other.key ≠ none := hnew
    simp [hnew, hlookup]

/-- An answer of another session adds no key to the session. -/
theorem countP_freshKey_other {call other : SessionCall} (hsession : other.session ≠ call.session) :
    (machine.freshKey other).countP (·.session = call.session) = 0 := by
  unfold freshKey
  split
  · simp [hsession]
  · rfl

/-- An answer stays on record through another one that leaves room for it. -/
theorem kept_rememberAnswer {call : SessionCall} {value : Value} {younger : Nat}
    (h : machine.Kept call value younger) {answer : SessionCall × Value} (hother : answer.1 ≠ call)
    (hopen : machine.sessions.isActive call.session = true)
    (hfew : younger + (machine.freshKey answer.1).countP (·.session = call.session) <
      machine.cache.capacity) :
    (machine.rememberAnswer answer).Kept call value
      (younger + (machine.freshKey answer.1).countP (·.session = call.session)) := by
  by_cases hsession : answer.1.session = call.session
  · have hkey : answer.1.key ≠ call.key := fun hkey => hother (SessionCall.ext hsession hkey)
    have hself := ofSession_rememberAnswer_self (hsession.symm ▸ hopen)
    rw [hsession] at hself
    rw [countP_freshKey_same hsession hopen] at hfew ⊢
    rw [Kept, hself]
    exact SessionResults.kept_record_of_lt h hkey answer.2 hfew
  · rw [countP_freshKey_other hsession, Nat.add_zero, Kept, ofSession_rememberAnswer_other hsession]
    exact h

/-- An answer that fills the last room evicts the oldest. -/
theorem onRecord_rememberAnswer_of_le {call : SessionCall} {value : Value} {younger : Nat}
    (h : machine.Kept call value younger) {answer : SessionCall × Value} (hother : answer.1 ≠ call)
    (hopen : machine.sessions.isActive call.session = true)
    (hroom : younger < machine.cache.capacity)
    (hmany : machine.cache.capacity ≤
      younger + (machine.freshKey answer.1).countP (·.session = call.session)) :
    (machine.rememberAnswer answer).onRecord call = none := by
  by_cases hsession : answer.1.session = call.session
  · have hkey : answer.1.key ≠ call.key := fun hkey => hother (SessionCall.ext hsession hkey)
    have hself := ofSession_rememberAnswer_self (hsession.symm ▸ hopen)
    rw [hsession] at hself
    rw [countP_freshKey_same hsession hopen] at hmany
    rw [onRecord, InvocationCache.lookup, hself]
    exact SessionResults.lookup_record_of_le h hkey answer.2 hmany
  · rw [countP_freshKey_other hsession] at hmany
    omega

/-- An answer stays on record while fewer keys than the capacity come after it. -/
theorem kept_rememberAnswers {call : SessionCall} {value : Value} {younger : Nat}
    (h : machine.Kept call value younger) {answers : List (SessionCall × Value)}
    (hothers : call ∉ answers.map (·.1))
    (hopen : machine.sessions.isActive call.session = true)
    (hfew : younger + machine.freshCount call answers < machine.cache.capacity) :
    (answers.foldl rememberAnswer machine).Kept call value
      (younger + machine.freshCount call answers) := by
  induction answers generalizing machine younger with
  | nil => exact h
  | cons answer rest ih =>
    rw [List.map_cons, List.mem_cons, not_or] at hothers
    rw [freshCount_cons, ← Nat.add_assoc] at hfew ⊢
    have hfirst := kept_rememberAnswer h (Ne.symm hothers.1) hopen (by omega)
    refine ih hfirst hothers.2 ?_ ?_
    · rw [rememberAnswer_sessions]
      exact hopen
    · rw [rememberAnswer_capacity]
      exact hfew

/-- Once as many keys as the capacity have come after it, an answer is no longer on record. -/
theorem onRecord_rememberAnswers_of_le {call : SessionCall} {value : Value} {younger : Nat}
    (h : machine.Kept call value younger) {answers : List (SessionCall × Value)}
    (hothers : call ∉ answers.map (·.1))
    (hopen : machine.sessions.isActive call.session = true)
    (hroom : younger < machine.cache.capacity)
    (hmany : machine.cache.capacity ≤ younger + machine.freshCount call answers) :
    (answers.foldl rememberAnswer machine).onRecord call = none := by
  induction answers generalizing machine younger with
  | nil =>
    have hnone : machine.freshCount call [] = 0 := rfl
    omega
  | cons answer rest ih =>
    rw [List.map_cons, List.mem_cons, not_or] at hothers
    by_cases hfew : younger + (machine.freshKey answer.1).countP (·.session = call.session) <
        machine.cache.capacity
    · rw [freshCount_cons, ← Nat.add_assoc] at hmany
      have hfirst := kept_rememberAnswer h (Ne.symm hothers.1) hopen hfew
      refine ih hfirst hothers.2 ?_ ?_ ?_
      · rw [rememberAnswer_sessions]
        exact hopen
      · rw [rememberAnswer_capacity]
        exact hfew
      · rw [rememberAnswer_capacity]
        exact hmany
    · have hgone := onRecord_rememberAnswer_of_le h (Ne.symm hothers.1) hopen hroom
        (Nat.not_lt.mp hfew)
      have hrest := onRecord_rememberAnswers hgone hothers.2
      exact hrest

/-- A call that is not on record comes on it with its answer, behind those of its session. -/
theorem kept_rememberAnswer_self {call : SessionCall} (hmatched : machine.cache.Matched)
    (h : machine.onRecord call = none) (value : Value)
    (hopen : machine.sessions.isActive call.session = true)
    (hcapacity : 0 < machine.cache.capacity) :
    (machine.rememberAnswer (call, value)).Kept call value 0 := by
  rw [Kept, ofSession_rememberAnswer_self hopen]
  exact SessionResults.kept_record_self (hmatched call.session) h value hcapacity

/-- Among answers to be recorded, that of a call which is not on record brings its key, and stays
    while fewer keys of its session than the capacity come behind it. -/
theorem record_rememberAnswers {call : SessionCall} {value : Value}
    {before after : List (SessionCall × Value)} (hmatched : machine.cache.Matched)
    (h : machine.onRecord call = none) (hbefore : call ∉ before.map (·.1))
    (hafter : call ∉ after.map (·.1)) (hopen : machine.sessions.isActive call.session = true)
    (hcapacity : 0 < machine.cache.capacity) :
    ∃ earlier later, machine.freshKeys (before ++ (call, value) :: after) =
        earlier ++ call :: later ∧ call ∉ earlier ∧ later.length ≤ after.length ∧
      (later.countP (·.session = call.session) < machine.cache.capacity →
        ((before ++ (call, value) :: after).foldl rememberAnswer machine).Kept call value
          (later.countP (·.session = call.session))) ∧
      (machine.cache.capacity ≤ later.countP (·.session = call.session) →
        ((before ++ (call, value) :: after).foldl rememberAnswer machine).onRecord call =
          none) := by
  rw [freshKeys_append, freshKeys, List.foldl_append, List.foldl_cons]
  -- The answers in front leave the call off the record, so its key is new when its turn comes.
  have hturn := onRecord_rememberAnswers h hbefore
  have hmatchedTurn : (before.foldl rememberAnswer machine).cache.Matched :=
    matched_rememberAnswers hmatched
  rw [← rememberAnswers_sessions machine before] at hopen
  rw [← rememberAnswers_capacity machine before] at hcapacity ⊢
  generalize before.foldl rememberAnswer machine = turn at *
  have hfresh : turn.freshKey call = [call] := if_pos ⟨hopen, hturn⟩
  have hkept : (turn.rememberAnswer (call, value)).Kept call value 0 :=
    kept_rememberAnswer_self hmatchedTurn hturn value hopen hcapacity
  rw [← rememberAnswer_sessions turn (call, value)] at hopen
  rw [← rememberAnswer_capacity turn (call, value)] at hcapacity ⊢
  rw [hfresh]
  refine ⟨_, _, rfl, fun hmem => hbefore (mem_of_mem_freshKeys hmem), length_freshKeys_le _ _,
    fun hfew => ?_, fun hmany => ?_⟩
  · have hlater := kept_rememberAnswers hkept hafter hopen (by
      rw [Nat.zero_add]
      exact hfew)
    rw [Nat.zero_add] at hlater
    exact hlater
  · refine onRecord_rememberAnswers_of_le hkept hafter hopen hcapacity ?_
    rw [Nat.zero_add]
    exact hmany

end Remembering

section Applying

variable {machine : Machine} {command : Command}

/-- A command that is executed leaves what its operation does, with its answers on record. -/
theorem apply_state_eq (h : machine.executes command = true) :
    (machine.apply command).state = (machine.answersOf command).foldl rememberAnswer
      (machine.execute command.operation command.invocation command.timestamp).state := by
  rw [answersOf, apply_of_executes h]
  exact rememberStep_eq command _

theorem discardAll_capacity (cache : InvocationCache) (closed : List SessionId) :
    (closed.foldl InvocationCache.discard cache).capacity = cache.capacity := by
  induction closed generalizing cache with
  | nil => rfl
  | cons first rest ih => exact ih _

/-- An operation does not change the capacity of the record. -/
theorem execute_capacity (machine : Machine) (operation : Operation) (invocation : Invocation)
    (now : Millis) :
    (machine.execute operation invocation now).state.cache.capacity = machine.cache.capacity := by
  rw [execute_cache, discardAll_capacity]

/-- A command does not change the capacity of the record. -/
theorem apply_capacity (machine : Machine) (command : Command) :
    (machine.apply command).state.cache.capacity = machine.cache.capacity := by
  cases hexecutes : machine.executes command with
  | false =>
    obtain ⟨result, happly, -⟩ := apply_of_not_executes hexecutes
    rw [happly]
  | true => rw [apply_state_eq hexecutes, rememberAnswers_capacity, execute_capacity]

/-- The record has the configured capacity, with zero counted as one. -/
theorem run_capacity (options : MachineOptions) (log : List Command) :
    (run options log).cache.capacity = max options.dedupCapacity 1 :=
  run_induction (P := fun _ machine => machine.cache.capacity = max options.dedupCapacity 1) rfl
    (fun _ command h => (apply_capacity _ command).trans h) log

/-- An operation keeps the map and the queue of each session's results together. -/
theorem matched_execute (h : machine.cache.Matched) (operation : Operation)
    (invocation : Invocation) (now : Millis) :
    (machine.execute operation invocation now).state.cache.Matched := by
  rw [execute_cache]
  generalize machine.cache = cache at h
  induction machine.closings operation generalizing cache with
  | nil => exact h
  | cons first rest ih => exact ih _ (h.discard first)

/-- A command keeps the map and the queue of each session's results together. -/
theorem matched_apply (h : machine.cache.Matched) (command : Command) :
    (machine.apply command).state.cache.Matched := by
  cases hexecutes : machine.executes command with
  | false =>
    obtain ⟨result, happly, -⟩ := apply_of_not_executes hexecutes
    rw [happly]
    exact h
  | true =>
    rw [apply_state_eq hexecutes]
    exact matched_rememberAnswers (matched_execute h _ _ _)

/-- In every replica the map and the queue of each session's results are about the same calls. -/
theorem matched_run (options : MachineOptions) (log : List Command) :
    (run options log).cache.Matched :=
  run_induction (P := fun _ machine => machine.cache.Matched)
    (InvocationCache.matched_new options.dedupCapacity)
    (fun _ command h => matched_apply h command) log

theorem apply_isActive_of_executes (h : machine.executes command = true) (session : SessionId) :
    (machine.apply command).state.sessions.isActive session =
      (machine.execute command.operation command.invocation
        command.timestamp).state.sessions.isActive session := by
  rw [apply_state_eq h, rememberAnswers_sessions]

/-- A session that stays open keeps its record through an operation. -/
theorem execute_ofSession {operation : Operation} {invocation : Invocation} {now : Millis}
    {session : SessionId}
    (hopen : (machine.execute operation invocation now).state.sessions.isActive session = true) :
    (machine.execute operation invocation now).state.cache.ofSession session =
      machine.cache.ofSession session := by
  have hkept : session ∉ machine.closings operation := by
    intro hclosing
    rw [execute_isActive_of_closing hclosing] at hopen
    cases hopen
  have hget := get?_discardAll machine.cache (machine.closings operation) session
  rw [if_neg hkept] at hget
  rw [execute_cache, InvocationCache.ofSession, SortedMap.getD, hget]
  rfl

/-- An operation puts nothing on record by itself. -/
theorem execute_onRecord {call : SessionCall} (h : machine.onRecord call = none)
    (operation : Operation) (invocation : Invocation) (now : Millis) :
    (machine.execute operation invocation now).state.onRecord call = none := by
  have hget := get?_discardAll machine.cache (machine.closings operation) call.session
  rw [onRecord, InvocationCache.lookup, InvocationCache.ofSession, execute_cache, SortedMap.getD,
    hget]
  split
  · rfl
  · exact h

/-- A call that is neither on record nor answered does not come on record. -/
theorem onRecord_apply {call : SessionCall} (h : machine.onRecord call = none)
    (hothers : machine.executes command = true → call ∉ (machine.answersOf command).map (·.1)) :
    (machine.apply command).state.onRecord call = none := by
  cases hexecutes : machine.executes command with
  | false =>
    obtain ⟨result, happly, -⟩ := apply_of_not_executes hexecutes
    rw [happly]
    exact h
  | true =>
    rw [apply_state_eq hexecutes]
    exact onRecord_rememberAnswers (execute_onRecord h _ _ _) (hothers hexecutes)

/-- An answer stays on record through a command that leaves room for it. -/
theorem kept_apply {call : SessionCall} {value : Value} {younger : Nat}
    (h : machine.Kept call value younger)
    (hothers : machine.executes command = true → call ∉ (machine.answersOf command).map (·.1))
    (hopen : (machine.apply command).state.sessions.isActive call.session = true)
    (hfew : younger + (machine.newKeys command).countP (·.session = call.session) <
      machine.cache.capacity) :
    (machine.apply command).state.Kept call value
      (younger + (machine.newKeys command).countP (·.session = call.session)) := by
  unfold newKeys at hfew ⊢
  cases hexecutes : machine.executes command with
  | false =>
    obtain ⟨result, happly, -⟩ := apply_of_not_executes hexecutes
    rw [happly]
    exact h
  | true =>
    rw [apply_isActive_of_executes hexecutes] at hopen
    simp only [hexecutes, if_true] at hfew
    rw [apply_state_eq hexecutes]
    refine kept_rememberAnswers ?_ (hothers hexecutes) hopen ?_
    · rw [Kept, execute_ofSession hopen]
      exact h
    · rw [execute_capacity]
      exact hfew

/-- A call that is answered for the first time comes on record, and is off it again if as many keys
    as the capacity follow in the same step. -/
theorem record_apply {call : SessionCall} {value : Value}
    {before after : List (SessionCall × Value)}
    (hmatched : machine.cache.Matched) (hexecutes : machine.executes command = true)
    (h : machine.onRecord call = none)
    (hanswers : machine.answersOf command = before ++ (call, value) :: after)
    (hbefore : call ∉ before.map (·.1)) (hafter : call ∉ after.map (·.1))
    (hopen : (machine.apply command).state.sessions.isActive call.session = true)
    (hcapacity : 0 < machine.cache.capacity) :
    ∃ earlier later, machine.newKeys command = earlier ++ call :: later ∧ call ∉ earlier ∧
      later.length ≤ after.length ∧
      (later.countP (·.session = call.session) < machine.cache.capacity →
        (machine.apply command).state.Kept call value
          (later.countP (·.session = call.session))) ∧
      (machine.cache.capacity ≤ later.countP (·.session = call.session) →
        (machine.apply command).state.onRecord call = none) := by
  rw [apply_isActive_of_executes hexecutes] at hopen
  have hsame := execute_capacity machine command.operation command.invocation command.timestamp
  have hnew := execute_onRecord h command.operation command.invocation command.timestamp
  have hkeeps := matched_execute hmatched command.operation command.invocation command.timestamp
  rw [apply_state_eq hexecutes, newKeys, if_pos hexecutes, hanswers, ← hsame]
  exact record_rememberAnswers hkeeps hnew hbefore hafter hopen (hsame ▸ hcapacity)

end Applying

end Quorum.Machine
