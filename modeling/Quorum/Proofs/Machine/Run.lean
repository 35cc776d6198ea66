import Mathlib.Data.List.Induction
import Quorum.Machine

namespace Quorum

/-- A call as its session knows it. -/
@[ext]
structure SessionCall where
  session : SessionId
  key : CallKey
  deriving DecidableEq

/-- The call that a command makes, if a retry of it is recognised. -/
def Command.call? (command : Command) : Option SessionCall :=
  (Machine.recordKey command.invocation command.operation).map fun key =>
    ⟨key.1, ⟨command.operation.kind, key.2⟩⟩

/-- The parked call that a notification answers with a value. -/
def Notification.answer? (note : Notification) : Option (SessionCall × Value) :=
  match note.session, note.result with
  | some session, .ok value => some (⟨session, ⟨note.kind, note.uid⟩⟩, value)
  | _, _ => none

namespace Machine

/-- Applies a log in order. -/
def replay (machine : Machine) (log : List Command) : Machine :=
  log.foldl (fun machine command => (machine.apply command).state) machine

/-- The replica that has applied a log. -/
def run (options : MachineOptions) (log : List Command) : Machine := (new options).replay log

@[simp] theorem replay_nil (machine : Machine) : machine.replay [] = machine := rfl

@[simp] theorem replay_cons (machine : Machine) (command : Command) (rest : List Command) :
    machine.replay (command :: rest) = (machine.apply command).state.replay rest := rfl

/-- A log in two parts is replayed one part after the other. -/
theorem replay_append (machine : Machine) (log later : List Command) :
    machine.replay (log ++ later) = (machine.replay log).replay later :=
  List.foldl_append

theorem run_append (options : MachineOptions) (log later : List Command) :
    run options (log ++ later) = (run options log).replay later :=
  replay_append _ _ _

theorem run_concat (options : MachineOptions) (log : List Command) (command : Command) :
    run options (log ++ [command]) = ((run options log).apply command).state :=
  run_append options log [command]

/-- What holds at first and is kept by every command holds after every log. -/
theorem run_induction {options : MachineOptions} {P : List Command → Machine → Prop}
    (hnew : P [] (new options))
    (hstep : ∀ log command, P log (run options log) →
      P (log ++ [command]) ((run options log).apply command).state)
    (log : List Command) : P log (run options log) := by
  induction log using List.reverseRecOn with
  | nil => exact hnew
  | append_singleton log command ih =>
    rw [run_concat]
    exact hstep log command ih

/-- What the steps of a log give, one after the other. -/
def collect {β : Type} (f : Machine → Command → List β) (machine : Machine) : List Command → List β
  | [] => []
  | command :: rest => f machine command ++ collect f (machine.apply command).state rest

/-- What a log in two parts brings is collected one part after the other. -/
theorem collect_append {β : Type} (f : Machine → Command → List β) (machine : Machine)
    (log later : List Command) :
    machine.collect f (log ++ later) =
      machine.collect f log ++ (machine.replay log).collect f later := by
  induction log generalizing machine with
  | nil => rfl
  | cons command rest ih =>
    rw [List.cons_append, collect, collect, ih, List.append_assoc, replay_cons]

/-- What a step gives at most once, a log gives at most once for each of its commands. -/
theorem countP_collect_le {β : Type} {f : Machine → Command → List β} {p : β → Bool}
    (hstep : ∀ machine command, (f machine command).countP p ≤ 1) (machine : Machine)
    (log : List Command) : (machine.collect f log).countP p ≤ log.length := by
  induction log generalizing machine with
  | nil => exact Nat.le_refl 0
  | cons command rest ih =>
    have hfirst := hstep machine command
    have hrest := ih (machine.apply command).state
    rw [collect, List.countP_append, List.length_cons]
    omega

/-- Whether a command is executed: its session is open, and its answer is not on record. -/
def executes (machine : Machine) (command : Command) : Bool :=
  command.invocation.session.all machine.sessions.isActive &&
    (machine.recorded command.invocation command.operation).isNone

/-- A command is executed if its session is open and its answer is not on record. -/
theorem executes_iff {machine : Machine} {command : Command} :
    machine.executes command = true ↔
      (∀ session, command.invocation.session = some session →
        machine.sessions.isActive session = true) ∧
      machine.recorded command.invocation command.operation = none := by
  rw [executes, Bool.and_eq_true, Option.all_eq_true, Option.isNone_iff_eq_none]

/-- A call without a session is neither refused nor answered from the record. -/
theorem executes_of_sessionless {machine : Machine} {command : Command}
    (h : command.invocation.session = none) : machine.executes command = true := by
  refine executes_iff.mpr ⟨fun session hsession => ?_, ?_⟩
  · rw [h] at hsession
    cases hsession
  · rw [recorded, recordKey, h]
    rfl

theorem no_closed_caller {machine : Machine} {invocation : Invocation}
    (hopen : ∀ session, invocation.session = some session →
      machine.sessions.isActive session = true) :
    invocation.session.filter (fun session => !machine.sessions.isActive session) = none := by
  refine Option.filter_eq_none_iff.mpr fun session hsession => ?_
  simpa using hopen session hsession

/-- A command that is executed has the answers of its operation, which are put on record. -/
theorem apply_of_executes {machine : Machine} {command : Command}
    (h : machine.executes command = true) :
    machine.apply command =
      { machine.execute command.operation command.invocation command.timestamp with
        state := rememberStep command.invocation command.operation
          (machine.execute command.operation command.invocation command.timestamp) } := by
  obtain ⟨hopen, hnew⟩ := executes_iff.mp h
  simp only [apply, no_closed_caller hopen, hnew]

/-- A command that is not executed is refused or answered from the record. -/
theorem apply_of_not_executes {machine : Machine} {command : Command}
    (h : machine.executes command = false) :
    ∃ result, machine.apply command = { answer := .done result, state := machine } ∧
      ∀ value, result = .ok value →
        machine.recorded command.invocation command.operation = some value := by
  unfold apply
  simp only
  split
  · rename_i session hclosed
    exact ⟨_, rfl, by simp⟩
  · rename_i hopen
    split
    · rename_i value hvalue
      exact ⟨.ok value, rfl, fun other heq => by rw [hvalue, Except.ok.inj heq]⟩
    · rename_i hnew
      have hexecutes : machine.executes command = true := by
        refine executes_iff.mpr ⟨fun session hsession => ?_, hnew⟩
        simpa using Option.filter_eq_none_iff.mp hopen session hsession
      rw [h] at hexecutes
      cases hexecutes

/-- A command whose answer is on record is answered from there, without effect. -/
theorem apply_of_recorded {machine : Machine} {command : Command} {value : Value}
    (hopen : ∀ session, command.invocation.session = some session →
      machine.sessions.isActive session = true)
    (h : machine.recorded command.invocation command.operation = some value) :
    machine.apply command = { answer := .ok value, state := machine } := by
  simp only [apply, no_closed_caller hopen, h]

/-- The answer to the caller, if it is to be recorded. -/
def ownAnswer (call? : Option SessionCall) (answer : Applied) : List (SessionCall × Value) :=
  match call?, answer with
  | some call, .done (.ok value) => [(call, value)]
  | _, _ => []

/-- A step answers its own caller once or not at all. -/
theorem count_ownAnswer (call? : Option SessionCall) (answer : Applied) (call : SessionCall) :
    ((ownAnswer call? answer).map (·.1)).count call = 0 ∨
      call? = some call ∧ (∃ value, answer = .ok value) ∧
        ((ownAnswer call? answer).map (·.1)).count call = 1 := by
  unfold ownAnswer
  split
  · rename_i own value
    by_cases heq : own = call
    · subst heq
      exact .inr ⟨rfl, ⟨value, rfl⟩, List.count_singleton_self⟩
    · exact .inl (List.count_eq_zero.mpr fun hmem => heq (List.mem_singleton.mp hmem).symm)
  · exact .inl rfl

/-- The answers to calls that are recorded: the caller's first, then those of parked calls. -/
def answersIn (call? : Option SessionCall) (answer : Applied) (notes : List Notification) :
    List (SessionCall × Value) :=
  ownAnswer call? answer ++ notes.filterMap Notification.answer?

/-- What a command's application answers to calls whose retries are recognised. -/
def answersOf (machine : Machine) (command : Command) : List (SessionCall × Value) :=
  answersIn command.call? (machine.apply command).answer (machine.apply command).notes

/-- Everything that a log answers. -/
def answersOver (machine : Machine) : List Command → List (SessionCall × Value)
  | [] => []
  | command :: rest =>
    machine.answersOf command ++ (machine.apply command).state.answersOver rest

def rememberAnswer (machine : Machine) (answer : SessionCall × Value) : Machine :=
  machine.remember answer.1.session answer.1.key.kind answer.1.key.uid answer.2

/-- Notifications are recorded as the answers they give. -/
theorem rememberNotes_eq (machine : Machine) (notes : List Notification) :
    notes.foldl rememberNote machine =
      (notes.filterMap Notification.answer?).foldl rememberAnswer machine := by
  induction notes generalizing machine with
  | nil => rfl
  | cons note rest ih =>
    obtain ⟨uid, session?, kind, result⟩ := note
    cases session? with
    | none => exact ih machine
    | some session =>
      cases result with
      | error failure => exact ih machine
      | ok value => exact ih (machine.remember session kind uid value)

/-- Recording answers touches nothing but the record. -/
theorem rememberAnswers_eq (machine : Machine) (answers : List (SessionCall × Value)) :
    ∃ cache, answers.foldl rememberAnswer machine = { machine with cache } := by
  induction answers generalizing machine with
  | nil => exact ⟨machine.cache, rfl⟩
  | cons answer rest ih =>
    obtain ⟨cache, hrest⟩ := ih (machine.rememberAnswer answer)
    refine ⟨cache, hrest.trans ?_⟩
    unfold rememberAnswer remember
    split <;> rfl

/-- A step records its answers one after the other. -/
theorem rememberStep_eq (command : Command) (step : Step Machine Applied) :
    rememberStep command.invocation command.operation step =
      (answersIn command.call? step.answer step.notes).foldl rememberAnswer step.state := by
  unfold rememberStep answersIn ownAnswer Command.call?
  rw [rememberNotes_eq, List.foldl_append]
  congr 1
  cases recordKey command.invocation command.operation with
  | none => rfl
  | some key =>
    cases step.answer with
    | waiting => rfl
    | done result => cases result <;> rfl

/-- What a command executes and what it records touch different parts of the replica. -/
theorem apply_state_of_executes {machine : Machine} {command : Command}
    (h : machine.executes command = true) :
    ∃ cache, (machine.apply command).state =
      { (machine.execute command.operation command.invocation command.timestamp).state with
        cache } := by
  rw [apply_of_executes h, rememberStep_eq]
  exact rememberAnswers_eq _ _

end Machine

end Quorum
