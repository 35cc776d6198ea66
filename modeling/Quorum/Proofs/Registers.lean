import Mathlib.Data.List.DropRight
import Mathlib.Logic.Function.Basic
import Quorum.Object.AtomicRef
import Quorum.Proofs.SortedMap

namespace Quorum

/-- A call on atomic references. -/
inductive RefCall where
  | apply (name : String) (op : AtomicRefOp)
  | query (name : String) (op : AtomicRefOp)
  | destroy (name : String)
  deriving DecidableEq

/-- What a call on atomic references gives. -/
inductive RefAnswer where
  | applied (answer : Applied)
  | queried (reply : Reply)
  | destroyed (existed : Bool)
  deriving DecidableEq

namespace AtomicRefOp

/-- What the operation gives on a register with the content. -/
def value (content : Option Blob) : AtomicRefOp → Value
  | .set _ => .unit
  | .get | .getAndSet _ => .blob content
  | .compareAndSet value _ | .contains value => .bool (content = value)

/-- What the operation leaves in a register with the content. -/
def leaves (content : Option Blob) : AtomicRefOp → Option Blob
  | .set value | .getAndSet value => value
  | .compareAndSet expected new => if content = expected then new else content
  | .get | .contains _ => content

end AtomicRefOp

/-- A register for every name. -/
abbrev Registers := String → Option Blob

namespace Registers

/-- What the registers hold after a call. -/
def follow (registers : Registers) : RefCall → Registers
  | .apply name op => Function.update registers name (op.leaves (registers name))
  | .query _ _ => registers
  | .destroy name => Function.update registers name none

/-- What registers that were empty at first hold after a history of calls. -/
def run (history : List RefCall) : Registers := history.foldl follow fun _ => none

/-- What the registers answer to a call, if it is known whether there is a slot to destroy. -/
def answer (registers : Registers) (existed : Bool) : RefCall → RefAnswer
  | .apply name op => .applied (.ok (op.value (registers name)))
  | .query name op => .queried <|
    if op.isReadOnly then .ok (op.value (registers name))
    else .error (.invalidArgument "not a read-only atomic reference operation")
  | .destroy _ => .destroyed existed

end Registers

namespace RefCall

def name : RefCall → String
  | .apply name _ | .query name _ | .destroy name => name

/-- Whether the call applies an operation that may write, be it in vain. -/
def writes (name : String) : RefCall → Bool
  | .apply named op => named = name && !op.isReadOnly
  | _ => false

/-- Whether the name was written to in a history since it was last destroyed. -/
def written (name : String) (history : List RefCall) : Bool :=
  (history.rtakeWhile fun call => call ≠ .destroy name).any (writes name)

/-- A slot is there after a write, until it is destroyed. -/
theorem written_concat (name : String) (history : List RefCall) (call : RefCall) :
    written name (history ++ [call]) =
      if call = .destroy name then false else written name history || call.writes name := by
  rw [written, List.rtakeWhile_concat]
  by_cases hdestroy : call = .destroy name
  · simp [hdestroy]
  · simp [hdestroy, written]

end RefCall

namespace AtomicRef

/-- A compare-and-set leaves the new value exactly over the expected one. -/
theorem compareAndSet_value (slot : AtomicRef) (expected new : Option Blob) :
    (slot.compareAndSet expected new).2.value =
      (AtomicRefOp.compareAndSet expected new).leaves slot.value := by
  rw [compareAndSet, AtomicRefOp.leaves]
  split <;> rfl

/-- A compare-and-set tells whether it found the expected value. -/
theorem compareAndSet_swapped (slot : AtomicRef) (expected new : Option Blob) :
    (slot.compareAndSet expected new).1 = decide (slot.value = expected) := by
  rw [compareAndSet]
  split
  · rename_i heq
    exact (decide_eq_true heq).symm
  · rename_i hne
    exact (decide_eq_false hne).symm

end AtomicRef

namespace AtomicRefs

/-- Makes a call. -/
def call (refs : AtomicRefs) : RefCall → RefAnswer × AtomicRefs
  | .apply name op => (.applied (refs.apply name op).answer, (refs.apply name op).state)
  | .query name op => (.queried (refs.query name op), refs)
  | .destroy name => (.destroyed (refs.destroy name).1, (refs.destroy name).2)

/-- The atomic references after a history of calls. -/
def after (refs : AtomicRefs) (history : List RefCall) : AtomicRefs :=
  history.foldl (fun refs call => (refs.call call).2) refs

/-- What all slots hold, those included that do not exist. -/
def registers (refs : AtomicRefs) : Registers := fun name => (refs.slot name).value

theorem after_concat (refs : AtomicRefs) (history : List RefCall) (call : RefCall) :
    refs.after (history ++ [call]) = ((refs.after history).call call).2 := List.foldl_concat ..

section Put

variable (refs : AtomicRefs) (name : String) (slot : AtomicRef)

/-- Putting a slot writes its register and no other. -/
theorem registers_put :
    (refs.put name slot).registers = Function.update refs.registers name slot.value := by
  funext other
  rw [registers, AtomicRefs.slot, put, SortedMap.getD_insert, Function.update_apply]
  by_cases heq : name = other
  · simp [heq]
  · simp [heq, Ne.symm heq, registers, AtomicRefs.slot]

theorem contains_put (other : String) :
    (refs.put name slot).slots.contains other = (refs.slots.contains other || name = other) :=
  SortedMap.contains_insert refs.slots name other slot

end Put

/-- A call answers from the register of its name and whether there is a slot. -/
theorem answer_call (refs : AtomicRefs) (call : RefCall) :
    (refs.call call).1 = refs.registers.answer (refs.slots.contains call.name) call := by
  cases call with
  | apply name op =>
    cases op with
    | compareAndSet expected new =>
      exact congrArg (fun swapped => RefAnswer.applied (.ok (.bool swapped)))
        ((refs.slot name).compareAndSet_swapped expected new)
    | get => exact congrArg (RefAnswer.applied ∘ .done) (refs.query_eq_slot name .get)
    | contains value =>
      exact congrArg (RefAnswer.applied ∘ .done) (refs.query_eq_slot name (.contains value))
    | _ => rfl
  | query name op =>
    refine (congrArg RefAnswer.queried (refs.query_eq_slot name op)).trans ?_
    cases op <;> rfl
  | destroy name => rfl

/-- A call changes the registers as it does a map of values. -/
theorem registers_call (refs : AtomicRefs) (call : RefCall) :
    (refs.call call).2.registers = refs.registers.follow call := by
  cases call with
  | apply name op =>
    cases op with
    -- A read puts back what is there.
    | get => exact (Function.update_eq_self name refs.registers).symm
    | contains value => exact (Function.update_eq_self name refs.registers).symm
    | set value => exact refs.registers_put name _
    | getAndSet value => exact refs.registers_put name _
    | compareAndSet expected new =>
      have hvalue := (refs.slot name).compareAndSet_value expected new
      exact (refs.registers_put name _).trans (congrArg _ hvalue)
  | query name op => rfl
  | destroy name =>
    funext other
    show (SortedMap.getD (refs.slots.erase name) other {}).value = _
    rw [SortedMap.getD_erase, Registers.follow, Function.update_apply]
    by_cases heq : name = other
    · simp [heq]
    · simp [heq, Ne.symm heq, registers, slot]

/-- A slot is there after a call that writes it, and not after it is destroyed. -/
theorem contains_call (refs : AtomicRefs) (call : RefCall) (name : String) :
    (refs.call call).2.slots.contains name =
      if call = .destroy name then false else refs.slots.contains name || call.writes name := by
  cases call with
  | apply named op =>
    rw [if_neg RefCall.noConfusion]
    cases op with
    | get => simp [call, apply, RefCall.writes, AtomicRefOp.isReadOnly]
    | contains value => simp [call, apply, RefCall.writes, AtomicRefOp.isReadOnly]
    | _ =>
      refine (refs.contains_put named _ name).trans ?_
      simp [RefCall.writes, AtomicRefOp.isReadOnly]
  | query named op => simp [call, RefCall.writes]
  | destroy named =>
    show (refs.slots.erase named).contains name = _
    rw [SortedMap.contains_erase]
    by_cases heq : named = name <;> simp [heq, RefCall.writes]

/-- A history of calls changes the registers call by call. -/
theorem registers_after (refs : AtomicRefs) (history : List RefCall) :
    (refs.after history).registers = history.foldl Registers.follow refs.registers := by
  induction history using List.reverseRecOn with
  | nil => rfl
  | append_singleton history call ih =>
    rw [after_concat, registers_call, ih, List.foldl_concat]

/-- From nothing, a history leaves the registers that it writes. -/
theorem registers_of_history (history : List RefCall) :
    (after {} history).registers = Registers.run history := registers_after {} history

/-- There is a slot for each name that was written and not destroyed since. -/
theorem contains_of_history (history : List RefCall) (name : String) :
    (after {} history).slots.contains name = RefCall.written name history := by
  induction history using List.reverseRecOn with
  | nil => rfl
  | append_singleton history call ih =>
    rw [after_concat, contains_call, RefCall.written_concat, ih]

/-- Two collections that differ at most in whether there is an empty slot under the name. -/
structure AlikeBut (name : String) (refs others : AtomicRefs) : Prop where
  registers : refs.registers = others.registers
  contains : ∀ other, other ≠ name → refs.slots.contains other = others.slots.contains other

theorem alikeBut_put {refs : AtomicRefs} {name : String} (h : refs.slots.contains name = false) :
    AlikeBut name refs (refs.put name {}) where
  registers := by
    have hempty : refs.registers name = none := by
      rw [SortedMap.contains, Option.isSome_eq_false_iff, Option.isNone_iff_eq_none] at h
      rw [AtomicRefs.registers, slot, SortedMap.getD, h]
      rfl
    rw [registers_put, ← hempty, Function.update_eq_self]
  contains other hother := by
    rw [contains_put, decide_eq_false hother.symm, Bool.or_false]

/-- A call keeps references alike but for whether one slot is there. -/
theorem AlikeBut.call {name : String} {refs others : AtomicRefs} (h : AlikeBut name refs others)
    (call : RefCall) : AlikeBut name (refs.call call).2 (others.call call).2 where
  registers := by rw [registers_call, registers_call, h.registers]
  contains other hother := by rw [contains_call, contains_call, h.contains other hother]

/-- A history keeps references alike but for whether one slot is there. -/
theorem AlikeBut.after {name : String} {refs others : AtomicRefs} (h : AlikeBut name refs others)
    (history : List RefCall) : AlikeBut name (refs.after history) (others.after history) := by
  induction history generalizing refs others with
  | nil => exact h
  | cons call rest ih => exact ih (h.call call)

/-- The two answer every call the same, but for the one that destroys what they differ in. -/
theorem AlikeBut.answer {name : String} {refs others : AtomicRefs} (h : AlikeBut name refs others)
    {call : RefCall} (hcall : call ≠ .destroy name) :
    (refs.call call).1 = (others.call call).1 := by
  rw [answer_call, answer_call, h.registers]
  cases call with
  | apply named op => rfl
  | query named op => rfl
  | destroy named =>
    have hother : named ≠ name := fun heq => hcall (congrArg RefCall.destroy heq)
    exact congrArg RefAnswer.destroyed (h.contains named hother)

/-- After any history of calls, atomic references answer the next call as registers do that were
    empty at first, and destroying a reference answers whether an operation that can write was
    applied to it since it was last destroyed. Whether a reference is missing or holds nothing shows
    in no other answer, whatever is called in between. -/
theorem answers_as_registers (history : List RefCall) :
    (∀ call, ((after {} history).call call).1 =
      (Registers.run history).answer (RefCall.written call.name history) call) ∧
    ∀ name, (after {} history).slots.contains name = false →
      ∀ later call, call ≠ .destroy name →
        (((after {} history).after later).call call).1 =
          ((((after {} history).put name {}).after later).call call).1 := by
  refine ⟨fun call => ?_, fun name hmissing later call hcall => ?_⟩
  · rw [answer_call, registers_of_history, contains_of_history]
  · exact ((alikeBut_put hmissing).after later).answer hcall

/-- A reference that was destroyed answers like one that was made and holds nothing, also after a
    swap that failed; the swap has made it again, so that it can be destroyed once more. -/
theorem destroyed_reference_reads_empty :
    let refs := after {} [.apply "gate" (.set (some [1])), .destroy "gate"]
    let later : List RefCall := [.apply "gate" (.compareAndSet (some [1]) (some [2]))]
    let read : RefCall := .apply "gate" (.getAndSet (some [3]))
    refs.slots.contains "gate" = false ∧ read ≠ .destroy "gate" ∧
      ((refs.after later).call read).1 = (((refs.put "gate" {}).after later).call read).1 ∧
      ((refs.after later).call read).1 = .applied (.ok (.blob none)) ∧
      (refs.call (.destroy "gate")).1 = .destroyed false ∧
      ((refs.after later).call (.destroy "gate")).1 = .destroyed true := by
  intro refs later read
  have hmissing : refs.slots.contains "gate" = false := by decide
  have hread : read ≠ .destroy "gate" := RefCall.noConfusion
  obtain ⟨hanswers, halike⟩ :=
    answers_as_registers [.apply "gate" (.set (some [1])), .destroy "gate"]
  exact ⟨hmissing, hread, halike "gate" hmissing later read hread, by decide,
    hanswers (.destroy "gate"), by decide⟩

end AtomicRefs

end Quorum
