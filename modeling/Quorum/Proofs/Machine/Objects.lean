import Mathlib.Data.List.Perm.Subperm
import Quorum.Proofs.Machine.Parked
import Quorum.Proofs.Machine.Reading

namespace Quorum

/-- Two steps that give the same and agree afterwards in what is looked at. -/
structure Step.Alike {σ α β : Type} (view : σ → β) (step other : Step σ α) : Prop where
  answer : step.answer = other.answer
  notes : step.notes = other.notes
  state : view step.state = view other.state

/-- The calls that are answered were parked, if those that stay parked and they are together. -/
theorem subperm_of_conserved {before after : List ParkedCall} {notes : List Notification}
    (h : (after ++ notes.map Notification.call).Perm before) :
    (notes.map Notification.call).Subperm before :=
  (List.sublist_append_right _ _).subperm.trans h.subperm

namespace AtomicRefs

/-- Putting a slot changes it and no other. -/
theorem get?_put (refs : AtomicRefs) (name other : String) (slot : AtomicRef) :
    (refs.put name slot).slots.get? other =
      if name = other then some slot else refs.slots.get? other :=
  SortedMap.get?_insert refs.slots name slot other

/-- A call of one reference leaves the others as they are. -/
theorem get?_apply_of_ne (refs : AtomicRefs) {name other : String} (h : name ≠ other)
    (op : AtomicRefOp) : (refs.apply name op).state.slots.get? other = refs.slots.get? other := by
  cases op with
  | get => rfl
  | contains value => rfl
  | _ => exact (refs.get?_put name other _).trans (if_neg h)

/-- Destroying one reference leaves the others as they are. -/
theorem get?_destroy_of_ne (refs : AtomicRefs) {name other : String} (h : name ≠ other) :
    (refs.destroy name).2.slots.get? other = refs.slots.get? other :=
  (SortedMap.get?_erase refs.slots name other).trans (if_neg h)

/-- A call does alike to references that look alike under its name. -/
theorem apply_alike {refs others : AtomicRefs} {name : String}
    (h : refs.slots.get? name = others.slots.get? name) (op : AtomicRefOp) :
    Step.Alike (·.slots.get? name) (refs.apply name op) (others.apply name op) := by
  have hslot : refs.slot name = others.slot name := congrArg (·.getD {}) h
  cases op with
  | get => exact ⟨by simp only [apply, query_eq_slot, hslot], rfl, h⟩
  | contains value => exact ⟨by simp only [apply, query_eq_slot, hslot], rfl, h⟩
  | _ =>
    refine ⟨by simp only [apply, hslot], rfl, ?_⟩
    simp only [apply, get?_put, hslot, if_true]

/-- Destroying a name does alike to references that look alike under it. -/
theorem destroy_alike {refs others : AtomicRefs} {name : String}
    (h : refs.slots.get? name = others.slots.get? name) :
    Step.Alike (·.slots.get? name)
      { answer := (refs.destroy name).1, state := (refs.destroy name).2 }
      { answer := (others.destroy name).1, state := (others.destroy name).2 } :=
  ⟨congrArg Option.isSome h, rfl, by simp only [destroy, SortedMap.get?_erase, if_true]⟩

theorem apply_notes (refs : AtomicRefs) (name : String) (op : AtomicRefOp) :
    (refs.apply name op).notes = [] := by
  cases op <;> rfl

end AtomicRefs

namespace Semaphores

theorem ext_byName {semaphores others : Semaphores} (h : semaphores.byName = others.byName)
    (hoverdraft : semaphores.overdraft = others.overdraft) : semaphores = others := by
  cases semaphores
  cases others
  cases h
  cases hoverdraft
  rfl

/-- A call of one semaphore leaves the others as they are. -/
theorem get?_apply_of_ne (semaphores : Semaphores) {name other : String} (h : name ≠ other)
    (op : SemaphoreOp) (invocation : Invocation) (now : Millis) :
    (semaphores.apply name op invocation now).state.get? other = semaphores.get? other := by
  unfold apply
  split
  · rfl
  · exact (semaphores.get?_put name other _).trans (if_neg h)

/-- A call does alike to semaphores that look alike under its name. -/
theorem apply_alike {semaphores others : Semaphores} {name : String}
    (hoverdraft : semaphores.overdraft = others.overdraft)
    (h : semaphores.get? name = others.get? name) (op : SemaphoreOp) (invocation : Invocation)
    (now : Millis) :
    Step.Alike (·.get? name) (semaphores.apply name op invocation now)
      (others.apply name op invocation now) := by
  have hsemaphore : semaphores.byName.getD name {} = others.byName.getD name {} :=
    congrArg (·.getD {}) h
  have hquery : semaphores.query name op = others.query name op := by
    cases op with
    | availablePermits => simp only [query, h]
    | _ => rfl
  unfold apply
  rw [hoverdraft, hsemaphore, hquery]
  split
  · exact ⟨rfl, rfl, h⟩
  · exact ⟨rfl, rfl, by simp only [get?_put, if_true]⟩

/-- A call of a semaphore answers calls that are parked at it. -/
theorem apply_notes_subperm (semaphores : Semaphores) (name : String) (op : SemaphoreOp)
    (invocation : Invocation) (now : Millis) :
    ((semaphores.apply name op invocation now).notes.map Notification.call).Subperm
      (semaphores.byName.getD name {}).parkedCalls := by
  unfold apply
  split
  · exact List.nil_subperm
  · rcases Semaphore.step_parkedCalls semaphores.overdraft (semaphores.byName.getD name {}) op
        invocation now with hkept | ⟨uid, -, -, -, hnotes, -⟩
    · exact subperm_of_conserved hkept
    · simp only [hnotes]
      exact List.nil_subperm

/-- Destroying a semaphore answers calls that are parked at it. -/
theorem destroy_notes_subperm (semaphores : Semaphores) (name : String) :
    ((semaphores.destroy name).notes.map Notification.call).Subperm
      (semaphores.byName.getD name {}).parkedCalls := by
  unfold destroy
  split
  · exact List.nil_subperm
  · rename_i semaphore hget
    have hfound : semaphores.byName.getD name {} = semaphore := congrArg (·.getD {}) hget
    rw [hfound, AcquireWaiter.map_call_answer]
    exact (List.Perm.refl _).subperm

/-- Destroying a name does alike to semaphores that look alike under it. -/
theorem destroy_alike {semaphores others : Semaphores} {name : String}
    (h : semaphores.get? name = others.get? name) :
    Step.Alike (·.get? name) (semaphores.destroy name) (others.destroy name) := by
  have hsame : (semaphores.destroy name).answer = (others.destroy name).answer ∧
      (semaphores.destroy name).notes = (others.destroy name).notes := by
    unfold destroy
    rw [h]
    split <;> exact ⟨rfl, rfl⟩
  exact ⟨hsame.1, hsame.2, by simp only [get?_destroy, if_true]⟩

end Semaphores

namespace Latches

/-- A call of one latch leaves the others as they are. -/
theorem get?_apply_of_ne (latches : Latches) {name other : String} (h : name ≠ other)
    (op : LatchOp) (invocation : Invocation) (now : Millis) :
    (latches.apply name op invocation now).state.get? other = latches.get? other := by
  cases hread : op.isReadOnly with
  | true => rw [apply_of_readOnly latches name hread]
  | false => rw [get?_apply latches name other hread, if_neg h]

/-- A call does alike to latches that look alike under its name. -/
theorem apply_alike {latches others : Latches} {name : String}
    (h : latches.get? name = others.get? name) (op : LatchOp) (invocation : Invocation)
    (now : Millis) :
    Step.Alike (·.get? name) (latches.apply name op invocation now)
      (others.apply name op invocation now) := by
  have hlatch : latches.latch name = others.latch name := congrArg (·.getD {}) h
  cases hread : op.isReadOnly with
  | true =>
    rw [apply_of_readOnly latches name hread, apply_of_readOnly others name hread]
    have hquery : latches.query name op = others.query name op := by
      cases op <;> simp only [query, hlatch]
    exact ⟨congrArg Applied.done hquery, rfl, h⟩
  | false =>
    rw [apply_eq latches name hread, apply_eq others name hread, hlatch]
    exact ⟨rfl, rfl, by simp only [get?_put, if_true]⟩

/-- A call of a latch answers calls that are parked at it. -/
theorem apply_notes_subperm (latches : Latches) (name : String) (op : LatchOp)
    (invocation : Invocation) (now : Millis) :
    ((latches.apply name op invocation now).notes.map Notification.call).Subperm
      (latches.latch name).parkedCalls := by
  cases hread : op.isReadOnly with
  | true =>
    rw [apply_of_readOnly latches name hread]
    exact List.nil_subperm
  | false =>
    rw [apply_eq latches name hread]
    rcases (latches.latch name).call_parkedCalls op invocation now with
      hkept | ⟨uid, -, -, -, hnotes, -⟩
    · exact subperm_of_conserved hkept
    · simp only [hnotes]
      exact List.nil_subperm

/-- Destroying a latch answers calls that are parked at it. -/
theorem destroy_notes_subperm (latches : Latches) (name : String) :
    ((latches.destroy name).notes.map Notification.call).Subperm
      (latches.latch name).parkedCalls := by
  unfold destroy
  split
  · exact List.nil_subperm
  · rename_i latch hget
    have hfound : latches.latch name = latch := congrArg (·.getD {}) hget
    rw [hfound, AwaitWaiter.map_call_answer]
    exact (List.Perm.refl _).subperm

/-- Destroying a name does alike to latches that look alike under it. -/
theorem destroy_alike {latches others : Latches} {name : String}
    (h : latches.get? name = others.get? name) :
    Step.Alike (·.get? name) (latches.destroy name) (others.destroy name) := by
  have hsame : (latches.destroy name).answer = (others.destroy name).answer ∧
      (latches.destroy name).notes = (others.destroy name).notes := by
    unfold destroy
    rw [h]
    split <;> exact ⟨rfl, rfl⟩
  exact ⟨hsame.1, hsame.2, by simp only [get?_destroy, if_true]⟩

end Latches

/-- An object with its state. -/
inductive ObjectState where
  | atomicRef (slot : AtomicRef)
  | semaphore (semaphore : Semaphore)
  | latch (latch : Latch)
  deriving DecidableEq

/-- The calls that are parked at an object. -/
def ObjectState.parkedCalls : ObjectState → List ParkedCall
  | .atomicRef _ => []
  | .semaphore found => found.parkedCalls
  | .latch found => found.parkedCalls

namespace Machine

/-- The object of a kind and a name, if it exists. -/
def objectAt (machine : Machine) : ObjectKind × String → Option ObjectState
  | (.atomicRef, name) => (machine.refs.slots.get? name).map .atomicRef
  | (.semaphore, name) => (machine.semaphores.get? name).map .semaphore
  | (.latch, name) => (machine.latches.get? name).map .latch

/-- The calls that are parked at an object; at one that does not exist there are none. -/
def parkedOn (machine : Machine) (object : ObjectKind × String) : List ParkedCall :=
  (machine.objectAt object).elim [] ObjectState.parkedCalls

section Objects

variable {machine other : Machine} {name : String}

theorem objectAt_atomicRef_inj :
    machine.objectAt (.atomicRef, name) = other.objectAt (.atomicRef, name) ↔
      machine.refs.slots.get? name = other.refs.slots.get? name :=
  (Option.map_injective fun _ _ => ObjectState.atomicRef.inj).eq_iff

theorem objectAt_semaphore_inj :
    machine.objectAt (.semaphore, name) = other.objectAt (.semaphore, name) ↔
      machine.semaphores.get? name = other.semaphores.get? name :=
  (Option.map_injective fun _ _ => ObjectState.semaphore.inj).eq_iff

theorem objectAt_latch_inj :
    machine.objectAt (.latch, name) = other.objectAt (.latch, name) ↔
      machine.latches.get? name = other.latches.get? name :=
  (Option.map_injective fun _ _ => ObjectState.latch.inj).eq_iff

theorem parkedOn_semaphore :
    machine.parkedOn (.semaphore, name) = (machine.semaphores.byName.getD name {}).parkedCalls := by
  simp only [parkedOn, objectAt, Semaphores.get?, SortedMap.getD]
  cases machine.semaphores.byName.get? name <;> rfl

theorem parkedOn_latch :
    machine.parkedOn (.latch, name) = (machine.latches.latch name).parkedCalls := by
  simp only [parkedOn, objectAt, Latches.get?, Latches.latch, SortedMap.getD]
  cases machine.latches.byName.get? name <;> rfl

end Objects

/-- Replicas with the same objects, sessions apart. -/
structure SameObjects (machine other : Machine) : Prop where
  refs : machine.refs = other.refs
  semaphores : machine.semaphores = other.semaphores
  latches : machine.latches = other.latches

/-- Replicas with the same object under each name have the same objects. -/
theorem sameObjects_of_objectAt {machine other : Machine}
    (hoverdraft : machine.semaphores.overdraft = other.semaphores.overdraft)
    (h : ∀ object, machine.objectAt object = other.objectAt object) :
    machine.SameObjects other where
  refs := congrArg AtomicRefs.mk
    (SortedMap.ext_get? fun name => objectAt_atomicRef_inj.mp (h (.atomicRef, name)))
  semaphores := Semaphores.ext_byName
    (SortedMap.ext_get? fun name => objectAt_semaphore_inj.mp (h (.semaphore, name))) hoverdraft
  latches := congrArg Latches.mk
    (SortedMap.ext_get? fun name => objectAt_latch_inj.mp (h (.latch, name)))

/-- A step that concerns one object: the sessions and all other objects stay as they are, and it
    answers calls that were parked at the object, as often as they were. -/
structure Confined (machine : Machine) (object : ObjectKind × String) (step : Step Machine Applied) :
    Prop where
  sessions : step.state.sessions = machine.sessions
  overdraft : step.state.semaphores.overdraft = machine.semaphores.overdraft
  others : ∀ other, other ≠ object → step.state.objectAt other = machine.objectAt other
  notes : (step.notes.map Notification.call).Subperm (machine.parkedOn object)

section Confined

variable {machine : Machine} {name : String} {answer : Applied} {notes : List Notification}

/-- A change of one reference is confined to it. -/
theorem confined_refs {refs : AtomicRefs}
    (hothers : ∀ other, name ≠ other → refs.slots.get? other = machine.refs.slots.get? other) :
    machine.Confined (.atomicRef, name) { answer, state := { machine with refs } } := by
  refine ⟨rfl, rfl, ?_, List.nil_subperm⟩
  rintro ⟨kind, other⟩ hne
  cases kind with
  | atomicRef => exact objectAt_atomicRef_inj.mpr (hothers other fun heq => hne (by rw [heq]))
  | semaphore => rfl
  | latch => rfl

/-- A change of one semaphore is confined to it. -/
theorem confined_semaphores {semaphores : Semaphores}
    (hoverdraft : semaphores.overdraft = machine.semaphores.overdraft)
    (hothers : ∀ other, name ≠ other → semaphores.get? other = machine.semaphores.get? other)
    (hnotes : (notes.map Notification.call).Subperm
      (machine.semaphores.byName.getD name {}).parkedCalls) :
    machine.Confined (.semaphore, name)
      { answer, state := { machine with semaphores }, notes } := by
  refine ⟨rfl, hoverdraft, ?_, parkedOn_semaphore ▸ hnotes⟩
  rintro ⟨kind, other⟩ hne
  cases kind with
  | atomicRef => rfl
  | semaphore => exact objectAt_semaphore_inj.mpr (hothers other fun heq => hne (by rw [heq]))
  | latch => rfl

/-- A change of one latch is confined to it. -/
theorem confined_latches {latches : Latches}
    (hothers : ∀ other, name ≠ other → latches.get? other = machine.latches.get? other)
    (hnotes : (notes.map Notification.call).Subperm (machine.latches.latch name).parkedCalls) :
    machine.Confined (.latch, name) { answer, state := { machine with latches }, notes } := by
  refine ⟨rfl, rfl, ?_, parkedOn_latch ▸ hnotes⟩
  rintro ⟨kind, other⟩ hne
  cases kind with
  | atomicRef => rfl
  | semaphore => rfl
  | latch => exact objectAt_latch_inj.mpr (hothers other fun heq => hne (by rw [heq]))

end Confined

/-- An operation on an object is confined to it. -/
theorem execute_confined (machine : Machine) {operation : Operation} {object : ObjectKind × String}
    (h : operation.object? = some object) (invocation : Invocation) (now : Millis) :
    machine.Confined object (machine.execute operation invocation now) := by
  cases operation with
  | session op => cases h
  | expireSessions sessions => cases h
  | expireWaitKeys keys => cases h
  | atomicRef name op =>
    obtain rfl := Option.some.inj h
    simp only [execute, machine.refs.apply_notes]
    exact confined_refs fun other hne => machine.refs.get?_apply_of_ne hne op
  | semaphore name op =>
    obtain rfl := Option.some.inj h
    exact confined_semaphores (machine.semaphores.apply_overdraft name op invocation now)
      (fun other hne => machine.semaphores.get?_apply_of_ne hne op invocation now)
      (machine.semaphores.apply_notes_subperm name op invocation now)
  | latch name op =>
    obtain rfl := Option.some.inj h
    exact confined_latches
      (fun other hne => machine.latches.get?_apply_of_ne hne op invocation now)
      (machine.latches.apply_notes_subperm name op invocation now)
  | destroy kind name =>
    obtain rfl := Option.some.inj h
    cases kind with
    | atomicRef => exact confined_refs fun other hne => machine.refs.get?_destroy_of_ne hne
    | semaphore =>
      exact confined_semaphores (machine.semaphores.destroy_overdraft name)
        (fun other hne => (machine.semaphores.get?_destroy name other).trans (if_neg hne))
        (machine.semaphores.destroy_notes_subperm name)
    | latch =>
      exact confined_latches
        (fun other hne => (machine.latches.get?_destroy name other).trans (if_neg hne))
        (machine.latches.destroy_notes_subperm name)

/-- A command for an object is confined to it. -/
theorem apply_confined (machine : Machine) {command : Command} {object : ObjectKind × String}
    (h : command.operation.object? = some object) :
    machine.Confined object (machine.apply command) := by
  cases hexecutes : machine.executes command with
  | false =>
    obtain ⟨result, happly, -⟩ := apply_of_not_executes hexecutes
    rw [happly]
    exact ⟨rfl, rfl, fun _ _ => rfl, List.nil_subperm⟩
  | true =>
    have hconfined := machine.execute_confined h command.invocation command.timestamp
    obtain ⟨cache, hstate⟩ := apply_state_of_executes hexecutes
    have hnotes := congrArg Step.notes (apply_of_executes hexecutes)
    refine ⟨?_, ?_, fun other hother => ?_, ?_⟩
    · rw [hstate]
      exact hconfined.sessions
    · rw [hstate]
      exact hconfined.overdraft
    · rw [hstate]
      exact hconfined.others other hother
    · rw [hnotes]
      exact hconfined.notes

section Alike

variable {machine other : Machine} {name : String} {α : Type} {f : α → Applied}

/-- What references do alike, replicas do alike at the object. -/
theorem alike_refs {step others : Step AtomicRefs α}
    (h : Step.Alike (·.slots.get? name) step others) :
    Step.Alike (·.objectAt (.atomicRef, name))
      { answer := f step.answer, state := { machine with refs := step.state }, notes := step.notes }
      { answer := f others.answer, state := { other with refs := others.state },
        notes := others.notes } :=
  ⟨congrArg f h.answer, h.notes, objectAt_atomicRef_inj.mpr h.state⟩

/-- What semaphores do alike, replicas do alike at the object. -/
theorem alike_semaphores {step others : Step Semaphores α}
    (h : Step.Alike (·.get? name) step others) :
    Step.Alike (·.objectAt (.semaphore, name))
      { answer := f step.answer, state := { machine with semaphores := step.state },
        notes := step.notes }
      { answer := f others.answer, state := { other with semaphores := others.state },
        notes := others.notes } :=
  ⟨congrArg f h.answer, h.notes, objectAt_semaphore_inj.mpr h.state⟩

/-- What latches do alike, replicas do alike at the object. -/
theorem alike_latches {step others : Step Latches α} (h : Step.Alike (·.get? name) step others) :
    Step.Alike (·.objectAt (.latch, name))
      { answer := f step.answer, state := { machine with latches := step.state },
        notes := step.notes }
      { answer := f others.answer, state := { other with latches := others.state },
        notes := others.notes } :=
  ⟨congrArg f h.answer, h.notes, objectAt_latch_inj.mpr h.state⟩

end Alike

/-- An operation on an object is the same at all replicas that have the object in the same state. -/
theorem execute_alike {machine other : Machine} {operation : Operation}
    {object : ObjectKind × String} (h : operation.object? = some object)
    (hoverdraft : machine.semaphores.overdraft = other.semaphores.overdraft)
    (hobject : machine.objectAt object = other.objectAt object) (invocation : Invocation)
    (now : Millis) :
    Step.Alike (·.objectAt object) (machine.execute operation invocation now)
      (other.execute operation invocation now) := by
  cases operation with
  | session op => cases h
  | expireSessions sessions => cases h
  | expireWaitKeys keys => cases h
  | atomicRef name op =>
    obtain rfl := Option.some.inj h
    exact alike_refs (f := id) (AtomicRefs.apply_alike (objectAt_atomicRef_inj.mp hobject) op)
  | semaphore name op =>
    obtain rfl := Option.some.inj h
    exact alike_semaphores (f := id) (Semaphores.apply_alike hoverdraft
      (objectAt_semaphore_inj.mp hobject) op invocation now)
  | latch name op =>
    obtain rfl := Option.some.inj h
    exact alike_latches (f := id)
      (Latches.apply_alike (objectAt_latch_inj.mp hobject) op invocation now)
  | destroy kind name =>
    obtain rfl := Option.some.inj h
    cases kind with
    | atomicRef =>
      exact alike_refs (f := fun answer => .ok (.bool answer))
        (AtomicRefs.destroy_alike (objectAt_atomicRef_inj.mp hobject))
    | semaphore =>
      exact alike_semaphores (f := fun answer => .ok (.bool answer))
        (Semaphores.destroy_alike (objectAt_semaphore_inj.mp hobject))
    | latch =>
      exact alike_latches (f := fun answer => .ok (.bool answer))
        (Latches.destroy_alike (objectAt_latch_inj.mp hobject))

/-- A call without a session is the same at all replicas that have its object in the same state,
    whatever their sessions and their records are. -/
theorem apply_alike {machine other : Machine} {command : Command} {object : ObjectKind × String}
    (hsession : command.invocation.session = none)
    (h : command.operation.object? = some object)
    (hoverdraft : machine.semaphores.overdraft = other.semaphores.overdraft)
    (hobject : machine.objectAt object = other.objectAt object) :
    Step.Alike (·.objectAt object) (machine.apply command) (other.apply command) := by
  have halike := execute_alike h hoverdraft hobject command.invocation command.timestamp
  have hexecutes : machine.executes command = true := executes_of_sessionless hsession
  have hothers : other.executes command = true := executes_of_sessionless hsession
  obtain ⟨cache, hstate⟩ := apply_state_of_executes hexecutes
  obtain ⟨otherCache, hotherState⟩ := apply_state_of_executes hothers
  refine ⟨?_, ?_, ?_⟩
  · rw [apply_of_executes hexecutes, apply_of_executes hothers]
    exact halike.answer
  · rw [apply_of_executes hexecutes, apply_of_executes hothers]
    exact halike.notes
  · rw [hstate, hotherState]
    exact halike.state

/-- A call does the same after a call at another object as before it. -/
theorem apply_alike_after (machine : Machine) {first second : Command}
    {object other : ObjectKind × String} (hsession : second.invocation.session = none)
    (hfirst : first.operation.object? = some object)
    (hsecond : second.operation.object? = some other) (hne : object ≠ other) :
    Step.Alike (·.objectAt other) ((machine.apply first).state.apply second)
      (machine.apply second) :=
  have hconfined := machine.apply_confined hfirst
  apply_alike hsession hsecond hconfined.overdraft (hconfined.others other hne.symm)

/-- Calls at different objects leave the same objects in either order. -/
theorem sameObjects_of_ne {machine : Machine} {first second : Command}
    {object other : ObjectKind × String} (hsession : first.invocation.session = none)
    (hnone : second.invocation.session = none) (hfirst : first.operation.object? = some object)
    (hsecond : second.operation.object? = some other) (hne : object ≠ other) :
    ((machine.apply first).state.apply second).state.SameObjects
      ((machine.apply second).state.apply first).state := by
  have hafterFirst := machine.apply_confined hfirst
  have hafterSecond := machine.apply_confined hsecond
  have hthenSecond := (machine.apply first).state.apply_confined hsecond
  have hthenFirst := (machine.apply second).state.apply_confined hfirst
  refine sameObjects_of_objectAt ?_ fun third => ?_
  · rw [hthenSecond.overdraft, hafterFirst.overdraft, hthenFirst.overdraft, hafterSecond.overdraft]
  · -- At either object only its own call counts, and that one does the same in both orders.
    by_cases hthird : third = object
    · subst hthird
      exact (hthenSecond.others third hne).trans
        (machine.apply_alike_after hsession hsecond hfirst hne.symm).state.symm
    · rw [hthenFirst.others third hthird]
      by_cases hother : third = other
      · subst hother
        exact (machine.apply_alike_after hnone hfirst hsecond hne).state
      · rw [hthenSecond.others third hother, hafterFirst.others third hthird,
          hafterSecond.others third hother]

/-- Objects are independent, at every replica. A call at an object, of whatever session and token,
    leaves the sessions and all other objects as they are, and the calls that it answers besides its
    own were parked at that object. And two calls without a session at different objects can trade
    places: each is answered, and answers parked calls, as if the other one had not come first, and
    in the end the sessions and all objects are the same. -/
theorem objects_independent (machine : Machine) :
    (∀ (command : Command) object, command.operation.object? = some object →
      let step := machine.apply command
      step.state.sessions = machine.sessions ∧
        (∀ other, other ≠ object → step.state.objectAt other = machine.objectAt other) ∧
        (step.notes.map Notification.call).Subperm (machine.parkedOn object)) ∧
      ∀ (first second : Command) object other, first.invocation.session = none →
        second.invocation.session = none → first.operation.object? = some object →
        second.operation.object? = some other → object ≠ other →
        let thenSecond := (machine.apply first).state.apply second
        let thenFirst := (machine.apply second).state.apply first
        (thenFirst.answer = (machine.apply first).answer ∧
          thenFirst.notes = (machine.apply first).notes) ∧
          (thenSecond.answer = (machine.apply second).answer ∧
            thenSecond.notes = (machine.apply second).notes) ∧
          thenSecond.state.sessions = thenFirst.state.sessions ∧
          thenSecond.state.SameObjects thenFirst.state := by
  refine ⟨fun command object hobject => ?_,
    fun first second object other hsession hnone hfirst hsecond hne => ?_⟩
  · obtain ⟨hsessions, -, hothers, hnotes⟩ := machine.apply_confined hobject
    exact ⟨hsessions, hothers, hnotes⟩
  · have hfirstAlike := machine.apply_alike_after hsession hsecond hfirst hne.symm
    have hsecondAlike := machine.apply_alike_after hnone hfirst hsecond hne
    refine ⟨⟨hfirstAlike.answer, hfirstAlike.notes⟩, ⟨hsecondAlike.answer, hsecondAlike.notes⟩, ?_,
      sameObjects_of_ne hsession hnone hfirst hsecond hne⟩
    rw [(apply_confined _ hsecond).sessions, (apply_confined _ hfirst).sessions,
      (apply_confined _ hfirst).sessions, (apply_confined _ hsecond).sessions]

/-- A session waits for a permit and, with another call, at a latch. A permit comes free and the
    latch opens, in either order: each call is answered by the operation on its own object, although
    only one answer stays on record and the order decides which one. -/
theorem parked_calls_independent :
    let machine := run { sessionTtl := 10000, dedupCapacity := 1, overdraft := false }
      [{ operation := .session (.create "a") },
        { operation := .latch "gate" (.trySetCount 1) },
        { invocation := { session := some 1, uid := some (.ofNat 1) }
          operation := .semaphore "permit" (.acquire 1 none) },
        { invocation := { session := some 1, uid := some (.ofNat 2) }
          operation := .latch "gate" (.await none) }]
    let permit : Command := { operation := .semaphore "permit" (.increase 1) }
    let gate : Command := { operation := .latch "gate" .countDown }
    let gateLast := (machine.apply permit).state.apply gate
    let permitLast := (machine.apply gate).state.apply permit
    (permitLast.notes.map Notification.call = machine.parkedOn (.semaphore, "permit") ∧
        gateLast.notes.map Notification.call = machine.parkedOn (.latch, "gate")) ∧
      (gateLast.state.sessions = permitLast.state.sessions ∧
        gateLast.state.SameObjects permitLast.state) ∧
      gateLast.state.cache ≠ permitLast.state.cache := by
  intro machine permit gate gateLast permitLast
  obtain ⟨-, htrade⟩ := objects_independent machine
  obtain ⟨⟨-, hpermit⟩, ⟨-, hgate⟩, hsessions, hsame⟩ :=
    htrade permit gate (.semaphore, "permit") (.latch, "gate") rfl rfl rfl rfl (by decide)
  refine ⟨⟨?_, ?_⟩, ⟨hsessions, hsame⟩, by decide +kernel⟩
  · rw [hpermit]
    decide +kernel
  · rw [hgate]
    decide +kernel

end Machine

end Quorum
