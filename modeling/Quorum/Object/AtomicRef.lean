import Quorum.Operation
import Quorum.Object.Parked

namespace Quorum

/-- A single slot. -/
structure AtomicRef where
  value : Option Blob := none
  deriving DecidableEq, Inhabited

namespace AtomicRef

def set (_ : AtomicRef) (value : Option Blob) : AtomicRef := ⟨value⟩

/-- The old value, and the slot with the new one. -/
def getAndSet (slot : AtomicRef) (value : Option Blob) : Option Blob × AtomicRef :=
  (slot.value, slot.set value)

/-- Writes only over the expected value. -/
def compareAndSet (slot : AtomicRef) (expected new : Option Blob) : Bool × AtomicRef :=
  if slot.value = expected then (true, slot.set new) else (false, slot)

def contains (slot : AtomicRef) (value : Option Blob) : Bool := slot.value = value

end AtomicRef

/-- The atomic references of a replica, by name. -/
structure AtomicRefs where
  slots : SortedMap String AtomicRef := ∅
  deriving DecidableEq, Inhabited

namespace AtomicRefs

/-- The named slot, empty if it does not exist. -/
def slot (refs : AtomicRefs) (name : String) : AtomicRef := refs.slots.getD name {}

def put (refs : AtomicRefs) (name : String) (slot : AtomicRef) : AtomicRefs :=
  ⟨refs.slots.insert name slot⟩

/-- Reads a slot without creating it; a missing one reads as empty. -/
def query (refs : AtomicRefs) (name : String) (op : AtomicRefOp) : Reply :=
  let current := refs.slots.get? name
  match op with
  | .get => .ok (.blob (current.bind (·.value)))
  | .contains value => .ok (.bool (match current with
    | some slot => slot.contains value
    | none => value.isNone))
  | _ => .error (.invalidArgument "not a read-only atomic reference operation")

/-- A missing slot is read as the empty one. -/
theorem query_eq_slot (refs : AtomicRefs) (name : String) (op : AtomicRefOp) :
    refs.query name op = match op with
      | .get => .ok (.blob (refs.slot name).value)
      | .contains value => .ok (.bool ((refs.slot name).contains value))
      | _ => .error (.invalidArgument "not a read-only atomic reference operation") := by
  have hempty (value : Option Blob) : value.isNone = AtomicRef.contains {} value := by
    cases value <;> rfl
  cases hcurrent : refs.slots.get? name <;> cases op <;>
    simp [query, slot, SortedMap.getD, hcurrent, hempty]

def apply (refs : AtomicRefs) (name : String) (op : AtomicRefOp) : Step AtomicRefs Applied :=
  match op with
  | .set value => { answer := .ok .unit, state := refs.put name ((refs.slot name).set value) }
  | .getAndSet value =>
    let (old, slot) := (refs.slot name).getAndSet value
    { answer := .ok (.blob old), state := refs.put name slot }
  | .compareAndSet expected new =>
    let (swapped, slot) := (refs.slot name).compareAndSet expected new
    { answer := .ok (.bool swapped), state := refs.put name slot }
  | .get | .contains _ => { answer := .done (refs.query name op), state := refs }

/-- Removes a slot, and tells whether there was one. -/
def destroy (refs : AtomicRefs) (name : String) : Bool × AtomicRefs :=
  (refs.slots.contains name, ⟨refs.slots.erase name⟩)

end AtomicRefs

end Quorum
