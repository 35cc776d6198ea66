import Quorum.Operation
import Quorum.Object.Parked

namespace Quorum

inductive ObjectEvent (Op : Type) where
  | call (op : Op) (invocation : Invocation) (now : Millis)
  | sessionClosed (session : SessionId)
  | timedOut (uid : InvocationUid)
  | destroyed

namespace ObjectEvent

variable {Op α β : Type}

def isCall : ObjectEvent Op → Bool
  | .call .. => true
  | _ => false

/-- The object that is there when the event takes effect. A call creates a missing object. -/
def subject (event : ObjectEvent Op) (new : α) (object? : Option α) : Option α :=
  match event with
  | .call .. => some (object?.getD new)
  | .destroyed => none
  | .sessionClosed _ | .timedOut _ => object?

/-- The object after the event. -/
def follow (new : α) (react : α → ObjectEvent Op → α × List Notification) (object? : Option α)
    (event : ObjectEvent Op) : Option α :=
  (event.subject new object?).map fun object => (react object event).1

/-- A function that respects new objects carries over to the object that an event finds. -/
theorem map_subject (event : ObjectEvent Op) (f : α → β) (new : α) (object? : Option α) :
    (event.subject new object?).map f = event.subject (f new) (object?.map f) := by
  cases event <;> cases object? <;> rfl

/-- The event finds an object that was there, or a new one that it calls. -/
theorem subject_eq_some {event : ObjectEvent Op} {new object : α} {object? : Option α}
    (h : event.subject new object? = some object) : object? = some object ∨ object = new := by
  cases event with
  | call op invocation now =>
    obtain rfl := Option.some.inj h
    cases object? with
    | none => exact .inr rfl
    | some object => exact .inl rfl
  | sessionClosed session => exact .inl h
  | timedOut uid => exact .inl h
  | destroyed => cases h

/-- Following events commutes with a map that commutes with the reactions. -/
theorem map_foldl_follow {f : α → β} {new : α}
    {react : α → ObjectEvent Op → α × List Notification}
    {react' : β → ObjectEvent Op → β × List Notification}
    (hreact : ∀ object event, f (react object event).1 = (react' (f object) event).1)
    (events : List (ObjectEvent Op)) (object? : Option α) :
    (events.foldl (follow new react) object?).map f =
      events.foldl (follow (f new) react') (object?.map f) := by
  induction events generalizing object? with
  | nil => rfl
  | cons event rest ih =>
    have hfirst : (follow new react object? event).map f =
        follow (f new) react' (object?.map f) event := by
      rw [follow, follow, ← map_subject, Option.map_map, Option.map_map]
      exact congrFun (congrArg _ (funext fun object => hreact object event)) _
    rw [List.foldl_cons, List.foldl_cons, ← hfirst]
    exact ih _

/-- An object that is there after an event reacted to it, either as it was or as a new one. -/
theorem follow_eq_some {event : ObjectEvent Op} {new object : α} {object? : Option α}
    {react : α → ObjectEvent Op → α × List Notification}
    (h : follow new react object? event = some object) :
    ∃ before, (object? = some before ∨ before = new) ∧ (react before event).1 = object := by
  obtain ⟨before, hsubject, rfl⟩ := Option.map_eq_some_iff.mp h
  exact ⟨before, subject_eq_some hsubject, rfl⟩

/-- What events give, one after the other, where `reply` says what the event gives that finds an
    object. -/
def replies {γ : Type} (new : α) (react : α → ObjectEvent Op → α × List Notification)
    (reply : Option α → ObjectEvent Op → List γ) : Option α → List (ObjectEvent Op) → List γ
  | _, [] => []
  | object?, event :: rest =>
    reply object? event ++ replies new react reply (follow new react object? event) rest

/-- What a new object has and every event keeps, the object has after the events. -/
theorem follow_induction {P : α → Prop} {new : α}
    {react : α → ObjectEvent Op → α × List Notification} {events : List (ObjectEvent Op)}
    (hnew : P new) (hreact : ∀ event ∈ events, ∀ object, P object → P (react object event).1)
    {object? : Option α} (h : ∀ object, object? = some object → P object) {object : α}
    (hobject : events.foldl (follow new react) object? = some object) : P object := by
  induction events generalizing object? with
  | nil => exact h object hobject
  | cons event rest ih =>
    refine ih (fun other hmem => hreact other (List.mem_cons_of_mem _ hmem)) ?_ hobject
    intro after hafter
    obtain ⟨before, hbefore | rfl, rfl⟩ := follow_eq_some hafter
    · exact hreact event List.mem_cons_self before (h before hbefore)
    · exact hreact event List.mem_cons_self _ hnew

end ObjectEvent

end Quorum
