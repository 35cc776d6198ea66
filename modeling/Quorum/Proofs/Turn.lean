import Quorum.Proofs.Parked

namespace Quorum

/-- What happens to a call at a semaphore. -/
inductive Turn where
  /-- An acquire is answered at once. -/
  | atOnce (invocation : Invocation) (result : Reply)
  /-- An acquire is parked. -/
  | joined (call : ParkedCall)
  /-- A parked acquire is answered. -/
  | answered (note : Notification)

namespace Turn

/-- The call whose turn it is; one without a token has no name. -/
def call? : Turn → Option ParkedCall
  | atOnce invocation _ =>
    invocation.uid.map fun uid => ⟨SemaphoreOp.acquireKind, uid, invocation.session⟩
  | joined call => some call
  | answered note => some note.call

/-- Whether the call gets its permits. -/
def grants : Turn → Bool
  | atOnce _ result => result = .ok (.bool true)
  | joined _ => false
  | answered note => note.result = .ok (.bool true)

def joined? : Turn → Option ParkedCall
  | joined call => some call
  | _ => none

def note? : Turn → Option Notification
  | answered note => some note
  | _ => none

/-- The parked call that is granted. -/
def granted? (turn : Turn) : Option ParkedCall :=
  (turn.note?.filter fun note => note.result = .ok (.bool true)).map Notification.call

theorem note?_map_answered (notes : List Notification) :
    (notes.map answered).filterMap note? = notes := by
  rw [List.filterMap_map]
  exact List.filterMap_some

end Turn

/-- The turns of a queue that is served first come first served, and the queue that they leave. -/
inductive Fifo : List ParkedCall → List Turn → List ParkedCall → Prop
  | done (queue : List ParkedCall) : Fifo queue [] queue
  | atOnce {queue turns after} {invocation : Invocation} {result : Reply}
    (hfree : result = .ok (.bool true) → queue = []) (h : Fifo queue turns after) :
    Fifo queue (.atOnce invocation result :: turns) after
  | joined {queue turns after} {call : ParkedCall} (h : Fifo (queue ++ [call]) turns after) :
    Fifo queue (.joined call :: turns) after
  | granted {queue turns after} {note : Notification} (hgrant : note.result = .ok (.bool true))
    (h : Fifo queue turns after) : Fifo (note.call :: queue) (.answered note :: turns) after
  | refused {front back turns after} {note : Notification}
    (hrefusal : note.result ≠ .ok (.bool true)) (h : Fifo (front ++ back) turns after) :
    Fifo (front ++ note.call :: back) (.answered note :: turns) after

/-- Until a call with others in front of it is answered, no call is granted but itself and those. -/
def NotOvertaken (front : List ParkedCall) (call : ParkedCall) (turns : List Turn) : Prop :=
  ∀ earlier turn rest, turns = earlier ++ turn :: rest → turn.grants = true →
    turn.call? ∈ (front ++ [call]).map some ∨
      ∃ note, Turn.answered note ∈ earlier ∧ note.call = call

section NotOvertaken

variable {front : List ParkedCall} {call : ParkedCall} {turns : List Turn}

theorem notOvertaken_nil : NotOvertaken front call [] := by
  intro earlier turn rest hturns
  exact absurd hturns (by simp)

/-- After its answer the call can no longer be overtaken. -/
theorem notOvertaken_of_answered {note : Notification} (hcall : note.call = call) :
    NotOvertaken front call (.answered note :: turns) := by
  intro earlier turn rest hturns hgrants
  cases earlier with
  | nil =>
    obtain rfl := (List.cons.inj hturns).1
    exact .inl (by simp [Turn.call?, hcall])
  | cons first earlier =>
    obtain rfl := (List.cons.inj hturns).1
    exact .inr ⟨note, List.mem_cons_self, hcall⟩

/-- A call is not overtaken if the first turn grants nobody behind it, and neither do the others. -/
theorem NotOvertaken.cons (h : NotOvertaken front call turns) {first : Turn}
    (hfirst : first.grants = true → first.call? ∈ (front ++ [call]).map some) :
    NotOvertaken front call (first :: turns) := by
  intro earlier turn rest hturns hgrants
  cases earlier with
  | nil =>
    obtain rfl := (List.cons.inj hturns).1
    exact .inl (hfirst hgrants)
  | cons other earlier =>
    refine (h earlier turn rest (List.cons.inj hturns).2 hgrants).imp_right ?_
    rintro ⟨note, hmem, hcall⟩
    exact ⟨note, List.mem_cons_of_mem _ hmem, hcall⟩

/-- With more calls ahead of it, a call is still not overtaken. -/
theorem NotOvertaken.mono (h : NotOvertaken front call turns) {longer : List ParkedCall}
    (hfront : front.Sublist longer) : NotOvertaken longer call turns := by
  intro earlier turn rest hturns hgrants
  refine (h earlier turn rest hturns hgrants).imp_left fun hmem => ?_
  exact ((hfront.append_right [call]).map some).subset hmem

end NotOvertaken

namespace Fifo

variable {queue middle after : List ParkedCall} {turns later : List Turn}

/-- Turns in order that follow turns in order are in order. -/
theorem append (h : Fifo queue turns middle) (hlater : Fifo middle later after) :
    Fifo queue (turns ++ later) after := by
  induction h with
  | done queue => exact hlater
  | atOnce hfree h ih => exact .atOnce hfree (ih hlater)
  | joined h ih => exact .joined (ih hlater)
  | granted hgrant h ih => exact .granted hgrant (ih hlater)
  | refused hrefusal h ih => exact .refused hrefusal (ih hlater)

/-- Parked calls are granted in the order in which they joined, those before that still wait. -/
theorem in_order (h : Fifo queue turns after) :
    (turns.filterMap Turn.granted? ++ after).Sublist (queue ++ turns.filterMap Turn.joined?) := by
  induction h with
  | done queue => exact (List.append_nil queue).symm ▸ List.Sublist.refl _
  | atOnce hfree h ih => exact ih
  | joined h ih =>
    rw [List.append_assoc] at ih
    exact ih
  | @granted queue turns after note hgrant h ih =>
    have hcall : (Turn.answered note).granted? = some note.call := by
      simp only [Turn.granted?, Turn.note?, Option.filter_some, hgrant, decide_true, if_true,
        Option.map_some]
    rw [List.filterMap_cons_some hcall]
    exact ih.cons_cons note.call
  | @refused front back turns after note hrefusal h ih =>
    have hnone : (Turn.answered note).granted? = none := by
      simp only [Turn.granted?, Turn.note?, Option.filter_some, hrefusal, decide_false,
        Bool.false_eq_true, if_false, Option.map_none]
    rw [List.filterMap_cons_none hnone]
    refine ih.trans (List.Sublist.append_right ?_ _)
    exact (List.Sublist.refl front).append (List.sublist_cons_self note.call back)

/-- A queue that is served first come first served lets nobody be overtaken. -/
theorem notOvertaken (h : Fifo queue turns after) {front back : List ParkedCall} {call : ParkedCall}
    (hqueue : queue = front ++ call :: back) : NotOvertaken front call turns := by
  induction h generalizing front back with
  | done queue => exact notOvertaken_nil
  | atOnce hfree h ih =>
    refine (ih hqueue).cons fun hgrants => ?_
    have hempty := hfree (of_decide_eq_true hgrants)
    exact absurd (hqueue.symm.trans hempty) (by simp)
  | @joined queue turns after newcomer h ih =>
    have hlonger : queue ++ [newcomer] = front ++ call :: (back ++ [newcomer]) := by
      rw [hqueue, List.append_assoc, List.cons_append]
    exact (ih hlonger).cons nofun
  | @granted queue turns after note hgrant h ih =>
    cases front with
    | nil => exact notOvertaken_of_answered (List.cons.inj hqueue).1
    | cons head front =>
      obtain ⟨hhead, hqueue⟩ := List.cons.inj hqueue
      refine ((ih hqueue).mono (List.sublist_cons_self head front)).cons fun _ => ?_
      simp [Turn.call?, hhead]
  | @refused ahead behind turns after note hrefusal h ih =>
    have hrefused : (Turn.answered note).grants = true →
        (Turn.answered note).call? ∈ (front ++ [call]).map some :=
      fun hgrants => absurd (of_decide_eq_true hgrants) hrefusal
    -- The refused call is the waiting one itself, or it is ahead of it or behind it.
    rcases List.append_eq_append_iff.mp hqueue with
      ⟨between, hfront, hbehind⟩ | ⟨between, hahead, hback⟩
    · cases between with
      | nil => exact notOvertaken_of_answered (List.cons.inj hbehind).1
      | cons other between =>
        obtain ⟨-, hbehind⟩ := List.cons.inj hbehind
        have hshorter : ahead ++ behind = (ahead ++ between) ++ call :: back := by
          rw [hbehind, List.append_assoc]
          rfl
        have hsub : (ahead ++ between).Sublist front := by
          rw [hfront]
          exact (List.Sublist.refl ahead).append (List.sublist_cons_self other between)
        exact ((ih hshorter).mono hsub).cons hrefused
    · cases between with
      | nil => exact notOvertaken_of_answered (List.cons.inj hback).1.symm
      | cons other between =>
        obtain ⟨rfl, -⟩ := List.cons.inj hback
        have hshorter : ahead ++ behind = front ++ call :: (between ++ behind) := by
          rw [hahead, List.append_assoc, List.cons_append]
        exact (ih hshorter).cons hrefused

end Fifo

end Quorum
