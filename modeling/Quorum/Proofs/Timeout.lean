import Quorum.Proofs.Latch.Rounds
import Quorum.Proofs.Semaphore.Turns

namespace Quorum

/-- A parked call with its deadline. -/
structure Wait where
  call : ParkedCall
  deadline : Option Millis
  deriving DecidableEq

/-- Whether the time of a parked call is up. A call without a deadline waits for ever. -/
def Wait.isDue (wait : Wait) (now : Millis) : Bool := wait.deadline.any (· ≤ now)

def AcquireWaiter.wait (waiter : AcquireWaiter) : Wait := ⟨waiter.call, waiter.deadline⟩

def AwaitWaiter.wait (waiter : AwaitWaiter) : Wait := ⟨waiter.call, waiter.deadline⟩

/-- What becomes of a queue when the time of some tokens is said to be up. -/
structure TimedOut (uids : List InvocationUid) (before after : List Wait)
    (notes : List Notification) : Prop where
  /-- Nobody joins the queue or changes places, and deadlines stay as they are. -/
  sublist : after.Sublist before
  /-- Who leaves the queue is answered. -/
  answered : ∀ wait ∈ before, wait ∈ after ∨ ∃ note ∈ notes, note.call = wait.call
  /-- Nobody stays under one of the tokens. -/
  cleared : ∀ wait ∈ after, wait.call.uid ∉ uids
  /-- Those who are answered were in the queue. They are granted, or they have one of the tokens and
      are told that their time is up. -/
  result : ∀ note ∈ notes, note.call ∈ before.map Wait.call ∧
    (note.result = .ok (.bool true) ∨ note.result = .ok (.bool false) ∧ note.uid ∈ uids)

namespace TimedOut

variable {uids later : List InvocationUid} {before between after : List Wait}
  {notes laterNotes : List Notification}

/-- Who has none of the tokens stays in the queue or is granted. -/
theorem stays_or_granted (h : TimedOut uids before after notes) {wait : Wait}
    (hmem : wait ∈ before) (hother : wait.call.uid ∉ uids) :
    wait ∈ after ∨ ∃ note ∈ notes, note.call = wait.call ∧ note.result = .ok (.bool true) := by
  refine (h.answered wait hmem).imp_right ?_
  rintro ⟨note, hnote, hcall⟩
  refine ⟨note, hnote, hcall, (h.result note hnote).2.resolve_right ?_⟩
  rintro ⟨-, huid⟩
  exact hother (congrArg ParkedCall.uid hcall ▸ huid)

/-- Where nobody has one of the tokens, nothing happens. -/
theorem of_absent (h : ∀ wait ∈ before, wait.call.uid ∉ uids) : TimedOut uids before before [] where
  sublist := List.Sublist.refl _
  answered _ hmem := .inl hmem
  cleared := h
  result _ hmem := absurd hmem List.not_mem_nil

/-- The timeouts of two lists of tokens, one after the other, are those of both. -/
theorem append (h : TimedOut uids before between notes)
    (hlater : TimedOut later between after laterNotes) :
    TimedOut (uids ++ later) before after (notes ++ laterNotes) where
  sublist := hlater.sublist.trans h.sublist
  answered := by
    intro wait hmem
    rcases h.answered wait hmem with hbetween | ⟨note, hnote, hcall⟩
    · refine (hlater.answered wait hbetween).imp_right ?_
      rintro ⟨note, hnote, hcall⟩
      exact ⟨note, List.mem_append_right _ hnote, hcall⟩
    · exact .inr ⟨note, List.mem_append_left _ hnote, hcall⟩
  cleared := by
    intro wait hmem
    rw [List.mem_append, not_or]
    exact ⟨h.cleared wait (hlater.sublist.subset hmem), hlater.cleared wait hmem⟩
  result := by
    intro note hmem
    rcases List.mem_append.mp hmem with hnow | hafter
    · obtain ⟨hqueued, hresult⟩ := h.result note hnow
      exact ⟨hqueued, hresult.imp_right (And.imp_right (List.mem_append_left later))⟩
    · obtain ⟨hqueued, hresult⟩ := hlater.result note hafter
      exact ⟨(h.sublist.map Wait.call).subset hqueued,
        hresult.imp_right (And.imp_right (List.mem_append_right uids))⟩

/-- The call under a token is told that its time is up, and then some others are granted. -/
theorem of_hit {uid : InvocationUid} {hit : Wait} (granted : List Wait) {left : List Wait}
    {refusal : Notification} {grants : List Notification}
    (hqueue : (hit :: (granted ++ left)).Perm before) (hsublist : left.Sublist before)
    (hdistinct : (before.map fun wait => wait.call.uid).Nodup) (huid : hit.call.uid = uid)
    (hrefusal : refusal.call = hit.call) (hrefused : refusal.result = .ok (.bool false))
    (hgrants : grants.map Notification.call = granted.map Wait.call)
    (hgranted : ∀ note ∈ grants, note.result = .ok (.bool true)) :
    TimedOut [uid] before left (refusal :: grants) where
  sublist := hsublist
  answered := by
    intro wait hmem
    rcases List.mem_cons.mp (hqueue.mem_iff.mpr hmem) with rfl | hother
    · exact .inr ⟨refusal, List.mem_cons_self, hrefusal⟩
    · rcases List.mem_append.mp hother with hserved | hleft
      · have hcall : wait.call ∈ grants.map Notification.call :=
          hgrants ▸ List.mem_map_of_mem hserved
        obtain ⟨note, hnote, heq⟩ := List.mem_map.mp hcall
        exact .inr ⟨note, List.mem_cons_of_mem _ hnote, heq⟩
      · exact .inl hleft
  cleared := by
    intro wait hmem
    have hnodup := (hqueue.map fun wait => wait.call.uid).nodup_iff.mpr hdistinct
    rw [List.map_cons, List.nodup_cons] at hnodup
    rw [List.mem_singleton, ← huid]
    exact fun heq => hnodup.1 (heq ▸ List.mem_map_of_mem (List.mem_append_right granted hmem))
  result := by
    intro note hmem
    rcases List.mem_cons.mp hmem with rfl | hgrant
    · have hown : note.uid = uid := (congrArg ParkedCall.uid hrefusal).trans huid
      refine ⟨?_, .inr ⟨hrefused, List.mem_singleton.mpr hown⟩⟩
      rw [hrefusal]
      exact List.mem_map_of_mem (hqueue.mem_iff.mp List.mem_cons_self)
    · have hcall : note.call ∈ granted.map Wait.call := hgrants ▸ List.mem_map_of_mem hgrant
      obtain ⟨wait, hserved, heq⟩ := List.mem_map.mp hcall
      refine ⟨?_, .inl (hgranted note hgrant)⟩
      rw [← heq]
      exact List.mem_map_of_mem
        (hqueue.mem_iff.mp (List.mem_cons_of_mem hit (List.mem_append_left left hserved)))

/-- Several tokens are looked for at an object, one after the other. -/
theorem of_replies {Op α : Type} {new : α} {react : α → ObjectEvent Op → α × List Notification}
    {reply : Option α → ObjectEvent Op → List Notification} {waits : Option α → List Wait}
    {Good : α → Prop} (hnone : waits none = [])
    (hsilent : ∀ uid, reply none (.timedOut uid) = [])
    (hgood : ∀ object, Good object → ∀ uid, Good (react object (.timedOut uid)).1)
    (hstep : ∀ object, Good object → ∀ uid, TimedOut [uid] (waits (some object))
      (waits (some (react object (.timedOut uid)).1)) (reply (some object) (.timedOut uid)))
    (uids : List InvocationUid) {object? : Option α}
    (h : ∀ object, object? = some object → Good object) :
    TimedOut uids (waits object?)
      (waits ((uids.map .timedOut).foldl (ObjectEvent.follow new react) object?))
      (ObjectEvent.replies new react reply object? (uids.map .timedOut)) := by
  induction uids generalizing object? with
  | nil => exact .of_absent fun _ _ => List.not_mem_nil
  | cons uid rest ih =>
    rw [List.map_cons, List.foldl_cons, ObjectEvent.replies]
    cases object? with
    | none =>
      have hfirst : TimedOut [uid] (waits none) (waits none) (reply none (.timedOut uid)) := by
        rw [hsilent, hnone]
        exact .of_absent fun _ hmem => absurd hmem List.not_mem_nil
      exact hfirst.append (ih h)
    | some object =>
      refine (hstep object (h object rfl) uid).append (ih ?_)
      intro after hafter
      obtain rfl := Option.some.inj hafter
      exact hgood object (h object rfl) uid

end TimedOut

/-- Nobody in a queue has a token that is not found there. -/
theorem absent_of_find?_none {α : Type} {wait : α → Wait} {uidOf : α → InvocationUid}
    (huid : ∀ waiter, (wait waiter).call.uid = uidOf waiter) {waiters : List α}
    {uid : InvocationUid} (h : waiters.find? (fun waiter => uidOf waiter = uid) = none) :
    ∀ entry ∈ waiters.map wait, entry.call.uid ∉ [uid] := by
  intro entry hmem
  obtain ⟨waiter, hwaiter, rfl⟩ := List.mem_map.mp hmem
  rw [List.mem_singleton, huid]
  simpa using List.find?_eq_none.mp h waiter hwaiter

namespace Semaphore

/-- The calls that wait at a semaphore, if there is one. -/
def waits (semaphore? : Option Semaphore) : List Wait :=
  (semaphore?.map fun semaphore => semaphore.waiters.map AcquireWaiter.wait).getD []

/-- A timeout of one token answers the acquire under it and no other. -/
theorem expireWaiter_timedOut {semaphore : Semaphore} (h : semaphore.Orderly)
    (uid : InvocationUid) :
    TimedOut [uid] (waits (some semaphore)) (waits (some (semaphore.expireWaiter uid).1))
      (semaphore.expireWaiter uid).2 := by
  cases hfind : semaphore.waiters.find? (fun waiter => waiter.uid = uid) with
  | none =>
    rw [expireWaiter_of_find?_none hfind]
    exact .of_absent (absent_of_find?_none (fun _ => rfl) hfind)
  | some waiter =>
    have huid : waiter.uid = uid := by simpa using List.find?_some hfind
    have hsublist := (expireWaiter_waiters_sublist semaphore uid).map AcquireWaiter.wait
    have hqueue := (perm_eraseP_of_find? hfind).map AcquireWaiter.wait
    obtain ⟨granted, rest, hleft, hserve, -, -⟩ :=
      serve_spec (semaphore.withoutUid uid) (semaphore.withoutUid uid).waiters
    have heq : (semaphore.withoutUid uid).waiters =
        semaphore.waiters.eraseP fun waiter => waiter.uid = uid := rfl
    rw [← heq, hleft, List.map_cons, List.map_append] at hqueue
    rw [expireWaiter_of_find? hfind, grantWaiters, hserve] at hsublist ⊢
    refine .of_hit _ hqueue hsublist ?_ huid rfl rfl ?_ ?_
    · rw [waits, Option.map_some, Option.getD_some, List.map_map]
      exact h.distinct
    · have hcalls : (granted.map AcquireWaiter.wait).map Wait.call =
          granted.map AcquireWaiter.call := List.map_map
      rw [hcalls]
      exact AcquireWaiter.map_call_answer granted _
    · intro note hmem
      obtain ⟨other, -, rfl⟩ := List.mem_map.mp hmem
      rfl

/-- The timeouts of some tokens at a semaphore answer the acquires under them and no others. -/
theorem timedOut_notesOf {semaphore? : Option Semaphore}
    (h : ∀ semaphore, semaphore? = some semaphore → semaphore.Orderly) (overdraft : Bool)
    (name : String) (uids : List InvocationUid) :
    TimedOut uids (waits semaphore?)
      (waits ((uids.map .timedOut).foldl (ObjectEvent.follow {} (react overdraft)) semaphore?))
      (notesOf overdraft name semaphore? (uids.map .timedOut)) :=
  .of_replies rfl (fun _ => rfl) (fun _ hbefore uid => hbefore.react overdraft (.timedOut uid))
    (fun _ hbefore uid => expireWaiter_timedOut hbefore uid) uids h

end Semaphore

namespace Latch

/-- The calls that wait at a latch, if there is one. -/
def waits (latch? : Option Latch) : List Wait :=
  (latch?.map fun latch => latch.waiters.map AwaitWaiter.wait).getD []

/-- A timeout of one token answers the await under it and no other. -/
theorem expireWaiter_timedOut {latch : Latch} (h : latch.Orderly) (uid : InvocationUid) :
    TimedOut [uid] (waits (some latch)) (waits (some (latch.expireWaiter uid).1))
      (latch.expireWaiter uid).2 := by
  cases hfind : latch.waiters.find? (fun waiter => waiter.uid = uid) with
  | none =>
    simp only [expireWaiter, hfind]
    exact .of_absent (absent_of_find?_none (fun _ => rfl) hfind)
  | some waiter =>
    have huid : waiter.uid = uid := by simpa using List.find?_some hfind
    have hqueue := (perm_eraseP_of_find? hfind).map AwaitWaiter.wait
    simp only [expireWaiter, hfind]
    refine .of_hit [] hqueue (List.eraseP_sublist.map AwaitWaiter.wait) ?_ huid rfl rfl rfl
      fun _ hmem => absurd hmem List.not_mem_nil
    rw [waits, Option.map_some, Option.getD_some, List.map_map]
    exact h.distinct

/-- The timeouts of some tokens at a latch answer the awaits under them and no others. -/
theorem timedOut_notesOf {latch? : Option Latch}
    (h : ∀ latch, latch? = some latch → latch.Orderly) (name : String)
    (uids : List InvocationUid) :
    TimedOut uids (waits latch?)
      (waits ((uids.map .timedOut).foldl (ObjectEvent.follow {} (react name)) latch?))
      (notesOf name latch? (uids.map .timedOut)) :=
  .of_replies rfl (fun _ => rfl) (fun _ hbefore uid => hbefore.react name (.timedOut uid))
    (fun _ hbefore uid => expireWaiter_timedOut hbefore uid) uids h

end Latch

end Quorum
