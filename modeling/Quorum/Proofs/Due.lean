import Quorum.Proofs.Semaphore.Relief
import Quorum.Proofs.Timeout

namespace Quorum

/-- The notification that tells a parked call its result. -/
def ParkedCall.answer (call : ParkedCall) (result : Reply) : Notification :=
  { uid := call.uid, session := call.session, kind := call.kind, result }

/-- The calls that wait are those that waited before, less those that are answered. -/
def Conserved (before after : List Wait) (notes : List Notification) : Prop :=
  (after.map Wait.call ++ notes.map Notification.call).Perm (before.map Wait.call)

/-- Two steps that conserve what waits do so together. -/
theorem Conserved.append {before between after : List Wait} {notes later : List Notification}
    (h : Conserved before between notes) (hlater : Conserved between after later) :
    Conserved before after (notes ++ later) := by
  rw [Conserved, List.map_append]
  refine (List.perm_append_comm.append_left _).trans ?_
  rw [← List.append_assoc]
  exact (hlater.append_right _).trans h

/-- Several tokens are looked for at an object, one after the other. -/
theorem Conserved.of_replies {Op α : Type} {new : α}
    {react : α → ObjectEvent Op → α × List Notification}
    {reply : Option α → ObjectEvent Op → List Notification} {waits : Option α → List Wait}
    (hstep : ∀ object? uid, Conserved (waits object?)
      (waits (ObjectEvent.follow new react object? (.timedOut uid)))
      (reply object? (.timedOut uid)))
    (uids : List InvocationUid) (object? : Option α) :
    Conserved (waits object?)
      (waits ((uids.map .timedOut).foldl (ObjectEvent.follow new react) object?))
      (ObjectEvent.replies new react reply object? (uids.map .timedOut)) := by
  induction uids generalizing object? with
  | nil => exact List.Perm.of_eq (List.append_nil _)
  | cons uid rest ih => exact (hstep object? uid).append (ih _)

/-- Who has one of the tokens is told one result, once. -/
theorem TimedOut.answered_once {uids : List InvocationUid} {before after : List Wait}
    {notes : List Notification} (h : TimedOut uids before after notes)
    (hconserved : Conserved before after notes) (hdistinct : (before.map Wait.call).Nodup)
    {wait : Wait} (hmem : wait ∈ before) (huid : wait.call.uid ∈ uids) :
    ∃ granted : Bool,
      notes.filter (fun note => note.call = wait.call) =
        [wait.call.answer (.ok (.bool granted))] := by
  have hbefore : (before.map Wait.call).count wait.call = 1 :=
    List.count_eq_one_of_mem hdistinct (List.mem_map_of_mem hmem)
  have hafter : (after.map Wait.call).count wait.call = 0 := by
    refine List.count_eq_zero.mpr fun hstays => ?_
    obtain ⟨other, hother, heq⟩ := List.mem_map.mp hstays
    exact h.cleared other hother (heq ▸ huid)
  have hcount := hconserved.count_eq wait.call
  rw [List.count_append, hbefore, hafter, Nat.zero_add, List.count_eq_countP, List.countP_map,
    List.countP_eq_length_filter] at hcount
  obtain ⟨note, hnote⟩ := List.length_eq_one_iff.mp hcount
  have hfilter : notes.filter (fun note => note.call = wait.call) = [note] := by
    refine (List.filter_congr fun other _ => ?_).trans hnote
    exact (beq_eq_decide other.call wait.call).symm
  have hown := hfilter ▸ List.mem_singleton_self note
  obtain ⟨hgiven, hcall⟩ := List.mem_filter.mp hown
  have heq : note = wait.call.answer note.result := by
    rw [← of_decide_eq_true hcall]
    rfl
  rw [hfilter]
  rcases (h.result note hgiven).2 with hgranted | ⟨hrefused, -⟩
  · exact ⟨true, by rw [heq, hgranted]⟩
  · exact ⟨false, by rw [heq, hrefused]⟩

namespace Semaphore

theorem map_call_waits (semaphore : Semaphore) :
    (waits (some semaphore)).map Wait.call = semaphore.parkedCalls := by
  simp [waits, parkedCalls, AcquireWaiter.wait, Function.comp_def]

/-- The timeouts of some tokens keep a wait at a semaphore or answer it. -/
theorem conserved_notesOf (overdraft : Bool) (name : String) (semaphore? : Option Semaphore)
    (uids : List InvocationUid) :
    Conserved (waits semaphore?)
      (waits ((uids.map .timedOut).foldl (ObjectEvent.follow {} (react overdraft)) semaphore?))
      (notesOf overdraft name semaphore? (uids.map .timedOut)) := by
  refine .of_replies (fun semaphore? uid => ?_) uids semaphore?
  cases semaphore? with
  | none => exact List.Perm.refl _
  | some semaphore =>
    have hconserved := semaphore.expireWaiter_parkedCalls uid
    rwa [← map_call_waits, ← map_call_waits] at hconserved

/-- An acquire that has one of the tokens is told once whether it was granted first. -/
theorem Relieved.answered_once {before after : Semaphore} {notes : List Notification}
    {granted : List AcquireWaiter} {uids : List InvocationUid}
    (h : Relieved before after notes granted) (horderly : before.Orderly)
    (htimed : TimedOut uids (waits (some before)) (waits (some after)) notes)
    (hconserved : Conserved (waits (some before)) (waits (some after)) notes)
    (hdistinct : before.parkedCalls.Nodup) {waiter : AcquireWaiter}
    (hmem : waiter ∈ before.waiters) (huid : waiter.uid ∈ uids) :
    notes.filter (fun note => note.call = waiter.call) =
      [waiter.answer (.ok (.bool (decide (waiter ∈ granted))))] := by
  rw [← map_call_waits] at hdistinct
  obtain ⟨served, hnotes⟩ :=
    htimed.answered_once hconserved hdistinct (List.mem_map_of_mem hmem) huid
  have hanswer : waiter.answer (.ok (.bool served)) ∈ notes :=
    List.mem_of_mem_filter (hnotes ▸ List.mem_singleton_self _)
  -- It was told the truth: granted notes and granted calls are the same, in the same order.
  have hserved : served = decide (waiter ∈ granted) := by
    cases served with
    | true =>
      have hgrant : waiter.answer (.ok (.bool true)) ∈ granted.map AcquireWaiter.granted :=
        h.grants ▸ List.mem_filter.mpr ⟨hanswer, decide_eq_true rfl⟩
      obtain ⟨other, hother, heq⟩ := List.mem_map.mp hgrant
      obtain ⟨front, back, hqueue, -⟩ := h.unblocked other hother
      have hqueued : other ∈ before.waiters := by simp [hqueue]
      have hsame : other = waiter :=
        List.inj_on_of_nodup_map horderly.distinct hqueued hmem (congrArg Notification.uid heq)
      exact (decide_eq_true (hsame ▸ hother)).symm
    | false =>
      refine (decide_eq_false fun hgranted => ?_).symm
      have hgrant : waiter.granted ∈ notes.filter fun note => note.result = .ok (.bool true) :=
        h.grants ▸ List.mem_map_of_mem hgranted
      have hown : waiter.granted ∈ notes.filter fun note => note.call = waiter.wait.call :=
        List.mem_filter.mpr ⟨List.mem_of_mem_filter hgrant, decide_eq_true rfl⟩
      rw [hnotes, List.mem_singleton] at hown
      have hresult := congrArg Notification.result hown
      simp [AcquireWaiter.granted, AcquireWaiter.answer, ParkedCall.answer] at hresult
  rw [← hserved]
  exact hnotes

end Semaphore

namespace Latch

theorem map_call_waits (latch : Latch) :
    (waits (some latch)).map Wait.call = latch.parkedCalls := by
  simp [waits, parkedCalls, AwaitWaiter.wait, Function.comp_def]

/-- The timeouts of some tokens keep a wait at a latch or answer it. -/
theorem conserved_notesOf (name : String) (latch? : Option Latch) (uids : List InvocationUid) :
    Conserved (waits latch?)
      (waits ((uids.map .timedOut).foldl (ObjectEvent.follow {} (react name)) latch?))
      (notesOf name latch? (uids.map .timedOut)) := by
  refine .of_replies (fun latch? uid => ?_) uids latch?
  cases latch? with
  | none => exact List.Perm.refl _
  | some latch =>
    have hconserved := latch.expireWaiter_parkedCalls uid
    rwa [← map_call_waits, ← map_call_waits] at hconserved

/-- Nobody is granted when the time of some tokens is said to be up, as the count stays as it is. -/
theorem not_granted_of_timedOut {name : String} {latch? : Option Latch}
    {uids : List InvocationUid} {note : Notification}
    (h : note ∈ notesOf name latch? (uids.map .timedOut)) : note.result ≠ .ok (.bool true) := by
  intro hgranted
  induction uids generalizing latch? with
  | nil => cases h
  | cons uid rest ih =>
    rcases List.mem_append.mp h with hnow | hlater
    · obtain ⟨_, _, _, -, hevent, -⟩ := opens_of_granted hnow hgranted
      cases hevent
    · exact ih hlater

/-- An await that has one of the tokens is told once that its time is up. -/
theorem answered_once {name : String} {latch? : Option Latch}
    (h : ∀ latch, latch? = some latch → latch.Orderly)
    (hdistinct : ((waits latch?).map Wait.call).Nodup) {uids : List InvocationUid} {wait : Wait}
    (hmem : wait ∈ waits latch?) (huid : wait.call.uid ∈ uids) :
    (notesOf name latch? (uids.map .timedOut)).filter (fun note => note.call = wait.call) =
      [wait.call.answer (.ok (.bool false))] := by
  obtain ⟨granted, hnotes⟩ := (timedOut_notesOf h name uids).answered_once
    (conserved_notesOf name latch? uids) hdistinct hmem huid
  cases granted with
  | false => exact hnotes
  | true =>
    have hnote := List.mem_of_mem_filter (hnotes ▸ List.mem_singleton_self _)
    exact absurd rfl (not_granted_of_timedOut hnote)

end Latch

end Quorum
