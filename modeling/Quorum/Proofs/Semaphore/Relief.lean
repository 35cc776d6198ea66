import Mathlib.Algebra.Ring.Int.Defs
import Quorum.Proofs.Semaphore.Queue
import Quorum.Proofs.Semaphore.Turns

namespace Quorum.Semaphore

/-- Permits that several waiters ask for together. -/
def asked (waiters : List AcquireWaiter) : Int :=
  (waiters.map fun waiter => (waiter.permits.toNat : Int)).sum

theorem grantAll_available (semaphore : Semaphore) (waiters : List AcquireWaiter) :
    (semaphore.grantAll waiters).available = semaphore.available - asked waiters := by
  induction waiters generalizing semaphore with
  | nil => simp [asked]
  | cons waiter rest ih =>
    rw [grantAll_cons, ih, grant_available, asked, asked, List.map_cons, List.sum_cons]
    omega

/-- What becomes of a queue whose calls leave as their time is up, where some others are granted. -/
structure Relieved (before after : Semaphore) (notes : List Notification)
    (granted : List AcquireWaiter) : Prop where
  sublist : after.waiters.Sublist before.waiters
  grants : notes.filter (fun note => note.result = .ok (.bool true)) =
    granted.map AcquireWaiter.granted
  /-- The grants are made from the permits that were available. -/
  available : after.available = before.available - asked granted
  fits : granted = [] ∨ 0 ≤ after.available
  /-- Somebody in front of each granted call is told that its time is up, and nobody who was in
      front of it waits any more. -/
  unblocked : ∀ waiter ∈ granted, ∃ front back, before.waiters = front ++ waiter :: back ∧
    (∃ earlier ∈ front, earlier.answer (.ok (.bool false)) ∈ notes) ∧
    ∀ other ∈ front, other ∉ after.waiters

theorem Relieved.refl (semaphore : Semaphore) : Relieved semaphore semaphore [] [] where
  sublist := List.Sublist.refl _
  grants := rfl
  available := by simp [asked]
  fits := .inl rfl
  unblocked _ hmem := absurd hmem List.not_mem_nil

/-- A longer list has the parts of a split in front of and behind the same element. -/
theorem exists_split_of_sublist {α : Type} {front back whole : List α} {a : α}
    (h : (front ++ a :: back).Sublist whole) :
    ∃ ahead behind, whole = ahead ++ a :: behind ∧ front.Sublist ahead ∧ back.Sublist behind := by
  obtain ⟨first, rest, rfl, hfront, hrest⟩ := List.append_sublist_iff.mp h
  obtain ⟨skipped, behind, rfl, hmem, hback⟩ := List.cons_sublist_iff.mp hrest
  obtain ⟨left, right, rfl⟩ := List.append_of_mem hmem
  refine ⟨first ++ left, right ++ behind, by simp, ?_, ?_⟩
  · exact hfront.trans (List.sublist_append_left first left)
  · exact hback.trans (List.sublist_append_right right behind)

/-- Relief composes: calls served first and calls served next are served in turn. -/
theorem Relieved.append {before between after : Semaphore} {notes later : List Notification}
    {granted next : List AcquireWaiter} (h : Relieved before between notes granted)
    (hnext : Relieved between after later next) (hdistinct : before.waiters.Nodup) :
    Relieved before after (notes ++ later) (granted ++ next) where
  sublist := hnext.sublist.trans h.sublist
  grants := by rw [List.filter_append, h.grants, hnext.grants, List.map_append]
  available := by
    have hfirst := h.available
    have hlast := hnext.available
    simp only [asked, List.map_append, List.sum_append] at hfirst hlast ⊢
    omega
  fits := by
    rcases hnext.fits with rfl | hfits
    · have hlast := hnext.available
      simp only [asked, List.map_nil, List.sum_nil, Int.sub_zero] at hlast
      rw [List.append_nil, hlast]
      exact h.fits
    · exact .inr hfits
  unblocked := by
    intro waiter hmem
    rcases List.mem_append.mp hmem with hnow | hafter
    · obtain ⟨front, back, hqueue, ⟨earlier, hearlier, hnote⟩, hgone⟩ := h.unblocked waiter hnow
      exact ⟨front, back, hqueue, ⟨earlier, hearlier, List.mem_append_left later hnote⟩,
        fun other hother hleft => hgone other hother (hnext.sublist.subset hleft)⟩
    · obtain ⟨front, back, hqueue, ⟨earlier, hearlier, hnote⟩, hgone⟩ :=
        hnext.unblocked waiter hafter
      obtain ⟨ahead, behind, hwhole, hfront, hback⟩ :=
        exists_split_of_sublist (hqueue ▸ h.sublist)
      refine ⟨ahead, behind, hwhole,
        ⟨earlier, hfront.subset hearlier, List.mem_append_right notes hnote⟩, ?_⟩
      -- Who is ahead and still waits was there in between as well, so it was in front there.
      intro other hother hleft
      have hapart := (List.nodup_append.mp (hwhole ▸ hdistinct)).2.2 other hother
      have hbetween := hnext.sublist.subset hleft
      rw [hqueue, List.mem_append, List.mem_cons] at hbetween
      rcases hbetween with hin | rfl | hbehind
      · exact hgone other hin hleft
      · exact hapart other List.mem_cons_self rfl
      · exact hapart other (List.mem_cons_of_mem waiter (hback.subset hbehind)) rfl

/-- A timeout relieves the queue of its call and of those it let through. -/
theorem expireWaiter_relieved {semaphore : Semaphore} (hdistinct : semaphore.waiters.Nodup)
    (hblocked : semaphore.HeadBlocked) (uid : InvocationUid) :
    ∃ granted, Relieved semaphore (semaphore.expireWaiter uid).1 (semaphore.expireWaiter uid).2
      granted := by
  cases hfind : semaphore.waiters.find? (fun waiter => waiter.uid = uid) with
  | none =>
    rw [expireWaiter_of_find?_none hfind]
    exact ⟨[], .refl semaphore⟩
  | some waiter =>
    obtain ⟨ahead, behind, hqueue, hleft⟩ := exists_split_of_find? hfind
    have hrefusal : (waiter.answer (.ok (.bool false))).result ≠ .ok (.bool true) := by
      simp [AcquireWaiter.answer]
    have hsublist := expireWaiter_waiters_sublist semaphore uid
    rw [expireWaiter_of_find? hfind] at hsublist ⊢
    rw [grantWaiters, hleft] at hsublist ⊢
    cases ahead with
    | cons head ahead =>
      -- The call leaves no permits behind, so the head that blocked before still does.
      have hhead : (semaphore.withoutUid uid).available < (head.permits.toNat : Int) :=
        hblocked head (by simp [hqueue])
      rw [List.cons_append, serve_cons_of_lt _ hhead] at hsublist ⊢
      refine ⟨[], hsublist, ?_, by simp [asked, withoutUid], .inl rfl,
        fun _ hmem => absurd hmem List.not_mem_nil⟩
      rw [List.filter_cons_of_neg (by simpa using hrefusal)]
      rfl
    | nil =>
      -- The call was the head itself, and those behind it have their turn.
      obtain ⟨granted, rest, hserved, hserve, hfits, -⟩ :=
        serve_spec (semaphore.withoutUid uid) ([] ++ behind)
      rw [hserve] at hsublist ⊢
      rw [List.nil_append] at hserved hqueue
      refine ⟨granted, hsublist, ?_, grantAll_available _ granted, hfits, ?_⟩
      · rw [List.filter_cons_of_neg (by simpa using hrefusal)]
        refine List.filter_eq_self.mpr fun note hmem => ?_
        obtain ⟨other, -, rfl⟩ := List.mem_map.mp hmem
        exact decide_eq_true rfl
      · intro other hmem
        obtain ⟨before, after, rfl⟩ := List.append_of_mem hmem
        have hwhole : semaphore.waiters = (waiter :: before) ++ other :: (after ++ rest) := by
          rw [hqueue, hserved]
          simp
        refine ⟨waiter :: before, after ++ rest, hwhole,
          ⟨waiter, List.mem_cons_self, List.mem_cons_self⟩, ?_⟩
        intro front hfront hstays
        have hapart := (List.nodup_append.mp (hwhole ▸ hdistinct)).2.2 front hfront front
        exact hapart (List.mem_cons_of_mem other (List.mem_append_right after hstays)) rfl

/-- Several tokens are looked for at a semaphore, one after the other. -/
theorem exists_relieved {semaphore : Semaphore} (horderly : semaphore.Orderly)
    (hblocked : semaphore.HeadBlocked) (overdraft : Bool) (name : String)
    (uids : List InvocationUid) :
    ∃ after granted,
      (uids.map .timedOut).foldl (ObjectEvent.follow {} (react overdraft)) (some semaphore) =
        some after ∧
      Relieved semaphore after (notesOf overdraft name (some semaphore) (uids.map .timedOut))
        granted := by
  induction uids generalizing semaphore with
  | nil => exact ⟨semaphore, [], rfl, .refl semaphore⟩
  | cons uid rest ih =>
    have hdistinct : semaphore.waiters.Nodup := .of_map _ horderly.distinct
    obtain ⟨granted, hfirst⟩ := expireWaiter_relieved hdistinct hblocked uid
    obtain ⟨after, next, hafter, hrest⟩ :=
      ih (horderly.react overdraft (.timedOut uid)) (hblocked.expireWaiter uid)
    exact ⟨after, granted ++ next, hafter, hfirst.append hrest hdistinct⟩

end Quorum.Semaphore
