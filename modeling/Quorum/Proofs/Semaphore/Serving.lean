import Quorum.Object.Semaphore
import Quorum.Proofs.SortedMap

namespace Quorum

/-- The answer to a parked acquire that gets its permits. -/
def AcquireWaiter.granted (waiter : AcquireWaiter) : Notification :=
  waiter.answer (.ok (.bool true))

namespace Semaphore

section Grant

variable (semaphore : Semaphore) (holder : Option Holder) (permits : UInt32)

/-- A grant is paid from what is available. -/
@[simp] theorem grant_available :
    (semaphore.grant holder permits).available = semaphore.available - permits.toNat := by
  cases holder <;> rfl

@[simp] theorem grant_capacity :
    (semaphore.grant holder permits).capacity = semaphore.capacity := by
  cases holder <;> rfl

@[simp] theorem grant_initialized :
    (semaphore.grant holder permits).initialized = semaphore.initialized := by
  cases holder <;> rfl

@[simp] theorem grant_waiters :
    (semaphore.grant holder permits).waiters = semaphore.waiters := by
  cases holder <;> rfl

end Grant

/-- Makes the grants of several waiters, one after the other. -/
def grantAll (semaphore : Semaphore) (waiters : List AcquireWaiter) : Semaphore :=
  waiters.foldl (fun semaphore waiter => semaphore.grant waiter.holder waiter.permits) semaphore

@[simp] theorem grantAll_nil (semaphore : Semaphore) : semaphore.grantAll [] = semaphore := rfl

@[simp] theorem grantAll_cons (semaphore : Semaphore) (waiter : AcquireWaiter)
    (rest : List AcquireWaiter) :
    semaphore.grantAll (waiter :: rest) =
      (semaphore.grant waiter.holder waiter.permits).grantAll rest := rfl

theorem grantAll_capacity (semaphore : Semaphore) (waiters : List AcquireWaiter) :
    (semaphore.grantAll waiters).capacity = semaphore.capacity := by
  induction waiters generalizing semaphore with
  | nil => rfl
  | cons waiter rest ih => rw [grantAll_cons, ih, grant_capacity]

theorem grantAll_initialized (semaphore : Semaphore) (waiters : List AcquireWaiter) :
    (semaphore.grantAll waiters).initialized = semaphore.initialized := by
  induction waiters generalizing semaphore with
  | nil => rfl
  | cons waiter rest ih => rw [grantAll_cons, ih, grant_initialized]

/-- A head that asks for more than is available blocks the queue. -/
theorem serve_cons_of_lt {semaphore : Semaphore} {waiter : AcquireWaiter}
    (rest : List AcquireWaiter) (h : semaphore.available < (waiter.permits.toNat : Int)) :
    semaphore.serve (waiter :: rest) = ({ semaphore with waiters := waiter :: rest }, []) :=
  if_pos h

/-- A head that asks for no more than is available is served. -/
theorem serve_cons_of_le {semaphore : Semaphore} {waiter : AcquireWaiter}
    (rest : List AcquireWaiter) (h : (waiter.permits.toNat : Int) ≤ semaphore.available) :
    semaphore.serve (waiter :: rest) =
      (((semaphore.grant waiter.holder waiter.permits).serve rest).1,
        waiter.granted :: ((semaphore.grant waiter.holder waiter.permits).serve rest).2) :=
  if_neg (Int.not_lt.mpr h)

/-- Serving a queue grants its longest prefix that fits, in order, and leaves the rest. -/
theorem serve_spec (semaphore : Semaphore) (queue : List AcquireWaiter) :
    ∃ granted rest, queue = granted ++ rest ∧
      semaphore.serve queue =
        ({ semaphore.grantAll granted with waiters := rest }, granted.map AcquireWaiter.granted) ∧
      (granted = [] ∨ 0 ≤ (semaphore.grantAll granted).available) ∧
      ∀ waiter ∈ rest.head?,
        (semaphore.grantAll granted).available < (waiter.permits.toNat : Int) := by
  induction queue generalizing semaphore with
  | nil => exact ⟨[], [], rfl, rfl, .inl rfl, by simp⟩
  | cons waiter rest ih =>
    by_cases hfit : semaphore.available < (waiter.permits.toNat : Int)
    · exact ⟨[], waiter :: rest, rfl, serve_cons_of_lt rest hfit, .inl rfl, by simpa using hfit⟩
    · obtain ⟨granted, left, hqueue, hserve, hfits, hhead⟩ :=
        ih (semaphore.grant waiter.holder waiter.permits)
      refine ⟨waiter :: granted, left, by rw [hqueue, List.cons_append], ?_, .inr ?_, ?_⟩
      · rw [serve_cons_of_le rest (Int.not_lt.mp hfit), hserve, grantAll_cons, List.map_cons]
      · rw [grantAll_cons]
        rcases hfits with rfl | hfits
        · rw [grantAll_nil, grant_available]
          omega
        · exact hfits
      · simpa only [grantAll_cons] using hhead

/-- The queue after serving is a suffix of the queue before. -/
theorem serve_waiters_suffix (semaphore : Semaphore) (queue : List AcquireWaiter) :
    (semaphore.serve queue).1.waiters <:+ queue := by
  obtain ⟨granted, rest, hqueue, hserve, -, -⟩ := serve_spec semaphore queue
  rw [hserve, hqueue]
  exact List.suffix_append granted rest

end Semaphore

end Quorum
