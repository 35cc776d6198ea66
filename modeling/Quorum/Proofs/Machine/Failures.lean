import Quorum.Proofs.Latch.Reaction
import Quorum.Proofs.Machine.Run
import Quorum.Proofs.Semaphore.Reaction

namespace Quorum

/-- The reply is not one of a member that does not lead. -/
def Definite (reply : Reply) : Prop :=
  ∀ failure, reply = .error failure → failure.isRetryable = false

theorem definite_ok (value : Value) : Definite (.ok value) := nofun

theorem definite_error {failure : Failure} (h : failure.isRetryable = false) :
    Definite (.error failure) := by
  intro other heq
  cases heq
  exact h

/-- An answer is definite if it is one already, or a parked call's to come. -/
def Applied.Definite (answer : Applied) : Prop :=
  ∀ reply, answer = .done reply → Quorum.Definite reply

theorem Applied.definite_done {reply : Reply} (h : Quorum.Definite reply) :
    (Applied.done reply).Definite := by
  intro other heq
  cases heq
  exact h

theorem Applied.definite_waiting : Applied.waiting.Definite := nofun

def DefiniteNotes (notes : List Notification) : Prop := ∀ note ∈ notes, Definite note.result

theorem definiteNotes_nil : DefiniteNotes [] := nofun

/-- Notifications that follow definite ones are definite together with them if they are. -/
theorem DefiniteNotes.append {notes later : List Notification} (h : DefiniteNotes notes)
    (hlater : DefiniteNotes later) : DefiniteNotes (notes ++ later) := by
  intro note hmem
  exact (List.mem_append.mp hmem).elim (h note) (hlater note)

/-- Notifications of several objects are definite if those of each are. -/
theorem definiteNotes_flatMap {α : Type} {items : List α} {notes : α → List Notification}
    (h : ∀ item, DefiniteNotes (notes item)) : DefiniteNotes (items.flatMap notes) := by
  intro note hmem
  obtain ⟨item, -, hnote⟩ := List.mem_flatMap.mp hmem
  exact h item note hnote

/-- Notes that all give the same reply. -/
theorem definiteNotes_map {α : Type} {items : List α} {answer : α → Notification} {reply : Reply}
    (hresult : ∀ item, (answer item).result = reply) (h : Definite reply) :
    DefiniteNotes (items.map answer) := by
  intro note hmem
  obtain ⟨item, -, rfl⟩ := List.mem_map.mp hmem
  rw [hresult]
  exact h

/-- A reference answers definitely. -/
theorem AtomicRefs.apply_definite (refs : AtomicRefs) (name : String) (op : AtomicRefOp) :
    (refs.apply name op).answer.Definite ∧ DefiniteNotes (refs.apply name op).notes := by
  cases op <;> exact ⟨Applied.definite_done (definite_ok _), definiteNotes_nil⟩

namespace Semaphore

/-- A semaphore that serves its queue answers definitely. -/
theorem grantWaiters_definite (semaphore : Semaphore) : DefiniteNotes semaphore.grantWaiters.2 := by
  obtain ⟨granted, rest, -, hserve, -, -⟩ := serve_spec semaphore semaphore.waiters
  rw [grantWaiters, hserve]
  exact definiteNotes_map (fun _ => rfl) (definite_ok _)

/-- A semaphore at which a session closes answers definitely. -/
theorem closeSession_definite (semaphore : Semaphore) (session : SessionId) :
    DefiniteNotes (semaphore.closeSession session).2 := by
  rw [closeSession_eq]
  refine DefiniteNotes.append ?_ (grantWaiters_definite _)
  exact definiteNotes_map (fun _ => rfl) (definite_error rfl)

/-- A semaphore at which a call times out answers definitely. -/
theorem expireWaiter_definite (semaphore : Semaphore) (uid : InvocationUid) :
    DefiniteNotes (semaphore.expireWaiter uid).2 := by
  unfold expireWaiter
  split
  · exact definiteNotes_nil
  · exact List.forall_mem_cons.mpr ⟨definite_ok _, grantWaiters_definite _⟩

/-- An acquire is answered definitely. -/
theorem acquire_definite (semaphore : Semaphore) (invocation : Invocation) (permits : UInt32)
    (timeout : Option Millis) (now : Millis) :
    (semaphore.acquire invocation permits timeout now).answer.Definite ∧
      DefiniteNotes (semaphore.acquire invocation permits timeout now).notes := by
  unfold acquire
  simp only
  split
  · exact ⟨Applied.definite_done (definite_error rfl), definiteNotes_nil⟩
  split
  · exact ⟨Applied.definite_waiting, definiteNotes_nil⟩
  split
  · exact ⟨Applied.definite_done (definite_ok _), definiteNotes_nil⟩
  split
  · exact ⟨Applied.definite_done (definite_ok _), definiteNotes_nil⟩
  split
  · exact ⟨Applied.definite_done (definite_error rfl), definiteNotes_nil⟩
  · exact ⟨Applied.definite_waiting, definiteNotes_nil⟩

/-- A release is answered definitely, and so are those whom it serves. -/
theorem release_definite (semaphore : Semaphore) (invocation : Invocation) (permits : UInt32) :
    Definite ((semaphore.release invocation permits).answer.map fun _ => .unit) ∧
      DefiniteNotes (semaphore.release invocation permits).notes := by
  unfold release
  simp only
  split
  · exact ⟨definite_error rfl, definiteNotes_nil⟩
  split
  · split
    · exact ⟨definite_error rfl, definiteNotes_nil⟩
    split
    · exact ⟨definite_ok _, grantWaiters_definite _⟩
    · exact ⟨definite_ok _, grantWaiters_definite _⟩
  · split
    · exact ⟨definite_error rfl, definiteNotes_nil⟩
    · exact ⟨definite_ok _, grantWaiters_definite _⟩

end Semaphore

namespace Semaphores

/-- A call of a semaphore is answered definitely, by cases on the operation. -/
theorem step_definite (overdraft : Bool) (semaphore : Semaphore) (op : SemaphoreOp)
    (invocation : Invocation) (now : Millis) :
    (step overdraft semaphore op invocation now).answer.Definite ∧
      DefiniteNotes (step overdraft semaphore op invocation now).notes := by
  cases op with
  | acquire permits timeout => exact semaphore.acquire_definite invocation permits timeout now
  | release permits =>
    obtain ⟨hanswer, hnotes⟩ := semaphore.release_definite invocation permits
    exact ⟨Applied.definite_done hanswer, hnotes⟩
  | init permits =>
    refine ⟨Applied.definite_done (definite_ok _), ?_⟩
    simp only [step, Semaphore.init]
    split
    · exact definiteNotes_nil
    · exact Semaphore.grantWaiters_definite _
  | increase permits =>
    exact ⟨Applied.definite_done (definite_ok _), Semaphore.grantWaiters_definite _⟩
  | drain => exact ⟨Applied.definite_done (definite_ok _), definiteNotes_nil⟩
  | availablePermits => exact ⟨Applied.definite_done (definite_ok _), definiteNotes_nil⟩
  | reduce permits =>
    simp only [step, Semaphore.reduce]
    split
    · exact ⟨Applied.definite_done (definite_ok _), definiteNotes_nil⟩
    · rename_i failure hreduce
      split at hreduce
      · cases hreduce
        exact ⟨Applied.definite_done (definite_error rfl), definiteNotes_nil⟩
      · cases hreduce

/-- A call of a named semaphore is answered definitely. -/
theorem apply_definite (semaphores : Semaphores) (name : String) (op : SemaphoreOp)
    (invocation : Invocation) (now : Millis) :
    (semaphores.apply name op invocation now).answer.Definite ∧
      DefiniteNotes (semaphores.apply name op invocation now).notes := by
  unfold apply
  split
  · refine ⟨Applied.definite_done ?_, definiteNotes_nil⟩
    cases op <;> first | exact definite_ok _ | exact definite_error rfl
  · exact step_definite semaphores.overdraft _ op invocation now

/-- A destroyed semaphore answers those who wait definitely. -/
theorem destroy_definite (semaphores : Semaphores) (name : String) :
    DefiniteNotes (semaphores.destroy name).notes := by
  unfold destroy
  split
  · exact definiteNotes_nil
  · exact definiteNotes_map (fun _ => rfl) (definite_error rfl)

end Semaphores

namespace Latch

/-- A latch answers parked calls definitely, whatever befalls it. -/
theorem react_definite (name : String) (latch : Latch) (event : ObjectEvent LatchOp) :
    DefiniteNotes (latch.react name event).2 := by
  have hchange := react_change name latch event
  generalize latch.react name event = result at hchange
  cases hchange with
  | opened => exact definiteNotes_map (fun _ => rfl) (definite_ok _)
  | disconnected => exact definiteNotes_map (fun _ => rfl) (definite_error rfl)
  | timedOut => exact List.forall_mem_singleton.mpr (definite_ok _)
  | _ => exact definiteNotes_nil

/-- A call of a latch is answered definitely. -/
theorem call_definite (latch : Latch) (op : LatchOp) (invocation : Invocation) (now : Millis) :
    (latch.call op invocation now).answer.Definite := by
  cases op with
  | countDown => exact Applied.definite_done (definite_ok _)
  | getCount => exact Applied.definite_done (definite_ok _)
  | getRound => exact Applied.definite_done (definite_ok _)
  | trySetCount count =>
    simp only [call, trySetCount]
    split
    · exact Applied.definite_done (definite_ok _)
    · rename_i failure hset
      split at hset
      · cases hset
        exact Applied.definite_done (definite_error rfl)
      · split at hset <;> cases hset
  | await timeout =>
    simp only [call, await]
    split
    · exact Applied.definite_done (definite_ok _)
    split
    · exact Applied.definite_done (definite_ok _)
    split
    · exact Applied.definite_done (definite_error rfl)
    split
    · exact Applied.definite_waiting
    · exact Applied.definite_waiting

end Latch

namespace Latches

/-- A call of a named latch is answered definitely. -/
theorem apply_definite (latches : Latches) (name : String) (op : LatchOp) (invocation : Invocation)
    (now : Millis) :
    (latches.apply name op invocation now).answer.Definite ∧
      DefiniteNotes (latches.apply name op invocation now).notes := by
  cases hop : op.isReadOnly with
  | true =>
    rw [apply_of_readOnly latches name hop invocation now]
    refine ⟨Applied.definite_done ?_, definiteNotes_nil⟩
    cases op <;> first | exact definite_ok _ | exact definite_error rfl
  | false =>
    rw [apply_eq latches name hop invocation now]
    exact ⟨Latch.call_definite _ op invocation now,
      Latch.react_definite name _ (.call op invocation now)⟩

/-- A destroyed latch answers those who wait definitely. -/
theorem destroy_definite (latches : Latches) (name : String) :
    DefiniteNotes (latches.destroy name).notes := by
  unfold destroy
  split
  · exact definiteNotes_nil
  · exact definiteNotes_map (fun _ => rfl) (definite_error rfl)

end Latches

namespace Machine

/-- The objects of a session that closes answer definitely. -/
theorem releaseSession_definite (machine : Machine) (session : SessionId) :
    DefiniteNotes (machine.releaseSession session).2 :=
  (definiteNotes_flatMap fun semaphore => semaphore.closeSession_definite session).append
    (definiteNotes_flatMap fun entry =>
      Latch.react_definite entry.1 entry.2 (.sessionClosed session))

/-- Sessions that expire bring definite answers, by induction on the sessions. -/
theorem expireSessions_definite (machine : Machine) (sessions : List (SessionId × UInt64)) :
    DefiniteNotes (machine.expireSessions sessions).notes := by
  induction sessions generalizing machine with
  | nil => exact definiteNotes_nil
  | cons entry rest ih =>
    unfold expireSessions
    split
    · exact ih machine
    · exact (releaseSession_definite _ entry.1).append (ih _)

/-- Timeouts bring definite answers, by induction on the tokens. -/
theorem expireWaitKeys_definite (machine : Machine) (uids : List InvocationUid) :
    DefiniteNotes (machine.expireWaitKeys uids).2 := by
  induction uids generalizing machine with
  | nil => exact definiteNotes_nil
  | cons uid rest ih =>
    have hsemaphores : DefiniteNotes (machine.semaphores.expireWaitKey uid).2 :=
      definiteNotes_flatMap fun semaphore => semaphore.expireWaiter_definite uid
    have hlatches : DefiniteNotes (machine.latches.expireWaitKey uid).2 :=
      definiteNotes_flatMap fun entry => Latch.react_definite entry.1 entry.2 (.timedOut uid)
    exact (hsemaphores.append hlatches).append (ih _)

/-- A session operation is answered definitely. -/
theorem applySession_definite (machine : Machine) (op : SessionOp) (now : Millis) :
    (machine.applySession op now).answer.Definite ∧
      DefiniteNotes (machine.applySession op now).notes := by
  cases op with
  | create endpoint => exact ⟨Applied.definite_done (definite_ok _), definiteNotes_nil⟩
  | generateThreadId => exact ⟨Applied.definite_done (definite_ok _), definiteNotes_nil⟩
  | heartbeat session =>
    simp only [applySession, SessionRegistry.heartbeat]
    cases machine.sessions.get? session with
    | some found => exact ⟨Applied.definite_done (definite_ok _), definiteNotes_nil⟩
    | none => exact ⟨Applied.definite_done (definite_error rfl), definiteNotes_nil⟩
  | close session =>
    simp only [applySession]
    split
    · exact ⟨Applied.definite_done (definite_ok _), definiteNotes_nil⟩
    · exact ⟨Applied.definite_done (definite_ok _), releaseSession_definite _ session⟩

/-- An operation is answered definitely, by cases on what it concerns. -/
theorem execute_definite (machine : Machine) (operation : Operation) (invocation : Invocation)
    (now : Millis) :
    (machine.execute operation invocation now).answer.Definite ∧
      DefiniteNotes (machine.execute operation invocation now).notes := by
  cases operation with
  | session op => exact machine.applySession_definite op now
  | atomicRef name op => exact machine.refs.apply_definite name op
  | semaphore name op => exact machine.semaphores.apply_definite name op invocation now
  | latch name op => exact machine.latches.apply_definite name op invocation now
  | expireSessions sessions =>
    exact ⟨Applied.definite_done (definite_ok _), machine.expireSessions_definite sessions⟩
  | expireWaitKeys keys =>
    exact ⟨Applied.definite_done (definite_ok _), machine.expireWaitKeys_definite keys⟩
  | destroy kind name =>
    refine ⟨Applied.definite_done (definite_ok _), ?_⟩
    cases kind with
    | atomicRef => exact definiteNotes_nil
    | semaphore => exact machine.semaphores.destroy_definite name
    | latch => exact machine.latches.destroy_definite name

/-- No command is answered, and no parked call either, as by a member that does not lead. -/
theorem apply_definite (machine : Machine) (command : Command) :
    (machine.apply command).answer.Definite ∧ DefiniteNotes (machine.apply command).notes := by
  unfold apply
  simp only
  split
  · exact ⟨Applied.definite_done (definite_error rfl), definiteNotes_nil⟩
  split
  · exact ⟨Applied.definite_done (definite_ok _), definiteNotes_nil⟩
  · exact machine.execute_definite command.operation command.invocation command.timestamp

end Machine

end Quorum
