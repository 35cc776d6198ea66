import Quorum.Proofs.Latch.Reaction
import Quorum.Proofs.Machine.Run
import Quorum.Proofs.Semaphore.Reaction

namespace Quorum

namespace SessionRegistry

/-- The sessions of a proposal that are closed when it is applied. -/
def closable (registry : SessionRegistry) : List (SessionId × UInt64) → List SessionId
  | [] => []
  | (session, version) :: rest =>
    match registry.closeIfVersion session version with
    | none => registry.closable rest
    | some (_, later) => session :: later.closable rest

def without (registry : SessionRegistry) (session : SessionId) : SessionRegistry :=
  { registry with sessions := registry.sessions.erase session }

theorem close_eq (registry : SessionRegistry) (session : SessionId) :
    registry.close session = (registry.get? session).map fun found =>
      (found, registry.without session) := rfl

/-- A session that is closed is taken out of the registry. -/
theorem closeIfVersion_eq_some {registry later : SessionRegistry} {session : SessionId}
    {version : UInt64} {found : Session}
    (h : registry.closeIfVersion session version = some (found, later)) :
    later = registry.without session := by
  unfold closeIfVersion at h
  split at h
  · split at h
    · rw [close_eq] at h
      obtain ⟨other, -, heq⟩ := Option.map_eq_some_iff.mp h
      exact (Prod.mk.inj heq).2.symm
    · cases h
  · cases h

/-- The sessions that are open after a closing are the others. -/
theorem isActive_without (registry : SessionRegistry) (closed session : SessionId) :
    (registry.without closed).isActive session = true ↔
      registry.isActive session = true ∧ session ≠ closed := by
  simp only [isActive, get?, without, SortedMap.get?_erase]
  by_cases heq : closed = session
  · simp [heq]
  · simp [heq, Ne.symm heq]

/-- Opening a session closes none. -/
theorem isActive_create {registry : SessionRegistry} {endpoint : String} {now : Millis}
    {session : SessionId} (h : registry.isActive session = true) :
    (registry.create endpoint now).2.isActive session = true := by
  simp only [isActive, get?, create, SortedMap.get?_insert]
  split
  · rfl
  · exact h

/-- A heartbeat closes no session. -/
theorem isActive_heartbeat {registry renewed : SessionRegistry} {id session : SessionId}
    {now : Millis} (hrenewed : registry.heartbeat id now = .ok renewed)
    (h : registry.isActive session = true) : renewed.isActive session = true := by
  unfold heartbeat at hrenewed
  split at hrenewed
  · cases hrenewed
  · cases hrenewed
    simp only [isActive, get?, SortedMap.get?_insert]
    split
    · rfl
    · exact h

end SessionRegistry

namespace Machine

/-- The sessions that an operation closes, in order. -/
def closings (machine : Machine) : Operation → List SessionId
  | .session (.close session) => if machine.sessions.isActive session then [session] else []
  | .expireSessions sessions => machine.sessions.closable sessions
  | _ => []

/-- Closes sessions that are open, one after the other. -/
def closeAll (machine : Machine) : List SessionId → Machine × List Notification
  | [] => (machine, [])
  | session :: rest =>
    let (released, notes) :=
      { machine with sessions := machine.sessions.without session }.releaseSession session
    let (state, later) := released.closeAll rest
    (state, notes ++ later)

/-- To expire sessions is to close those whose version is the one seen, in order. -/
theorem expireSessions_eq (machine : Machine) (sessions : List (SessionId × UInt64)) :
    machine.expireSessions sessions =
      { answer := (machine.sessions.closable sessions).length
        state := (machine.closeAll (machine.sessions.closable sessions)).1
        notes := (machine.closeAll (machine.sessions.closable sessions)).2 } := by
  induction sessions generalizing machine with
  | nil => rfl
  | cons entry rest ih =>
    obtain ⟨session, version⟩ := entry
    simp only [expireSessions, SessionRegistry.closable]
    cases hclose : machine.sessions.closeIfVersion session version with
    | none => exact ih machine
    | some closed =>
      obtain ⟨found, later⟩ := closed
      obtain rfl := SessionRegistry.closeIfVersion_eq_some hclose
      simp only [ih]
      rfl

/-- To close a session is to close all that a list of it names. -/
theorem applySession_close (machine : Machine) (session : SessionId) (now : Millis) :
    machine.applySession (.close session) now =
      { answer := .ok (.bool (machine.sessions.isActive session))
        state := (machine.closeAll (machine.closings (.session (.close session)))).1
        notes := (machine.closeAll (machine.closings (.session (.close session)))).2 } := by
  unfold applySession closings SessionRegistry.isActive
  rcases Option.eq_none_or_eq_some (machine.sessions.get? session) with hclosed | ⟨found, hopen⟩
  · simp only [SessionRegistry.close_eq, hclosed]
    rfl
  · simp only [SessionRegistry.close_eq, hopen, Option.map_some, Option.isSome_some, if_true,
      closeAll, List.append_nil]

/-- What an executed operation is to the objects of a kind that have a name. -/
def operationEvents {Op : Type} (machine : Machine) (operation : Operation)
    (invocation : Invocation) (now : Millis) (kind : ObjectKind) (name : String)
    (call? : Operation → Option Op) : List (ObjectEvent Op) :=
  match operation with
  | .destroy other named => if other = kind ∧ named = name then [.destroyed] else []
  | .expireWaitKeys uids => uids.map .timedOut
  | operation =>
    match call? operation with
    | some op => [.call op invocation now]
    | none => (machine.closings operation).map .sessionClosed

/-- The operation as a call at the named semaphore. Reading is none. -/
def semaphoreCall? (name : String) : Operation → Option SemaphoreOp
  | .semaphore named op => if named = name ∧ op.isReadOnly = false then some op else none
  | _ => none

/-- The operation as a call at the named latch. Reading is none. -/
def latchCall? (name : String) : Operation → Option LatchOp
  | .latch named op => if named = name ∧ op.isReadOnly = false then some op else none
  | _ => none

def semaphoreEvents (machine : Machine) (command : Command) (name : String) :
    List (ObjectEvent SemaphoreOp) :=
  if machine.executes command then
    machine.operationEvents command.operation command.invocation command.timestamp .semaphore name
      (semaphoreCall? name)
  else []

def latchEvents (machine : Machine) (command : Command) (name : String) :
    List (ObjectEvent LatchOp) :=
  if machine.executes command then
    machine.operationEvents command.operation command.invocation command.timestamp .latch name
      (latchCall? name)
  else []

/-- An event at a semaphore comes from a command that is executed. -/
theorem executes_of_mem_semaphoreEvents {machine : Machine} {command : Command} {name : String}
    {event : ObjectEvent SemaphoreOp} (h : event ∈ machine.semaphoreEvents command name) :
    machine.executes command = true := by
  by_contra hnot
  rw [semaphoreEvents, if_neg hnot] at h
  cases h

/-- An event at a latch comes from a command that is executed. -/
theorem executes_of_mem_latchEvents {machine : Machine} {command : Command} {name : String}
    {event : ObjectEvent LatchOp} (h : event ∈ machine.latchEvents command name) :
    machine.executes command = true := by
  by_contra hnot
  rw [latchEvents, if_neg hnot] at h
  cases h

/-- An executed call that does more than read is the one event at its object. -/
theorem semaphoreEvents_of_call {machine : Machine} {command : Command} {name : String}
    {op : SemaphoreOp} (hoperation : command.operation = .semaphore name op)
    (hread : op.isReadOnly = false) (hexecutes : machine.executes command = true) :
    machine.semaphoreEvents command name = [.call op command.invocation command.timestamp] := by
  simp only [semaphoreEvents, hexecutes, if_true, operationEvents, hoperation, semaphoreCall?,
    hread, and_self]

/-- An executed call of a latch is its one event. -/
theorem latchEvents_of_call {machine : Machine} {command : Command} {name : String} {op : LatchOp}
    (hoperation : command.operation = .latch name op) (hread : op.isReadOnly = false)
    (hexecutes : machine.executes command = true) :
    machine.latchEvents command name = [.call op command.invocation command.timestamp] := by
  simp only [latchEvents, hexecutes, if_true, operationEvents, hoperation, latchCall?, hread,
    and_self]

end Machine

namespace Semaphores

theorem get?_put (semaphores : Semaphores) (name other : String) (semaphore : Semaphore) :
    (semaphores.put name semaphore).get? other =
      if name = other then some semaphore else semaphores.get? other :=
  SortedMap.get?_insert semaphores.byName name semaphore other

/-- A sweep changes each semaphore. -/
theorem get?_stepAll (semaphores : Semaphores) (f : Semaphore → Semaphore × List Notification)
    (name : String) :
    (semaphores.stepAll f).1.get? name = (semaphores.get? name).map fun semaphore =>
      (f semaphore).1 :=
  SortedMap.get?_mapValues semaphores.byName (fun _ semaphore => (f semaphore).1) name

/-- A call of a semaphore is its reaction, and the others stay. -/
theorem get?_apply (semaphores : Semaphores) (name other : String) {op : SemaphoreOp}
    (h : op.isReadOnly = false) (invocation : Invocation) (now : Millis) :
    (semaphores.apply name op invocation now).state.get? other =
      if name = other then
        some (((semaphores.get? name).getD {}).react semaphores.overdraft
          (.call op invocation now)).1
      else semaphores.get? other := by
  simp only [apply, h, Bool.false_eq_true, if_false]
  exact get?_put semaphores name other _

/-- A destroyed semaphore is gone, and the others stay. -/
theorem get?_destroy (semaphores : Semaphores) (name other : String) :
    (semaphores.destroy name).state.get? other =
      if name = other then none else semaphores.get? other := by
  unfold destroy
  split
  · rename_i hmissing
    split
    · rename_i heq
      rw [← heq, hmissing]
    · rfl
  · exact SortedMap.get?_erase semaphores.byName name other

/-- No command changes whether permits may be overdrawn. -/
theorem apply_overdraft (semaphores : Semaphores) (name : String) (op : SemaphoreOp)
    (invocation : Invocation) (now : Millis) :
    (semaphores.apply name op invocation now).state.overdraft = semaphores.overdraft := by
  unfold apply
  split <;> rfl

theorem destroy_overdraft (semaphores : Semaphores) (name : String) :
    (semaphores.destroy name).state.overdraft = semaphores.overdraft := by
  unfold destroy
  split <;> rfl

end Semaphores

namespace Latches

theorem get?_put (latches : Latches) (name other : String) (latch : Latch) :
    (latches.put name latch).get? other =
      if name = other then some latch else latches.get? other :=
  SortedMap.get?_insert latches.byName name latch other

/-- A sweep changes each latch. -/
theorem get?_stepAll (latches : Latches) (f : String → Latch → Latch × List Notification)
    (name : String) :
    (latches.stepAll f).1.get? name = (latches.get? name).map fun latch => (f name latch).1 :=
  SortedMap.get?_mapValues latches.byName (fun name latch => (f name latch).1) name

/-- A call of a latch is its reaction, and the others stay. -/
theorem get?_apply (latches : Latches) (name other : String) {op : LatchOp}
    (h : op.isReadOnly = false) (invocation : Invocation) (now : Millis) :
    (latches.apply name op invocation now).state.get? other =
      if name = other then
        some (((latches.get? name).getD {}).react name (.call op invocation now)).1
      else latches.get? other := by
  rw [apply_eq latches name h]
  exact get?_put latches name other _

/-- A destroyed latch is gone, and the others stay. -/
theorem get?_destroy (latches : Latches) (name other : String) :
    (latches.destroy name).state.get? other =
      if name = other then none else latches.get? other := by
  unfold destroy
  split
  · rename_i hmissing
    split
    · rename_i heq
      rw [← heq, hmissing]
    · rfl
  · exact SortedMap.get?_erase latches.byName name other

end Latches

namespace Machine

/-- A semaphore reacts to the closing of each session in turn. -/
theorem closeAll_semaphore (machine : Machine) (closed : List SessionId) (overdraft : Bool)
    (name : String) :
    (machine.closeAll closed).1.semaphores.get? name =
      (closed.map ObjectEvent.sessionClosed).foldl
        (ObjectEvent.follow {} (Semaphore.react overdraft)) (machine.semaphores.get? name) := by
  induction closed generalizing machine with
  | nil => rfl
  | cons session rest ih =>
    rw [closeAll, ih, List.map_cons, List.foldl_cons]
    congr 1
    exact Semaphores.get?_stepAll machine.semaphores
      (fun semaphore => semaphore.closeSession session) name

/-- A latch reacts to the closing of each session in turn. -/
theorem closeAll_latch (machine : Machine) (closed : List SessionId) (name : String) :
    (machine.closeAll closed).1.latches.get? name =
      (closed.map ObjectEvent.sessionClosed).foldl
        (ObjectEvent.follow {} (Latch.react name)) (machine.latches.get? name) := by
  induction closed generalizing machine with
  | nil => rfl
  | cons session rest ih =>
    rw [closeAll, ih, List.map_cons, List.foldl_cons]
    congr 1
    exact Latches.get?_stepAll machine.latches
      (fun name latch => latch.releaseOwner name session) name

/-- A semaphore reacts to each timeout in turn. -/
theorem expireWaitKeys_semaphore (machine : Machine) (uids : List InvocationUid) (overdraft : Bool)
    (name : String) :
    (machine.expireWaitKeys uids).1.semaphores.get? name =
      (uids.map ObjectEvent.timedOut).foldl
        (ObjectEvent.follow {} (Semaphore.react overdraft)) (machine.semaphores.get? name) := by
  induction uids generalizing machine with
  | nil => rfl
  | cons uid rest ih =>
    rw [expireWaitKeys, ih, List.map_cons, List.foldl_cons]
    congr 1
    exact Semaphores.get?_stepAll machine.semaphores
      (fun semaphore => semaphore.expireWaiter uid) name

/-- A latch reacts to each timeout in turn. -/
theorem expireWaitKeys_latch (machine : Machine) (uids : List InvocationUid) (name : String) :
    (machine.expireWaitKeys uids).1.latches.get? name =
      (uids.map ObjectEvent.timedOut).foldl
        (ObjectEvent.follow {} (Latch.react name)) (machine.latches.get? name) := by
  induction uids generalizing machine with
  | nil => rfl
  | cons uid rest ih =>
    rw [expireWaitKeys, ih, List.map_cons, List.foldl_cons]
    congr 1
    exact Latches.get?_stepAll machine.latches (fun _ latch => latch.expireWaiter uid) name

/-- An operation leaves a semaphore as the events that it brings about do. -/
theorem execute_semaphore (machine : Machine) (operation : Operation) (invocation : Invocation)
    (now : Millis) (name : String) :
    (machine.execute operation invocation now).state.semaphores.get? name =
      (machine.operationEvents operation invocation now .semaphore name
        (semaphoreCall? name)).foldl
        (ObjectEvent.follow {} (Semaphore.react machine.semaphores.overdraft))
        (machine.semaphores.get? name) := by
  cases operation with
  | session op =>
    cases op with
    | create endpoint => rfl
    | generateThreadId => rfl
    | heartbeat session =>
      simp only [execute, applySession]
      split <;> rfl
    | close session =>
      rw [execute, applySession_close]
      exact closeAll_semaphore machine _ _ name
  | atomicRef named op => rfl
  | latch named op => rfl
  | expireWaitKeys uids => exact expireWaitKeys_semaphore machine uids _ name
  | expireSessions sessions =>
    simp only [execute, expireSessions_eq]
    exact closeAll_semaphore machine _ _ name
  | destroy kind named =>
    cases kind with
    | atomicRef => rfl
    | latch => rfl
    | semaphore =>
      refine (Semaphores.get?_destroy machine.semaphores named name).trans ?_
      by_cases hname : named = name
      · simp only [operationEvents, hname, and_self, if_true]
        rfl
      · simp only [operationEvents, hname, and_false, if_false]
        rfl
  | semaphore named op =>
    simp only [operationEvents, semaphoreCall?, closings]
    cases hread : op.isReadOnly with
    | true =>
      simp only [execute, Semaphores.apply, hread, if_true, Bool.true_eq_false, and_false, if_false]
      rfl
    | false =>
      refine (Semaphores.get?_apply machine.semaphores named name hread invocation now).trans ?_
      by_cases hname : named = name
      · simp only [hname, and_self, if_true]
        rfl
      · simp only [hname, false_and, if_false]
        rfl

/-- An operation leaves a latch as the events that it brings about do. -/
theorem execute_latch (machine : Machine) (operation : Operation) (invocation : Invocation)
    (now : Millis) (name : String) :
    (machine.execute operation invocation now).state.latches.get? name =
      (machine.operationEvents operation invocation now .latch name (latchCall? name)).foldl
        (ObjectEvent.follow {} (Latch.react name)) (machine.latches.get? name) := by
  cases operation with
  | session op =>
    cases op with
    | create endpoint => rfl
    | generateThreadId => rfl
    | heartbeat session =>
      simp only [execute, applySession]
      split <;> rfl
    | close session =>
      rw [execute, applySession_close]
      exact closeAll_latch machine _ name
  | atomicRef named op => rfl
  | semaphore named op => rfl
  | expireWaitKeys uids => exact expireWaitKeys_latch machine uids name
  | expireSessions sessions =>
    simp only [execute, expireSessions_eq]
    exact closeAll_latch machine _ name
  | destroy kind named =>
    cases kind with
    | atomicRef => rfl
    | semaphore => rfl
    | latch =>
      refine (Latches.get?_destroy machine.latches named name).trans ?_
      by_cases hname : named = name
      · simp only [operationEvents, hname, and_self, if_true]
        rfl
      · simp only [operationEvents, hname, and_false, if_false]
        rfl
  | latch named op =>
    simp only [operationEvents, latchCall?, closings]
    cases hread : op.isReadOnly with
    | true =>
      simp only [execute, Latches.apply_of_readOnly _ _ hread, Bool.true_eq_false, and_false,
        if_false]
      rfl
    | false =>
      refine (Latches.get?_apply machine.latches named name hread invocation now).trans ?_
      by_cases hname : named = name
      · simp only [hname, and_self, if_true]
        rfl
      · simp only [hname, false_and, if_false]
        rfl

theorem closeAll_overdraft (machine : Machine) (closed : List SessionId) :
    (machine.closeAll closed).1.semaphores.overdraft = machine.semaphores.overdraft := by
  induction closed generalizing machine with
  | nil => rfl
  | cons session rest ih => exact ih _

theorem expireWaitKeys_overdraft (machine : Machine) (uids : List InvocationUid) :
    (machine.expireWaitKeys uids).1.semaphores.overdraft = machine.semaphores.overdraft := by
  induction uids generalizing machine with
  | nil => rfl
  | cons uid rest ih => exact ih _

theorem execute_overdraft (machine : Machine) (operation : Operation) (invocation : Invocation)
    (now : Millis) :
    (machine.execute operation invocation now).state.semaphores.overdraft =
      machine.semaphores.overdraft := by
  cases operation with
  | session op =>
    cases op with
    | create endpoint => rfl
    | generateThreadId => rfl
    | heartbeat session =>
      simp only [execute, applySession]
      split <;> rfl
    | close session =>
      rw [execute, applySession_close]
      exact closeAll_overdraft machine _
  | atomicRef name op => rfl
  | latch name op => rfl
  | semaphore name op => exact Semaphores.apply_overdraft machine.semaphores name op invocation now
  | expireWaitKeys uids => exact expireWaitKeys_overdraft machine uids
  | expireSessions sessions =>
    simp only [execute, expireSessions_eq]
    exact closeAll_overdraft machine _
  | destroy kind name =>
    cases kind with
    | atomicRef => rfl
    | latch => rfl
    | semaphore => exact Semaphores.destroy_overdraft machine.semaphores name

theorem apply_overdraft (machine : Machine) (command : Command) :
    (machine.apply command).state.semaphores.overdraft = machine.semaphores.overdraft := by
  cases hexecutes : machine.executes command with
  | true =>
    obtain ⟨cache, hstate⟩ := apply_state_of_executes hexecutes
    rw [hstate]
    exact execute_overdraft machine _ _ _
  | false =>
    obtain ⟨result, hstate, -⟩ := apply_of_not_executes hexecutes
    rw [hstate]

/-- A command does to a semaphore what its events at the semaphore do. -/
theorem apply_semaphore (machine : Machine) (command : Command) (name : String) :
    (machine.apply command).state.semaphores.get? name =
      (machine.semaphoreEvents command name).foldl
        (ObjectEvent.follow {} (Semaphore.react machine.semaphores.overdraft))
        (machine.semaphores.get? name) := by
  unfold semaphoreEvents
  cases hexecutes : machine.executes command with
  | true =>
    obtain ⟨cache, hstate⟩ := apply_state_of_executes hexecutes
    rw [hstate]
    exact execute_semaphore machine _ _ _ name
  | false =>
    obtain ⟨result, hstate, -⟩ := apply_of_not_executes hexecutes
    rw [hstate]
    rfl

/-- A command does to a latch what its events at the latch do. -/
theorem apply_latch (machine : Machine) (command : Command) (name : String) :
    (machine.apply command).state.latches.get? name =
      (machine.latchEvents command name).foldl (ObjectEvent.follow {} (Latch.react name))
        (machine.latches.get? name) := by
  unfold latchEvents
  cases hexecutes : machine.executes command with
  | true =>
    obtain ⟨cache, hstate⟩ := apply_state_of_executes hexecutes
    rw [hstate]
    exact execute_latch machine _ _ _ name
  | false =>
    obtain ⟨result, hstate, -⟩ := apply_of_not_executes hexecutes
    rw [hstate]
    rfl

end Machine

end Quorum
