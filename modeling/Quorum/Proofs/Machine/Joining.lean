import Quorum.Proofs.Machine.Timeouts

namespace Quorum

/-- What becomes of a queue when a caller is told to wait. -/
inductive Queuing (kind : String) (invocation : Invocation) (queue : List ParkedCall) :
    List ParkedCall → Prop
  | joined {call : ParkedCall} (hmem : call ∈ queue) (huid : invocation.uid = some call.uid) :
    Queuing kind invocation queue queue
  | parked {uid : InvocationUid} (huid : invocation.uid = some uid)
      (hnew : ∀ call ∈ queue, call.uid ≠ uid) :
    Queuing kind invocation queue (queue ++ [⟨kind, uid, invocation.session⟩])

namespace Queuing

variable {kind : String} {invocation : Invocation} {queue after : List ParkedCall}

/-- A call that is queued has a token. -/
theorem exists_uid (h : Queuing kind invocation queue after) :
    ∃ uid, invocation.uid = some uid := by
  cases h with
  | joined hmem huid => exact ⟨_, huid⟩
  | parked huid hnew => exact ⟨_, huid⟩

variable {uid : InvocationUid} (huid : invocation.uid = some uid)
include huid

/-- A call that is queued stands at the end, unless its token was there already. -/
theorem after_eq (h : Queuing kind invocation queue after) :
    after = if uid ∈ queue.map ParkedCall.uid then queue
      else queue ++ [⟨kind, uid, invocation.session⟩] := by
  cases h with
  | joined hmem hcall =>
    obtain rfl := Option.some.inj (huid.symm.trans hcall)
    rw [if_pos (List.mem_map_of_mem hmem)]
  | parked hcall hnew =>
    obtain rfl := Option.some.inj (huid.symm.trans hcall)
    rw [if_neg]
    intro hmem
    obtain ⟨call, hqueued, heq⟩ := List.mem_map.mp hmem
    exact hnew call hqueued heq

/-- The token of a call that is queued is in the queue. -/
theorem uid_mem (h : Queuing kind invocation queue after) : uid ∈ after.map ParkedCall.uid := by
  cases h with
  | joined hmem hcall =>
    obtain rfl := Option.some.inj (huid.symm.trans hcall)
    exact List.mem_map_of_mem hmem
  | parked hcall hnew =>
    obtain rfl := Option.some.inj (huid.symm.trans hcall)
    rw [List.map_append]
    exact List.mem_append_right _ List.mem_cons_self

/-- The caller has an entry of its own unless the token is another session's. -/
theorem own_mem_iff (h : Queuing kind invocation queue after)
    (hkind : ∀ call ∈ queue, call.kind = kind) (hdistinct : (queue.map ParkedCall.uid).Nodup) :
    (⟨kind, uid, invocation.session⟩ : ParkedCall) ∈ after ↔
      ∀ call ∈ queue, call.uid = uid → call.session = invocation.session := by
  cases h with
  | @joined call hmem hcall =>
    obtain rfl := Option.some.inj (huid.symm.trans hcall)
    constructor
    · intro hown other hother heq
      rw [List.inj_on_of_nodup_map hdistinct hother hown heq]
    · intro hsession
      rwa [← hsession call hmem rfl, ← hkind call hmem]
  | parked hcall hnew =>
    obtain rfl := Option.some.inj (huid.symm.trans hcall)
    constructor
    · exact fun _ other hother heq => absurd heq (hnew other hother)
    · exact fun _ => List.mem_append_right _ List.mem_cons_self

end Queuing

/-- An acquire that is told to wait is queued. -/
theorem Semaphore.queuing_of_waiting {semaphore : Semaphore} {invocation : Invocation}
    {permits : UInt32} {timeout : Option Millis} {now : Millis}
    (h : (semaphore.acquire invocation permits timeout now).answer = .waiting) :
    Queuing SemaphoreOp.acquireKind invocation semaphore.parkedCalls
      (semaphore.acquire invocation permits timeout now).state.parkedCalls := by
  have houtcome := acquire_outcome semaphore invocation permits timeout now
  generalize semaphore.acquire invocation permits timeout now = outcome at houtcome h
  cases houtcome with
  | joined hmem huid => exact .joined (List.mem_map_of_mem hmem) huid.symm
  | @parked hpermits htimeout uid huid hnew hunfit =>
    rw [parkedCalls, parkedCalls, List.map_append, List.map_singleton, parkedEntry_call]
    refine .parked huid fun call hcall => ?_
    obtain ⟨waiter, hmem, rfl⟩ := List.mem_map.mp hcall
    exact hnew waiter hmem
  | _ => cases h

/-- An await that is told to wait is queued. -/
theorem Latch.queuing_of_waiting {latch : Latch} {invocation : Invocation}
    {timeout : Option Millis} {now : Millis}
    (h : (latch.await invocation timeout now).answer = .waiting) :
    Queuing LatchOp.awaitKind invocation latch.parkedCalls
      (latch.await invocation timeout now).state.parkedCalls := by
  have houtcome := await_outcome latch invocation timeout now
  generalize latch.await invocation timeout now = outcome at houtcome h
  cases houtcome with
  | joined hmem huid => exact .joined (List.mem_map_of_mem hmem) huid
  | @parked hclosed htimeout uid huid hnew =>
    rw [parkedCalls, parkedCalls, List.map_append, List.map_singleton]
    refine .parked huid fun call hcall => ?_
    obtain ⟨waiter, hmem, rfl⟩ := List.mem_map.mp hcall
    exact hnew waiter hmem
  | _ => cases h

namespace Machine

/-- The calls that are parked at the object that an operation calls, from the front. -/
def queueAt (machine : Machine) : Operation → List ParkedCall
  | .semaphore name _ => ((machine.semaphores.get? name).getD {}).parkedCalls
  | .latch name _ => ((machine.latches.get? name).getD {}).parkedCalls
  | _ => []

/-- A call is told to wait only if it is executed. -/
theorem executes_of_waiting {machine : Machine} {command : Command}
    (h : (machine.apply command).answer = .waiting) : machine.executes command = true := by
  cases hexecutes : machine.executes command with
  | true => rfl
  | false =>
    obtain ⟨result, happly, -⟩ := apply_of_not_executes hexecutes
    rw [happly] at h
    cases h

/-- A command that is told to wait is queued where its operation parks. -/
theorem queuing_of_waiting {machine : Machine} {command : Command}
    (hparks : command.operation.Parks) (hwaiting : (machine.apply command).answer = .waiting) :
    Queuing command.operation.kind command.invocation (machine.queueAt command.operation)
      ((machine.apply command).state.queueAt command.operation) := by
  have hexecutes := executes_of_waiting hwaiting
  rcases hparks with hacquire | hawait
  · obtain ⟨name, permits, timeout, hoperation⟩ := Operation.eq_acquire_of_kind hacquire
    have hget : (machine.apply command).state.semaphores.get? name =
        some (((machine.semaphores.get? name).getD {}).acquire command.invocation permits timeout
          command.timestamp).state := by
      rw [apply_semaphore, semaphoreEvents_of_call hoperation rfl hexecutes]
      rfl
    rw [answer_of_acquire hoperation hexecutes] at hwaiting
    rw [hoperation, queueAt, queueAt, hget]
    exact Semaphore.queuing_of_waiting hwaiting
  · obtain ⟨name, timeout, hoperation⟩ := Operation.eq_await_of_kind hawait
    have hget : (machine.apply command).state.latches.get? name =
        some (((machine.latches.get? name).getD {}).await command.invocation timeout
          command.timestamp).state := by
      rw [apply_latch, latchEvents_of_call hoperation rfl hexecutes]
      rfl
    have hanswer : (((machine.latches.get? name).getD {}).await command.invocation timeout
        command.timestamp).answer = .waiting := by
      rw [apply_of_executes hexecutes, hoperation] at hwaiting
      exact hwaiting
    rw [hoperation, queueAt, queueAt, hget]
    exact Latch.queuing_of_waiting hanswer

/-- The calls in the queue of an operation are of its kind. -/
theorem kind_of_queueAt {machine : Machine} {operation : Operation} (hparks : operation.Parks) :
    ∀ call ∈ machine.queueAt operation, call.kind = operation.kind := by
  rcases hparks with hacquire | hawait
  · obtain ⟨name, permits, timeout, rfl⟩ := Operation.eq_acquire_of_kind hacquire
    exact Semaphore.kind_of_parked _
  · obtain ⟨name, timeout, rfl⟩ := Operation.eq_await_of_kind hawait
    exact Latch.kind_of_parked _

/-- No object has two calls parked under one token. -/
theorem nodup_queueAt (options : MachineOptions) (log : List Command) (operation : Operation) :
    (((run options log).queueAt operation).map ParkedCall.uid).Nodup := by
  cases operation with
  | semaphore name op =>
    have horderly : (((run options log).semaphores.get? name).getD {}).Orderly := by
      cases hget : (run options log).semaphores.get? name with
      | none => exact Semaphore.orderly_new
      | some semaphore => exact semaphore_orderly hget
    rw [queueAt, Semaphore.parkedCalls, List.map_map]
    exact horderly.distinct
  | latch name op =>
    have horderly : (((run options log).latches.get? name).getD {}).Orderly := by
      cases hget : (run options log).latches.get? name with
      | none => exact Latch.orderly_new
      | some latch => exact (latch_orderly hget).1
    rw [queueAt, Latch.parkedCalls, List.map_map]
    exact horderly.distinct
  | _ => exact List.nodup_nil

/-- What stands behind an acquire or an await that is told to wait, after any log. The caller has a
    token, and afterwards one call is parked under it at the object. That is the caller's own call,
    parked at the end, if none was parked under the token before; otherwise the queue stays as it
    is. So the queue has an entry with the caller's token and session, or without session if the
    caller has none, exactly if every call that was parked there under the token was made under the
    same session. -/
theorem waiting_under_token (options : MachineOptions) (log : List Command) (command : Command)
    (hparks : command.operation.Parks)
    (hwaiting : ((run options log).apply command).answer = .waiting) :
    let before := (run options log).queueAt command.operation
    let after := ((run options log).apply command).state.queueAt command.operation
    ∃ uid, command.invocation.uid = some uid ∧
      let own : ParkedCall := ⟨command.operation.kind, uid, command.invocation.session⟩
      after = (if uid ∈ before.map ParkedCall.uid then before else before ++ [own]) ∧
      (after.map ParkedCall.uid).count uid = 1 ∧
      (own ∈ after ↔
        ∀ call ∈ before, call.uid = uid → call.session = command.invocation.session) := by
  intro before after
  have hqueuing : Queuing command.operation.kind command.invocation before after :=
    queuing_of_waiting hparks hwaiting
  have hbefore : (before.map ParkedCall.uid).Nodup := nodup_queueAt options log command.operation
  have hafter : (after.map ParkedCall.uid).Nodup := by
    have hnodup := nodup_queueAt options (log ++ [command]) command.operation
    rwa [run_concat] at hnodup
  obtain ⟨uid, huid⟩ := hqueuing.exists_uid
  exact ⟨uid, huid, hqueuing.after_eq huid,
    List.count_eq_one_of_mem hafter (hqueuing.uid_mem huid),
    hqueuing.own_mem_iff huid (kind_of_queueAt hparks) hbefore⟩

/-- A session waits for a permit under a token of its own. -/
def queuedLog : List Command :=
  [{ operation := .session (.create "a") }, { operation := .session (.create "b") },
    { invocation := { session := some 1, uid := some (.ofNat 9) }
      operation := .semaphore "permit" (.acquire 1 none) }]

/-- Another session's call with a token of its own is parked behind it. -/
theorem other_token_parked :
    let options : MachineOptions := { sessionTtl := 10000, dedupCapacity := 4, overdraft := false }
    let command : Command :=
      { invocation := { session := some 2, uid := some (.ofNat 8) }
        operation := .semaphore "permit" (.acquire 1 none) }
    let machine := run options queuedLog
    ((machine.apply command).answer = .waiting) ∧
      ⟨SemaphoreOp.acquireKind, .ofNat 8, some 2⟩ ∈
        (machine.apply command).state.queueAt command.operation := by
  intro options command machine
  have hwaiting : (machine.apply command).answer = .waiting := by decide +kernel
  obtain ⟨uid, huid, -, -, hown⟩ :=
    waiting_under_token options queuedLog command (.inl rfl) hwaiting
  obtain rfl : InvocationUid.ofNat 8 = uid := Option.some.inj huid
  have hothers : ∀ call ∈ machine.queueAt command.operation,
      call.uid = .ofNat 8 → call.session = command.invocation.session := by
    decide +kernel
  exact ⟨hwaiting, hown.mpr hothers⟩

/-- Another session's call with the same token is told to wait, and nothing is parked for it. -/
theorem same_token_not_parked :
    let options : MachineOptions := { sessionTtl := 10000, dedupCapacity := 4, overdraft := false }
    let command : Command :=
      { invocation := { session := some 2, uid := some (.ofNat 9) }
        operation := .semaphore "permit" (.acquire 1 none) }
    let machine := run options queuedLog
    (machine.apply command).answer = .waiting ∧
      (machine.apply command).state.queueAt command.operation =
        [⟨SemaphoreOp.acquireKind, .ofNat 9, some 1⟩] := by
  decide +kernel

end Machine

end Quorum
