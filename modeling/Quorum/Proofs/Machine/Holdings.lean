import Quorum.Proofs.Machine.Events
import Quorum.Proofs.Semaphore.Sessions

namespace Quorum

namespace Machine

/-- After sessions are closed the others are open. -/
theorem closeAll_isActive (machine : Machine) (closed : List SessionId) (session : SessionId) :
    (machine.closeAll closed).1.sessions.isActive session = true ↔
      machine.sessions.isActive session = true ∧ session ∉ closed := by
  induction closed generalizing machine with
  | nil => simp [closeAll]
  | cons first rest ih =>
    refine (ih _).trans ?_
    have hfirst := SessionRegistry.isActive_without machine.sessions first session
    rw [List.mem_cons, not_or, ← and_assoc]
    exact and_congr_left' hfirst

/-- Closing sessions discards what is on record for them. -/
theorem closeAll_cache (machine : Machine) (closed : List SessionId) :
    (machine.closeAll closed).1.cache = closed.foldl InvocationCache.discard machine.cache := by
  induction closed generalizing machine with
  | nil => rfl
  | cons first rest ih => exact ih _

/-- Timeouts touch neither the sessions nor the record. -/
theorem expireWaitKeys_eq (machine : Machine) (uids : List InvocationUid) :
    (machine.expireWaitKeys uids).1.sessions = machine.sessions ∧
      (machine.expireWaitKeys uids).1.cache = machine.cache := by
  induction uids generalizing machine with
  | nil => exact ⟨rfl, rfl⟩
  | cons uid rest ih => exact ih _

/-- An operation closes sessions and does nothing else, or it leaves open sessions and recorded
    answers as they are. -/
theorem execute_cases (machine : Machine) (operation : Operation) (invocation : Invocation)
    (now : Millis) :
    (machine.closings operation = [] ∧
      (machine.execute operation invocation now).state.cache = machine.cache ∧
      ∀ session, machine.sessions.isActive session = true →
        (machine.execute operation invocation now).state.sessions.isActive session = true) ∨
    ((machine.execute operation invocation now).state =
        (machine.closeAll (machine.closings operation)).1 ∧
      (machine.execute operation invocation now).notes =
        (machine.closeAll (machine.closings operation)).2) := by
  cases operation with
  | session op =>
    cases op with
    | create endpoint =>
      exact .inl ⟨rfl, rfl, fun session h => SessionRegistry.isActive_create h⟩
    | generateThreadId => exact .inl ⟨rfl, rfl, fun session h => h⟩
    | heartbeat session =>
      left
      simp only [execute, applySession]
      split
      · rename_i renewed hrenewed
        exact ⟨rfl, rfl, fun session h => SessionRegistry.isActive_heartbeat hrenewed h⟩
      · exact ⟨rfl, rfl, fun session h => h⟩
    | close session =>
      right
      rw [execute, applySession_close]
      exact ⟨rfl, rfl⟩
  | atomicRef name op => exact .inl ⟨rfl, rfl, fun session h => h⟩
  | semaphore name op => exact .inl ⟨rfl, rfl, fun session h => h⟩
  | latch name op => exact .inl ⟨rfl, rfl, fun session h => h⟩
  | destroy kind name =>
    left
    cases kind <;> exact ⟨rfl, rfl, fun session h => h⟩
  | expireSessions sessions =>
    right
    simp only [execute, expireSessions_eq]
    exact ⟨rfl, rfl⟩
  | expireWaitKeys uids =>
    obtain ⟨hsessions, hcache⟩ := expireWaitKeys_eq machine uids
    refine .inl ⟨rfl, hcache, fun session h => ?_⟩
    simp only [execute, hsessions]
    exact h

/-- An operation leaves a session open unless it closes it. -/
theorem execute_isActive {machine : Machine} {operation : Operation} {session : SessionId}
    (hactive : machine.sessions.isActive session = true)
    (hkept : session ∉ machine.closings operation) (invocation : Invocation) (now : Millis) :
    (machine.execute operation invocation now).state.sessions.isActive session = true := by
  rcases execute_cases machine operation invocation now with ⟨-, -, hopen⟩ | ⟨hstate, -⟩
  · exact hopen session hactive
  · rw [hstate]
    exact (closeAll_isActive machine _ session).mpr ⟨hactive, hkept⟩

/-- A session that an operation closes is not open after it. -/
theorem execute_isActive_of_closing {machine : Machine} {operation : Operation}
    {session : SessionId} (h : session ∈ machine.closings operation) (invocation : Invocation)
    (now : Millis) :
    (machine.execute operation invocation now).state.sessions.isActive session = false := by
  rcases execute_cases machine operation invocation now with ⟨hnone, -, -⟩ | ⟨hstate, -⟩
  · rw [hnone] at h
    cases h
  · rw [hstate, ← Bool.not_eq_true, closeAll_isActive]
    exact fun hboth => hboth.2 h

/-- An operation discards the record of the sessions that it closes, and nothing else. -/
theorem execute_cache (machine : Machine) (operation : Operation) (invocation : Invocation)
    (now : Millis) :
    (machine.execute operation invocation now).state.cache =
      (machine.closings operation).foldl InvocationCache.discard machine.cache := by
  rcases execute_cases machine operation invocation now with ⟨hnone, hcache, -⟩ | ⟨hstate, -⟩
  · rw [hcache, hnone]
    rfl
  · rw [hstate]
    exact closeAll_cache machine _

/-- Discarding forgets the listed sessions and no others. -/
theorem get?_discardAll (cache : InvocationCache) (closed : List SessionId) (session : SessionId) :
    (closed.foldl InvocationCache.discard cache).sessions.get? session =
      if session ∈ closed then none else cache.sessions.get? session := by
  induction closed generalizing cache with
  | nil => rfl
  | cons first rest ih =>
    rw [List.foldl_cons, ih, InvocationCache.discard, SortedMap.get?_erase]
    by_cases hfirst : session = first
    · simp [hfirst]
    · simp [hfirst, Ne.symm hfirst]

/-- What is on record after answers are recorded is of an open session, or was there before. -/
theorem rememberAnswers_get? {machine : Machine} {answers : List (SessionCall × Value)}
    {session : SessionId} {results : SessionResults}
    (h : (answers.foldl rememberAnswer machine).cache.sessions.get? session = some results) :
    machine.sessions.isActive session = true ∨
      machine.cache.sessions.get? session = some results := by
  induction answers generalizing machine with
  | nil => exact .inr h
  | cons answer rest ih =>
    rcases ih h with hactive | hget
    · unfold rememberAnswer remember at hactive
      split at hactive <;> exact .inl hactive
    · unfold rememberAnswer remember at hget
      split at hget
      · rename_i hrecorded
        rw [InvocationCache.record, SortedMap.get?_insert] at hget
        split at hget
        · rename_i heq
          exact .inl (heq ▸ hrecorded)
        · exact .inr hget
      · exact .inr hget

end Machine

namespace ObjectEvent

variable {Op α : Type} {new : α} {react : α → ObjectEvent Op → α × List Notification}
  {Involves : α → SessionId → Prop}

/-- If events involve only their callers' sessions anew, then so does a list of events. -/
theorem involved_of_follow (hnew : ∀ session, ¬ Involves new session)
    (hreact : ∀ object event session, Involves (react object event).1 session →
      Involves object session ∨
        ∃ op invocation now, event = .call op invocation now ∧ invocation.session = some session)
    {events : List (ObjectEvent Op)} {object? : Option α} {object : α}
    (hobject : events.foldl (follow new react) object? = some object) {session : SessionId}
    (h : Involves object session) :
    (∃ before, object? = some before ∧ Involves before session) ∨
      ∃ op invocation now, call op invocation now ∈ events ∧ invocation.session = some session := by
  have hkept : ∀ event ∈ events, ∀ other,
      (Involves other session → (∃ before, object? = some before ∧ Involves before session) ∨
        ∃ op invocation now, call op invocation now ∈ events ∧ invocation.session = some session) →
      (Involves (react other event).1 session →
        (∃ before, object? = some before ∧ Involves before session) ∨
        ∃ op invocation now, call op invocation now ∈ events ∧
          invocation.session = some session) := by
    intro event hmem other hother hafter
    rcases hreact other event session hafter with hbefore | ⟨op, invocation, now, rfl, hsession⟩
    · exact hother hbefore
    · exact .inr ⟨op, invocation, now, hmem, hsession⟩
  exact follow_induction (P := fun other => Involves other session → _)
    (fun hinvolved => absurd hinvolved (hnew session)) hkept
    (fun before hbefore hinvolved => .inl ⟨before, hbefore, hinvolved⟩) hobject h

/-- Sessions that are closed one after the other are not involved in the end, even if permits pass
    from one to the other in between. -/
theorem not_involved_of_closed (hnew : ∀ session, ¬ Involves new session)
    (hreact : ∀ object event session, Involves (react object event).1 session →
      Involves object session ∨
        ∃ op invocation now, event = .call op invocation now ∧ invocation.session = some session)
    (hclosed : ∀ object session, ¬ Involves (react object (.sessionClosed session)).1 session)
    {closed : List SessionId} {object? : Option α} {object : α}
    (hobject : (closed.map sessionClosed).foldl (follow new react) object? = some object)
    {session : SessionId} (h : Involves object session) : session ∉ closed := by
  induction closed generalizing object? with
  | nil => exact List.not_mem_nil
  | cons first rest ih =>
    rw [List.map_cons, List.foldl_cons] at hobject
    have hrest := ih hobject
    refine fun hmem => ?_
    rcases List.mem_cons.mp hmem with rfl | hmem
    · rcases involved_of_follow hnew hreact hobject h with
        ⟨between, hbetween, hinvolved⟩ | ⟨op, invocation, now, hcall, -⟩
      · obtain ⟨before, -, rfl⟩ := follow_eq_some hbetween
        exact hclosed before session hinvolved
      · obtain ⟨other, -, heq⟩ := List.mem_map.mp hcall
        cases heq
    · exact hrest hmem

end ObjectEvent

namespace Machine

/-- A call among the events of an operation is the operation itself, under its caller. -/
theorem call_of_mem_operationEvents {Op : Type} {machine : Machine} {operation : Operation}
    {invocation caller : Invocation} {now at' : Millis} {kind : ObjectKind} {name : String}
    {call? : Operation → Option Op} {op : Op}
    (h : .call op caller at' ∈ machine.operationEvents operation invocation now kind name call?) :
    call? operation = some op ∧ caller = invocation ∧ at' = now := by
  have htimeouts : ∀ uids : List InvocationUid,
      .call op caller at' ∉ uids.map ObjectEvent.timedOut := by
    intro uids hmem
    obtain ⟨uid, -, heq⟩ := List.mem_map.mp hmem
    cases heq
  have hclosings : ∀ closed : List SessionId,
      .call op caller at' ∉ closed.map ObjectEvent.sessionClosed := by
    intro closed hmem
    obtain ⟨session, -, heq⟩ := List.mem_map.mp hmem
    cases heq
  unfold operationEvents at h
  split at h
  · split at h
    · cases List.mem_singleton.mp h
    · cases h
  · exact absurd h (htimeouts _)
  · split at h
    · rename_i found hfound
      cases List.mem_singleton.mp h
      exact ⟨hfound, rfl, rfl⟩
    · exact absurd h (hclosings _)

theorem call_of_mem_semaphoreEvents {machine : Machine} {command : Command} {name : String}
    {op : SemaphoreOp} {invocation : Invocation} {now : Millis}
    (h : .call op invocation now ∈ machine.semaphoreEvents command name) :
    command.operation = .semaphore name op ∧ invocation = command.invocation := by
  unfold semaphoreEvents at h
  split at h
  · obtain ⟨hop, rfl, -⟩ := call_of_mem_operationEvents h
    unfold semaphoreCall? at hop
    split at hop
    · rename_i named other hoperation
      split at hop
      · rename_i hnamed
        rw [hoperation, hnamed.1, Option.some.inj hop]
        exact ⟨rfl, rfl⟩
      · cases hop
    · cases hop
  · cases h

theorem call_of_mem_latchEvents {machine : Machine} {command : Command} {name : String}
    {op : LatchOp} {invocation : Invocation} {now : Millis}
    (h : .call op invocation now ∈ machine.latchEvents command name) :
    command.operation = .latch name op ∧ invocation = command.invocation := by
  unfold latchEvents at h
  split at h
  · obtain ⟨hop, rfl, -⟩ := call_of_mem_operationEvents h
    unfold latchCall? at hop
    split at hop
    · rename_i named other hoperation
      split at hop
      · rename_i hnamed
        rw [hoperation, hnamed.1, Option.some.inj hop]
        exact ⟨rfl, rfl⟩
      · cases hop
    · cases hop
  · cases h

theorem operationEvents_of_closing {Op : Type} (machine : Machine) (operation : Operation)
    (invocation : Invocation) (now : Millis) (kind : ObjectKind) (name : String)
    {call? : Operation → Option Op}
    (hcall : ∀ op, call? operation = some op → machine.closings operation = []) :
    machine.closings operation = [] ∨
      machine.operationEvents operation invocation now kind name call? =
        (machine.closings operation).map .sessionClosed := by
  unfold operationEvents
  split
  · exact .inl rfl
  · exact .inl rfl
  · split
    · rename_i op hop
      exact .inl (hcall op hop)
    · exact .inr rfl

/-- Through an operation an object involves no other session than before but the caller's, and none
    that the operation closes. -/
theorem involved_of_operation {Op α : Type} {new : α}
    {react : α → ObjectEvent Op → α × List Notification} (Involves : α → SessionId → Prop)
    (hnew : ∀ session, ¬ Involves new session)
    (hreact : ∀ object event session, Involves (react object event).1 session →
      Involves object session ∨
        ∃ op invocation now, event = .call op invocation now ∧ invocation.session = some session)
    (hclosed : ∀ object session, ¬ Involves (react object (.sessionClosed session)).1 session)
    {machine : Machine} {operation : Operation} {invocation : Invocation} {now : Millis}
    {kind : ObjectKind} {name : String} {call? : Operation → Option Op}
    (hcall : ∀ op, call? operation = some op → machine.closings operation = [])
    {object? : Option α} {object : α}
    (hobject : (machine.operationEvents operation invocation now kind name call?).foldl
      (ObjectEvent.follow new react) object? = some object)
    {session : SessionId} (h : Involves object session) :
    ((∃ before, object? = some before ∧ Involves before session) ∨
      invocation.session = some session) ∧ session ∉ machine.closings operation := by
  constructor
  · rcases ObjectEvent.involved_of_follow hnew hreact hobject h with
      hbefore | ⟨op, caller, now', hmem, hsession⟩
    · exact .inl hbefore
    · obtain ⟨-, rfl, -⟩ := call_of_mem_operationEvents hmem
      exact .inr hsession
  · rcases operationEvents_of_closing machine operation invocation now kind name hcall with
      hnone | hevents
    · rw [hnone]
      exact List.not_mem_nil
    · rw [hevents] at hobject
      exact ObjectEvent.not_involved_of_closed hnew hreact hclosed hobject h

/-- A call of a semaphore closes no session. -/
theorem closings_of_semaphoreCall {machine : Machine} {name : String} {operation : Operation}
    {op : SemaphoreOp} (h : semaphoreCall? name operation = some op) :
    machine.closings operation = [] := by
  cases operation with
  | semaphore named other => rfl
  | _ => cases h

/-- A call of a latch closes no session. -/
theorem closings_of_latchCall {machine : Machine} {name : String} {operation : Operation}
    {op : LatchOp} (h : latchCall? name operation = some op) :
    machine.closings operation = [] := by
  cases operation with
  | latch named other => rfl
  | _ => cases h

/-- What a session can hold: permits, a parked acquire, the round of a latch, recorded answers. -/
inductive Holds (machine : Machine) (session : SessionId) : Prop
  | permits {name : String} {semaphore : Semaphore}
      (hsemaphore : machine.semaphores.get? name = some semaphore)
      (hheld : semaphore.HeldUnder session)
  | acquire {name : String} {semaphore : Semaphore}
      (hsemaphore : machine.semaphores.get? name = some semaphore)
      (hqueued : semaphore.QueuedUnder session)
  | round {name : String} {latch : Latch} (hlatch : machine.latches.get? name = some latch)
      (howner : latch.owner = some session)
  | answers {results : SessionResults}
      (hresults : machine.cache.sessions.get? session = some results)

/-- Only open sessions hold anything. -/
def Settled (machine : Machine) : Prop :=
  ∀ session, machine.Holds session → machine.sessions.isActive session = true

theorem settled_new (options : MachineOptions) : (new options).Settled := by
  rintro session (⟨hsemaphore, -⟩ | ⟨hsemaphore, -⟩ | ⟨hlatch, -⟩ | hresults)
  · cases hsemaphore
  · cases hsemaphore
  · cases hlatch
  · cases hresults

/-- What a session holds after an operation it held before, or it made the call. Sessions that the
    operation closes hold nothing. -/
theorem holds_of_execute {machine : Machine} {operation : Operation} {invocation : Invocation}
    {now : Millis} {session : SessionId}
    (h : (machine.execute operation invocation now).state.Holds session) :
    (machine.Holds session ∨ invocation.session = some session) ∧
      session ∉ machine.closings operation := by
  -- Permits and queued acquires are both at a semaphore, so they are followed together.
  have hsemaphores : ∀ {name semaphore},
      (machine.execute operation invocation now).state.semaphores.get? name = some semaphore →
      semaphore.Involves session →
      ((∃ before, machine.semaphores.get? name = some before ∧ before.Involves session) ∨
        invocation.session = some session) ∧ session ∉ machine.closings operation := by
    intro name semaphore hsemaphore hinvolved
    rw [execute_semaphore] at hsemaphore
    exact involved_of_operation Semaphore.Involves Semaphore.not_involves_new
      (fun _ _ _ hreact => Semaphore.involves_of_react hreact) Semaphore.not_involves_closed
      (fun _ hop => closings_of_semaphoreCall hop) hsemaphore hinvolved
  have hpermits : ∀ {name semaphore},
      (machine.execute operation invocation now).state.semaphores.get? name = some semaphore →
      semaphore.Involves session →
      (machine.Holds session ∨ invocation.session = some session) ∧
        session ∉ machine.closings operation := by
    intro name semaphore hsemaphore hinvolved
    obtain ⟨hbefore, hkept⟩ := hsemaphores hsemaphore hinvolved
    refine ⟨hbefore.imp_left ?_, hkept⟩
    rintro ⟨before, hget, hheld | hqueued⟩
    · exact .permits hget hheld
    · exact .acquire hget hqueued
  cases h with
  | permits hsemaphore hheld => exact hpermits hsemaphore (.inl hheld)
  | acquire hsemaphore hqueued => exact hpermits hsemaphore (.inr hqueued)
  | @round name latch hlatch howner =>
    rw [execute_latch] at hlatch
    obtain ⟨hbefore, hkept⟩ := involved_of_operation
      (fun latch session => latch.owner = some session)
      (fun session hnone => by cases hnone) (fun _ _ _ hreact => Latch.owner_of_react hreact)
      (fun latch session => Latch.owner_of_releaseOwner name latch session)
      (fun _ hop => closings_of_latchCall hop) hlatch howner
    refine ⟨hbefore.imp_left ?_, hkept⟩
    rintro ⟨before, hget, hround⟩
    exact .round hget hround
  | answers hresults =>
    rw [execute_cache, get?_discardAll] at hresults
    split at hresults
    · cases hresults
    · rename_i hkept
      exact ⟨.inl (.answers hresults), hkept⟩

/-- A step leaves nothing behind of a session that is not open. -/
theorem Settled.apply {machine : Machine} (h : machine.Settled) (command : Command) :
    (machine.apply command).state.Settled := by
  intro session hholds
  cases hexecutes : machine.executes command with
  | false =>
    obtain ⟨result, hstate, -⟩ := apply_of_not_executes hexecutes
    rw [hstate] at hholds ⊢
    exact h session hholds
  | true =>
    let step := machine.execute command.operation command.invocation command.timestamp
    have hopen : step.state.Holds session → step.state.sessions.isActive session = true := by
      intro hbefore
      obtain ⟨hholder, hkept⟩ := holds_of_execute hbefore
      have hactive : machine.sessions.isActive session = true :=
        hholder.elim (h session) ((executes_iff.mp hexecutes).1 session)
      exact execute_isActive hactive hkept _ _
    rw [apply_of_executes hexecutes] at hholds ⊢
    simp only [rememberStep_eq] at hholds ⊢
    obtain ⟨cache, hframe⟩ := rememberAnswers_eq step.state
      (answersIn command.call? step.answer step.notes)
    have hsessions : ((answersIn command.call? step.answer step.notes).foldl rememberAnswer
        step.state).sessions = step.state.sessions := by rw [hframe]
    rw [hsessions]
    cases hholds with
    | permits hsemaphore hheld =>
      rw [hframe] at hsemaphore
      exact hopen (.permits hsemaphore hheld)
    | acquire hsemaphore hqueued =>
      rw [hframe] at hsemaphore
      exact hopen (.acquire hsemaphore hqueued)
    | round hlatch howner =>
      rw [hframe] at hlatch
      exact hopen (.round hlatch howner)
    | answers hresults =>
      rcases rememberAnswers_get? hresults with hactive | hbefore
      · exact hactive
      · exact hopen (.answers hbefore)

/-- No log leaves anything behind of a session that is not open. -/
theorem settled_run (options : MachineOptions) (log : List Command) : (run options log).Settled :=
  run_induction (P := fun _ machine => machine.Settled) (settled_new options)
    (fun _ command h => h.apply command) log

/-- After any log, a session that holds permits, waits for some, owns the round of a latch or has
    recorded answers is open. -/
theorem isActive_of_holds (options : MachineOptions) (log : List Command) (session : SessionId)
    (h : (run options log).Holds session) : (run options log).sessions.isActive session = true :=
  settled_run options log session h

/-- Two sessions expire together: the permit of the first passes to the second, which waits for it
    and is closed next, and from there to a third. -/
def relayLog : List Command :=
  let acquire (session : SessionId) : Command :=
    { invocation := { session, uid := some (.ofNat session.toNat) }
      operation := .semaphore "permit" (.acquire 1 none) }
  [{ operation := .session (.create "a") }, { operation := .session (.create "b") },
    { operation := .session (.create "c") }, { operation := .semaphore "permit" (.init 1) },
    acquire 1, acquire 2, acquire 3, { operation := .expireSessions [(1, 0), (2, 0)] }]

theorem relay_holder_isActive :
    let options : MachineOptions := { sessionTtl := 10, dedupCapacity := 4, overdraft := false }
    (run options relayLog).Holds 3 ∧ (run options relayLog).sessions.isActive 3 = true := by
  intro options
  have hholds : (run options relayLog).Holds 3 := by
    have hget : ((run options relayLog).semaphores.get? "permit").map (fun semaphore =>
        semaphore.held.get? (3, 0)) = some (some 1) := by
      decide +kernel
    obtain ⟨semaphore, hsemaphore, hheld⟩ := Option.map_eq_some_iff.mp hget
    exact .permits hsemaphore ⟨0, 1, hheld⟩
  exact ⟨hholds, isActive_of_holds options relayLog 3 hholds⟩

end Machine

end Quorum
