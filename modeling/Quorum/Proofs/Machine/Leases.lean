import Quorum.Proofs.Lease
import Quorum.Proofs.Machine.Holdings

namespace Quorum

namespace Machine

/-- What an executed operation is to the session of an id. A heartbeat for a session that is not
    open is refused. -/
def operationLease (machine : Machine) (operation : Operation) (now : Millis) (id : SessionId) :
    List LeaseEvent :=
  match operation with
  | .session (.create endpoint) =>
    if machine.sessions.nextSession = id then [.opened endpoint now] else []
  | .session (.heartbeat session) =>
    if session = id ∧ machine.sessions.isActive id = true then [.renewed now] else []
  | operation => if id ∈ machine.closings operation then [.closed] else []

def leaseEvents (machine : Machine) (command : Command) (id : SessionId) : List LeaseEvent :=
  if machine.executes command then
    machine.operationLease command.operation command.timestamp id
  else []

/-- All that a log does to the session of an id. -/
def leaseHistory (machine : Machine) (id : SessionId) (log : List Command) : List LeaseEvent :=
  machine.collect (fun machine command => machine.leaseEvents command id) log

/-- The id that an executed command hands out to a new session. -/
def handsOut (machine : Machine) (command : Command) : List SessionId :=
  if machine.executes command then
    match command.operation, (machine.apply command).answer with
    | .session (.create _), .done (.ok (.session grant)) => [grant.session]
    | _, _ => []
  else []

/-- The ids that a log hands out to new sessions, in order. -/
def handedOut (machine : Machine) (log : List Command) : List SessionId :=
  machine.collect handsOut log

theorem closeAll_sessions (machine : Machine) (closed : List SessionId) :
    (machine.closeAll closed).1.sessions =
      closed.foldl SessionRegistry.without machine.sessions := by
  induction closed generalizing machine with
  | nil => rfl
  | cons first rest ih => exact ih _

end Machine

namespace SessionRegistry

/-- Sessions that are taken out are gone, and the others stay. -/
theorem get?_foldl_without (registry : SessionRegistry) (closed : List SessionId)
    (id : SessionId) :
    (closed.foldl without registry).get? id =
      if id ∈ closed then none else registry.get? id := by
  induction closed generalizing registry with
  | nil => rfl
  | cons first rest ih =>
    rw [List.foldl_cons, ih, get?_without]
    by_cases hfirst : id = first
    · simp [hfirst]
    · simp [hfirst, Ne.symm hfirst]

theorem nextSession_foldl_without (registry : SessionRegistry) (closed : List SessionId) :
    (closed.foldl without registry).nextSession = registry.nextSession := by
  induction closed generalizing registry with
  | nil => rfl
  | cons first rest ih => exact ih _

end SessionRegistry

namespace Machine

/-- What an operation can do to the sessions. -/
inductive LeaseChange (machine : Machine) (now : Millis) : Operation → SessionRegistry → Prop
  | opened (endpoint : String) : LeaseChange machine now (.session (.create endpoint))
      (machine.sessions.create endpoint now).2
  | renewed {id : SessionId} {session : Session} (hget : machine.sessions.get? id = some session) :
    LeaseChange machine now (.session (.heartbeat id)) { machine.sessions with
      sessions := machine.sessions.sessions.insert id (session.renewed now) }
  | threaded : LeaseChange machine now (.session .generateThreadId)
      machine.sessions.generateThread.2
  /-- Sessions are closed, or nothing happens to them. -/
  | closed {operation : Operation}
    (hopens : ∀ endpoint, operation ≠ .session (.create endpoint))
    (hrenews : ∀ id, operation = .session (.heartbeat id) → machine.sessions.get? id = none) :
    LeaseChange machine now operation
      ((machine.closings operation).foldl SessionRegistry.without machine.sessions)

/-- An operation changes the sessions as one of the listed changes. -/
theorem execute_leaseChange (machine : Machine) (operation : Operation) (invocation : Invocation)
    (now : Millis) :
    LeaseChange machine now operation
      (machine.execute operation invocation now).state.sessions := by
  have hclosed : ∀ {operation},
      (machine.execute operation invocation now).state =
        (machine.closeAll (machine.closings operation)).1 →
      (∀ endpoint, operation ≠ .session (.create endpoint)) →
      (∀ id, operation = .session (.heartbeat id) → machine.sessions.get? id = none) →
      LeaseChange machine now operation
        (machine.execute operation invocation now).state.sessions := by
    intro operation hstate hopens hrenews
    rw [hstate, closeAll_sessions]
    exact .closed hopens hrenews
  cases operation with
  | session op =>
    cases op with
    | create endpoint => exact .opened endpoint
    | generateThreadId => exact .threaded
    | heartbeat session =>
      simp only [execute, applySession, SessionRegistry.heartbeat_eq]
      cases hget : machine.sessions.get? session with
      | none => exact .closed (by simp) (by simp [hget])
      | some found => exact .renewed hget
    | close session =>
      refine hclosed ?_ (by simp) (by simp)
      rw [execute, applySession_close]
  | atomicRef name op => exact .closed (by simp) (by simp)
  | semaphore name op => exact .closed (by simp) (by simp)
  | latch name op => exact .closed (by simp) (by simp)
  | destroy kind name => cases kind <;> exact .closed (by simp) (by simp)
  | expireSessions sessions =>
    refine hclosed ?_ (by simp) (by simp)
    simp only [execute, expireSessions_eq]
    rfl
  | expireWaitKeys uids =>
    simp only [execute, (expireWaitKeys_eq machine uids).1]
    exact .closed (by simp) (by simp)

/-- An operation that neither opens nor renews a session only closes. -/
theorem operationLease_of_closing {machine : Machine} {operation : Operation}
    (hopens : ∀ endpoint, operation ≠ .session (.create endpoint))
    (hrenews : ∀ id, operation = .session (.heartbeat id) → machine.sessions.get? id = none)
    (now : Millis) (id : SessionId) :
    machine.operationLease operation now id =
      if id ∈ machine.closings operation then [.closed] else [] := by
  unfold operationLease
  split
  · exact absurd rfl (hopens _)
  · rename_i session
    have hgone := hrenews session rfl
    rw [if_neg, if_neg]
    · exact List.not_mem_nil
    · rintro ⟨rfl, hactive⟩
      rw [SessionRegistry.isActive, hgone] at hactive
      cases hactive
  · rfl

/-- A change of the sessions is, for each, what its lease events tell. -/
theorem LeaseChange.get?_eq {machine : Machine} {now : Millis} {operation : Operation}
    {after : SessionRegistry} (h : LeaseChange machine now operation after) (id : SessionId) :
    after.get? id =
      (machine.operationLease operation now id).foldl (LeaseEvent.follow id)
        (machine.sessions.get? id) := by
  cases h with
  | opened endpoint =>
    rw [SessionRegistry.get?_create, operationLease]
    split <;> rfl
  | threaded => rfl
  | @renewed session found hget =>
    refine (SortedMap.get?_insert machine.sessions.sessions session _ id).trans ?_
    by_cases heq : session = id
    · subst heq
      simp only [operationLease, SessionRegistry.isActive, hget, if_true, Option.isSome_some,
        and_self]
      rfl
    · simp only [operationLease, heq, if_false, false_and]
      rfl
  | closed hopens hrenews =>
    rw [SessionRegistry.get?_foldl_without, operationLease_of_closing hopens hrenews]
    split <;> rfl

/-- A command does to a session what its events at the session do. -/
theorem apply_lease (machine : Machine) (command : Command) (id : SessionId) :
    (machine.apply command).state.sessions.get? id =
      (machine.leaseEvents command id).foldl (LeaseEvent.follow id)
        (machine.sessions.get? id) := by
  unfold leaseEvents
  cases hexecutes : machine.executes command with
  | true =>
    obtain ⟨cache, hstate⟩ := apply_state_of_executes hexecutes
    rw [hstate]
    exact (execute_leaseChange machine _ _ _).get?_eq id
  | false =>
    obtain ⟨result, hstate, -⟩ := apply_of_not_executes hexecutes
    rw [hstate]
    rfl

/-- A log leaves a session as its lease history does. -/
theorem replay_lease (machine : Machine) (log : List Command) (id : SessionId) :
    (machine.replay log).sessions.get? id =
      (machine.leaseHistory id log).foldl (LeaseEvent.follow id) (machine.sessions.get? id) := by
  induction log generalizing machine with
  | nil => rfl
  | cons command rest ih =>
    rw [replay_cons, ih, apply_lease, leaseHistory, leaseHistory, collect, List.foldl_append]

/-- A change of the sessions hands out the next id or none. -/
theorem LeaseChange.issued {machine : Machine} {now : Millis} {operation : Operation}
    {after : SessionRegistry} (h : LeaseChange machine now operation after) {ids : List SessionId}
    (hissued : machine.sessions.Issued ids) :
    (∃ endpoint, operation = .session (.create endpoint) ∧
      after.Issued (ids ++ [machine.sessions.nextSession])) ∨
    (∀ endpoint, operation ≠ .session (.create endpoint)) ∧ after.Issued ids := by
  cases h with
  | opened endpoint => exact .inl ⟨endpoint, rfl, hissued.create endpoint now⟩
  | threaded => exact .inr ⟨by simp, hissued.congr rfl fun id session hget => ⟨session, hget, rfl⟩⟩
  | @renewed id found hget =>
    refine .inr ⟨by simp, hissued.congr rfl fun other session hother => ?_⟩
    replace hother : (if id = other then some (found.renewed now)
        else machine.sessions.get? other) = some session :=
      (SortedMap.get?_insert machine.sessions.sessions id _ other).symm.trans hother
    split at hother
    · rename_i heq
      obtain rfl := Option.some.inj hother
      exact ⟨found, heq ▸ hget, rfl⟩
    · exact ⟨session, hother, rfl⟩
  | closed hopens hrenews =>
    refine .inr ⟨hopens, hissued.congr (SessionRegistry.nextSession_foldl_without _ _)
      fun other session hother => ?_⟩
    rw [SessionRegistry.get?_foldl_without] at hother
    split at hother
    · cases hother
    · exact ⟨session, hother, rfl⟩

/-- An opening that is executed hands out the next id. -/
theorem handsOut_of_create {machine : Machine} {ids : List SessionId}
    (h : machine.sessions.Issued ids) {command : Command} {endpoint : String}
    (hoperation : command.operation = .session (.create endpoint))
    (hexecutes : machine.executes command = true) :
    machine.handsOut command = [machine.sessions.nextSession] := by
  simp only [handsOut, hexecutes, if_true, apply_of_executes hexecutes, hoperation, execute,
    applySession, h.create_id]

/-- Only openings hand out ids. -/
theorem handsOut_of_not_create {machine : Machine} {command : Command}
    (h : ∀ endpoint, command.operation ≠ .session (.create endpoint)) :
    machine.handsOut command = [] := by
  unfold handsOut
  split
  · split
    · rename_i hoperation _
      exact absurd hoperation (h _)
    · rfl
  · rfl

/-- A command hands out the next id of the registry, or none. -/
theorem issued_apply {machine : Machine} {ids : List SessionId} (h : machine.sessions.Issued ids)
    (command : Command) :
    (machine.apply command).state.sessions.Issued (ids ++ machine.handsOut command) := by
  cases hexecutes : machine.executes command with
  | false =>
    obtain ⟨result, hstate, -⟩ := apply_of_not_executes hexecutes
    rw [hstate, handsOut, hexecutes]
    simpa using h
  | true =>
    obtain ⟨cache, hstate⟩ := apply_state_of_executes hexecutes
    rw [hstate]
    rcases (execute_leaseChange machine _ command.invocation command.timestamp).issued h with
      ⟨endpoint, hoperation, hafter⟩ | ⟨hother, hafter⟩
    · rwa [handsOut_of_create h hoperation hexecutes]
    · rwa [handsOut_of_not_create hother, List.append_nil]

/-- A log hands out ids one after the other, by induction from the step. -/
theorem issued_replay {machine : Machine} {ids : List SessionId} (h : machine.sessions.Issued ids)
    (log : List Command) :
    (machine.replay log).sessions.Issued (ids ++ machine.handedOut log) := by
  induction log generalizing machine ids with
  | nil => simpa [handedOut, collect] using h
  | cons command rest ih =>
    rw [replay_cons, handedOut, collect, ← List.append_assoc]
    exact ih (issued_apply h command)

/-- The ids that a replica knows are those that its log handed out. -/
theorem issued_run (options : MachineOptions) (log : List Command) :
    (run options log).sessions.Issued ((new options).handedOut log) := by
  have hnew : (new options).sessions.Issued [] := SessionRegistry.issued_new options.sessionTtl
  exact issued_replay hnew log

/-- A command opens a session only under an id that it hands out. -/
theorem mem_handsOut_of_opened {machine : Machine} {ids : List SessionId}
    (h : machine.sessions.Issued ids) {command : Command} {id : SessionId} {event : LeaseEvent}
    (hevent : event ∈ machine.leaseEvents command id) (hopened : event.isOpened = true) :
    id ∈ machine.handsOut command := by
  unfold leaseEvents at hevent
  split at hevent
  · rename_i hexecutes
    unfold operationLease at hevent
    split at hevent
    · rename_i endpoint hoperation
      rw [handsOut_of_create h hoperation hexecutes]
      split at hevent
      · rename_i hnext
        exact List.mem_singleton.mpr hnext.symm
      · cases hevent
    · split at hevent
      · cases List.mem_singleton.mp hevent
        cases hopened
      · cases hevent
    · split at hevent
      · cases List.mem_singleton.mp hevent
        cases hopened
      · cases hevent
  · cases hevent

/-- A log opens no session under an id that it does not hand out. -/
theorem unopened_of_not_handedOut {machine : Machine} {ids : List SessionId}
    (h : machine.sessions.Issued ids) {id : SessionId} {log : List Command}
    (hid : id ∉ machine.handedOut log) :
    ∀ event ∈ machine.leaseHistory id log, event.isOpened = false := by
  induction log generalizing machine ids with
  | nil => exact fun event hmem => absurd hmem List.not_mem_nil
  | cons command rest ih =>
    rw [handedOut, collect, List.mem_append, not_or] at hid
    intro event hmem
    rw [leaseHistory, collect, List.mem_append] at hmem
    rcases hmem with hnow | hlater
    · by_contra hopened
      exact hid.1 (mem_handsOut_of_opened h hnow (by simpa using hopened))
    · exact ih (issued_apply h command) hid.2 event hlater

theorem length_handedOut_le (machine : Machine) (log : List Command) :
    (machine.handedOut log).length ≤ log.length := by
  rw [← List.countP_true]
  refine countP_collect_le (fun machine command => ?_) machine log
  unfold handsOut
  split
  · split <;> simp
  · exact Nat.zero_le 1

/-- A lease is renewed at most once by a command. -/
theorem countP_renewed_le (machine : Machine) (id : SessionId) (log : List Command) :
    (machine.leaseHistory id log).countP LeaseEvent.isRenewed ≤ log.length := by
  refine countP_collect_le (fun machine command => ?_) machine log
  refine Nat.le_trans List.countP_le_length ?_
  unfold leaseEvents operationLease
  split
  · split <;> split <;> simp
  · exact Nat.zero_le 1

/-- A session that was open has its version still, if and only if it is open and was not renewed. -/
theorem hasVersion_replay {machine : Machine} {id : SessionId} {session : Session}
    (hget : machine.sessions.get? id = some session) {log : List Command}
    (hunopened : ∀ event ∈ machine.leaseHistory id log, event.isOpened = false)
    (hlength : log.length < UInt64.size) :
    (machine.replay log).sessions.hasVersion (id, session.version) =
      ((machine.replay log).sessions.isActive id &&
        !(machine.leaseHistory id log).any LeaseEvent.isRenewed) := by
  have hafter := machine.replay_lease log id
  rw [hget] at hafter
  rw [SessionRegistry.hasVersion, SessionRegistry.isActive, hafter]
  by_cases hclosed : .closed ∈ machine.leaseHistory id log
  · rw [LeaseEvent.foldl_follow_of_closed id hunopened hclosed]
    rfl
  · obtain ⟨after, hopen, hversion⟩ :=
      LeaseEvent.foldl_follow_of_kept id hunopened hclosed session
    have hfew := machine.countP_renewed_le id log
    have hnone : (machine.leaseHistory id log).any LeaseEvent.isRenewed = true ↔
        (machine.leaseHistory id log).countP LeaseEvent.isRenewed ≠ 0 := by
      rw [List.any_eq_true, ← List.countP_pos_iff, Nat.pos_iff_ne_zero]
    have hsame : after.version = session.version ↔
        (machine.leaseHistory id log).countP LeaseEvent.isRenewed = 0 := by
      rw [hversion, UInt64.add_eq_left, ← UInt64.toNat_inj,
        UInt64.toNat_ofNat_of_lt' (by omega)]
      exact Iff.rfl
    rw [hopen]
    simp only [Option.any_some, Option.isSome_some, Bool.true_and, hsame]
    rw [Bool.eq_iff_iff, Bool.not_eq_true', ← Bool.not_eq_true, hnone, decide_eq_true_eq,
      not_not]

/-- Nothing has happened to an open session that was neither opened nor renewed. -/
theorem leaseHistory_eq_nil {machine : Machine} {id : SessionId} {log : List Command}
    (hunopened : ∀ event ∈ machine.leaseHistory id log, event.isOpened = false)
    (hunrenewed : (machine.leaseHistory id log).any LeaseEvent.isRenewed = false)
    (hopen : (machine.replay log).sessions.isActive id = true) :
    machine.leaseHistory id log = [] := by
  refine List.eq_nil_iff_forall_not_mem.mpr fun event hmem => ?_
  cases event with
  | opened endpoint now => cases hunopened _ hmem
  | renewed now => exact absurd rfl (List.any_eq_false.mp hunrenewed _ hmem)
  | closed =>
    rw [SessionRegistry.isActive, replay_lease,
      LeaseEvent.foldl_follow_of_closed id hunopened hmem] at hopen
    cases hopen

/-- A proposal to close sessions that was drawn up from a state, from the leases that had run out or
    the sessions of an endpoint, and comes to be applied after a further log. It closes those of its
    sessions that are open still and were not renewed since, and answers with their number. Nothing
    has happened to these sessions in between, and no id is ever handed out twice, so they are the
    very sessions that were seen. The places of a log are 64-bit numbers, and so are its ids and
    versions. -/
theorem stale_expiry_harmless (options : MachineOptions) (log later : List Command)
    (command : Command) (pairs : List (SessionId × UInt64))
    (hlength : (log ++ later).length < UInt64.size)
    (hobserved : (∃ now renewed, pairs = (run options log).sessions.expired now renewed) ∨
      ∃ endpoint, pairs = (run options log).sessions.ownedBy endpoint)
    (hoperation : command.operation = .expireSessions pairs)
    (hsession : command.invocation.session = none) :
    let observed := run options log
    let machine := run options (log ++ later)
    let closed := (pairs.map (·.1)).filter fun id =>
      machine.sessions.isActive id && !(observed.leaseHistory id later).any LeaseEvent.isRenewed
    (machine.apply command).answer = .ok (.count (closed.length : Int).toInt64) ∧
      closed.Nodup ∧
      (∀ id, (machine.apply command).state.sessions.get? id =
        if id ∈ closed then none else machine.sessions.get? id) ∧
      (∀ id ∈ closed, observed.sessions.isActive id = true ∧
        ∀ earlier rest, later = earlier ++ rest →
          (run options (log ++ earlier)).sessions.get? id = observed.sessions.get? id) ∧
      ((new options).handedOut (log ++ later)).Nodup := by
  intro observed machine closed
  have hissued : observed.sessions.Issued ((new options).handedOut log) := issued_run options log
  have hids : ((new options).handedOut (log ++ later)).Nodup :=
    (issued_run options (log ++ later)).nodup
      (Nat.lt_of_le_of_lt (length_handedOut_le _ _) hlength)
  obtain ⟨hdistinct, hseen⟩ : (pairs.map (·.1)).Nodup ∧ ∀ pair ∈ pairs,
      ∃ session, observed.sessions.get? pair.1 = some session ∧ session.version = pair.2 := by
    rcases hobserved with ⟨now, renewed, rfl⟩ | ⟨endpoint, rfl⟩
    · exact SessionRegistry.observed_of_filter hissued _
    · exact SessionRegistry.observed_of_filter hissued _
  -- An id that has been handed out is never handed out again, so none is opened anew.
  have hunopened : ∀ pair ∈ pairs, ∀ event ∈ observed.leaseHistory pair.1 later,
      event.isOpened = false := by
    intro pair hmem
    obtain ⟨session, hget, -⟩ := hseen pair hmem
    have hold : pair.1 ∈ (new options).handedOut log :=
      hissued.open_mem pair.1 (Option.isSome_iff_exists.mpr ⟨session, hget⟩)
    have hsplit : (new options).handedOut (log ++ later) =
        (new options).handedOut log ++ observed.handedOut later := collect_append _ _ _ _
    rw [hsplit] at hids
    exact unopened_of_not_handedOut hissued fun hagain =>
      (List.nodup_append.mp hids).2.2 _ hold _ hagain rfl
  have hmachine : machine = observed.replay later := run_append options log later
  have hshort : later.length < UInt64.size := by
    rw [List.length_append] at hlength
    omega
  -- The version that was seen is still there unless the session was renewed or closed.
  have hclosable : machine.sessions.closable pairs = closed := by
    rw [SessionRegistry.closable_eq _ hdistinct]
    simp only [closed, List.filter_map]
    congr 1
    refine List.filter_congr fun pair hmem => ?_
    obtain ⟨session, hget, hversion⟩ := hseen pair hmem
    have hkept := hasVersion_replay hget (hunopened pair hmem) hshort
    rwa [hversion, ← hmachine] at hkept
  have hexecutes : machine.executes command = true := executes_of_sessionless hsession
  refine ⟨?_, hdistinct.filter _, fun id => ?_, fun id hmem => ?_, hids⟩
  · rw [apply_of_executes hexecutes]
    simp only [hoperation, execute, expireSessions_eq, hclosable]
  · rw [apply_lease, leaseEvents, if_pos hexecutes, hoperation]
    simp only [operationLease, closings, hclosable]
    split <;> rfl
  · obtain ⟨hlisted, hkept⟩ := List.mem_filter.mp hmem
    obtain ⟨pair, hpair, rfl⟩ := List.mem_map.mp hlisted
    obtain ⟨session, hget, -⟩ := hseen pair hpair
    obtain ⟨hactive, hunrenewed⟩ := Bool.and_eq_true_iff.mp hkept
    have hnothing : observed.leaseHistory pair.1 later = [] :=
      leaseHistory_eq_nil (hunopened pair hpair) (by simpa using hunrenewed) (hmachine ▸ hactive)
    refine ⟨Option.isSome_iff_exists.mpr ⟨session, hget⟩, ?_⟩
    rintro earlier rest rfl
    have hbefore : observed.leaseHistory pair.1 earlier = [] := by
      rw [leaseHistory, collect_append] at hnothing
      exact (List.append_eq_nil_iff.mp hnothing).1
    rw [run_append, replay_lease, hbefore]
    rfl

/-- Three leases have run out when the leader looks. Before its proposal is applied, the first is
    renewed, the second is closed, and another one is opened. -/
theorem stale_expiry_closes_third :
    let options : MachineOptions := { sessionTtl := 10, dedupCapacity := 4, overdraft := true }
    let session (op : SessionOp) : Command := { operation := .session op, timestamp := 11 }
    let log := [session (.create "a"), session (.create "b"), session (.create "c")]
    let later := [session (.heartbeat 1), session (.close 2), session (.create "d")]
    let pairs : List (SessionId × UInt64) := [(1, 0), (2, 0), (3, 0)]
    let command : Command := { operation := .expireSessions pairs }
    let machine := run options (log ++ later)
    pairs = (run options log).sessions.expired 21 0 ∧
      (machine.apply command).answer = .ok (.count 1) ∧
      ∀ id, (machine.apply command).state.sessions.get? id =
        if id ∈ [3] then none else machine.sessions.get? id := by
  intro options session log later pairs command machine
  have hobserved : pairs = (run options log).sessions.expired 21 0 := by decide +kernel
  have hclosed : (pairs.map (·.1)).filter (fun id =>
      (run options (log ++ later)).sessions.isActive id &&
        !((run options log).leaseHistory id later).any LeaseEvent.isRenewed) = [3] := by
    decide +kernel
  obtain ⟨hanswer, -, hsessions, -⟩ := stale_expiry_harmless options log later command pairs
    (by decide) (.inl ⟨21, 0, hobserved⟩) rfl rfl
  rw [hclosed] at hanswer hsessions
  exact ⟨hobserved, hanswer, hsessions⟩

end Machine
end Quorum
