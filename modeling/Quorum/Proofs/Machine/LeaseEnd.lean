import Quorum.Proofs.Machine.Leases

namespace Quorum

theorem SessionRegistry.ttl_foldl_without (registry : SessionRegistry) (closed : List SessionId) :
    (closed.foldl without registry).ttl = registry.ttl := by
  induction closed generalizing registry with
  | nil => rfl
  | cons first rest ih => exact ih _

namespace Machine

theorem LeaseChange.ttl_eq {machine : Machine} {now : Millis} {operation : Operation}
    {after : SessionRegistry} (h : LeaseChange machine now operation after) :
    after.ttl = machine.sessions.ttl := by
  cases h with
  | opened endpoint => rfl
  | renewed hget => rfl
  | threaded => rfl
  | closed hopens hrenews => exact SessionRegistry.ttl_foldl_without _ _

/-- No command changes the span of leases. -/
theorem apply_ttl (machine : Machine) (command : Command) :
    (machine.apply command).state.sessions.ttl = machine.sessions.ttl := by
  cases hexecutes : machine.executes command with
  | true =>
    obtain ⟨cache, hstate⟩ := apply_state_of_executes hexecutes
    rw [hstate]
    exact (execute_leaseChange machine _ _ _).ttl_eq
  | false =>
    obtain ⟨result, hstate, -⟩ := apply_of_not_executes hexecutes
    rw [hstate]

/-- Leases last for the configured span after any log. -/
theorem run_ttl (options : MachineOptions) (log : List Command) :
    (run options log).sessions.ttl = options.sessionTtl :=
  run_induction (P := fun _ machine => machine.sessions.ttl = options.sessionTtl) rfl
    (fun log command h => ((run options log).apply_ttl command).trans h) log

/-- The instant of a heartbeat for a session, if that is what a command executes. -/
def heartbeatOf (machine : Machine) (id : SessionId) (command : Command) : List Millis :=
  if machine.executes command = true ∧ command.operation = .session (.heartbeat id) then
    [command.timestamp]
  else []

/-- The instants of the heartbeats for a session that a log executes. -/
def heartbeats (machine : Machine) (id : SessionId) (log : List Command) : List Millis :=
  machine.collect (fun machine command => machine.heartbeatOf id command) log

/-- A log has no more heartbeats than commands. -/
theorem length_heartbeats_le (machine : Machine) (id : SessionId) (log : List Command) :
    (machine.heartbeats id log).length ≤ log.length := by
  have hcount : (machine.heartbeats id log).countP (fun _ => true) ≤ log.length := by
    refine countP_collect_le (fun machine command => ?_) machine log
    unfold heartbeatOf
    split <;> simp
  simpa using hcount

/-- What the session of an id was before a command that left it open. It was opened by the command,
    or it was open before and has been renewed if the command is a heartbeat for it. -/
inductive Continued (machine : Machine) (command : Command) (id : SessionId) : Session → Prop
  | opened {endpoint : String} (hclosed : machine.sessions.get? id = none)
    (hexecutes : machine.executes command = true) (hnext : machine.sessions.nextSession = id)
    (hoperation : command.operation = .session (.create endpoint)) :
    Continued machine command id (.begun id endpoint command.timestamp)
  | kept {before : Session} (hopen : machine.sessions.get? id = some before) :
    Continued machine command id ((machine.heartbeatOf id command).foldl Session.renewed before)

/-- A session that is open after a command was open before or opened by it. -/
theorem continued_of_apply {machine : Machine} {command : Command} {id : SessionId}
    {after : Session} (h : (machine.apply command).state.sessions.get? id = some after) :
    machine.Continued command id after := by
  rw [apply_lease, leaseEvents] at h
  have hstill : machine.heartbeatOf id command = [] → machine.sessions.get? id = some after →
      machine.Continued command id after := by
    intro hnone hopen
    have hkept : machine.Continued command id _ := .kept hopen
    rwa [hnone] at hkept
  by_cases hexecutes : machine.executes command = true
  · rw [if_pos hexecutes] at h
    by_cases hheartbeat : command.operation = .session (.heartbeat id)
    · have hinstant : machine.heartbeatOf id command = [command.timestamp] :=
        if_pos ⟨hexecutes, hheartbeat⟩
      simp only [hheartbeat, operationLease, true_and, SessionRegistry.isActive] at h
      cases hget : machine.sessions.get? id with
      | none => simp [hget] at h
      | some before =>
        simp only [hget, Option.isSome_some, if_true, List.foldl_cons, List.foldl_nil,
          LeaseEvent.follow, Option.map_some, Option.some.injEq] at h
        have hkept : machine.Continued command id _ := .kept hget
        rw [hinstant] at hkept
        rwa [← h]
    · have hnone : machine.heartbeatOf id command = [] := if_neg fun hboth => hheartbeat hboth.2
      unfold operationLease at h
      split at h
      · rename_i endpoint hoperation
        split at h
        · rename_i hnext
          cases hget : machine.sessions.get? id with
          | none =>
            rw [hget] at h
            obtain rfl := Option.some.inj h
            exact .opened hget hexecutes hnext hoperation
          | some before =>
            rw [hget] at h
            exact hstill hnone (hget.trans h)
        · exact hstill hnone h
      · rename_i session hoperation
        rw [if_neg] at h
        · exact hstill hnone h
        · rintro ⟨rfl, -⟩
          exact hheartbeat hoperation
      · split at h
        · cases h
        · exact hstill hnone h
  · rw [if_neg hexecutes] at h
    exact hstill (if_neg fun hboth => hexecutes hboth.1) h

/-- A log splits at the entry that opened a session. The session has been open ever since. -/
structure Opening (options : MachineOptions) (id : SessionId) (earlier : List Command)
    (command : Command) (later : List Command) : Prop where
  executed : (run options earlier).executes command = true
  creates : ∃ endpoint, command.operation = .session (.create endpoint)
  granted : ((run options earlier).apply command).answer = .ok (.session ⟨id, options.sessionTtl⟩)
  unopened : (run options earlier).sessions.isActive id = false
  kept : ∀ between, between <+: later →
    (run options (earlier ++ command :: between)).sessions.isActive id = true

/-- The heartbeats for a session since a log opened it. -/
def heartbeatsSince (options : MachineOptions) (id : SessionId) (earlier : List Command)
    (command : Command) (later : List Command) : List Millis :=
  ((run options earlier).apply command).state.heartbeats id later

/-- An open session is what the heartbeats since its opening have made of its lease. -/
theorem exists_opening (options : MachineOptions) (log : List Command) {id : SessionId}
    {session : Session} (h : (run options log).sessions.get? id = some session) :
    ∃ earlier command later endpoint, log = earlier ++ command :: later ∧
      Opening options id earlier command later ∧
      session = (heartbeatsSince options id earlier command later).foldl Session.renewed
        (.begun id endpoint command.timestamp) := by
  refine run_induction (P := fun log machine => ∀ session,
    machine.sessions.get? id = some session → ∃ earlier command later endpoint,
      log = earlier ++ command :: later ∧ Opening options id earlier command later ∧
      session = (heartbeatsSince options id earlier command later).foldl Session.renewed
        (.begun id endpoint command.timestamp)) ?_ ?_ log session h
  · intro session hnone
    cases hnone
  intro log last ih after hafter
  have hactive : (run options (log ++ [last])).sessions.isActive id = true := by
    rw [run_concat, SessionRegistry.isActive, hafter]
    rfl
  -- The last command opened the session, or the opening is that of the log before it.
  have hcontinued := continued_of_apply hafter
  generalize after = session at hcontinued
  cases hcontinued with
  | @opened endpoint hclosed hexecutes hnext hoperation =>
    refine ⟨log, last, [], endpoint, rfl, ⟨hexecutes, ⟨endpoint, hoperation⟩, ?_, ?_, ?_⟩, rfl⟩
    · have hissued := issued_run options log
      simp only [apply_of_executes hexecutes, hoperation, execute, applySession,
        hissued.create_id, hnext, run_ttl]
    · rw [SessionRegistry.isActive, hclosed]
      rfl
    · intro between hprefix
      rw [List.prefix_nil.mp hprefix]
      exact hactive
  | @kept before hopen =>
    obtain ⟨earlier, command, later, endpoint, hlog, hopening, hbefore⟩ := ih before hopen
    have hrun : ((run options earlier).apply command).state.replay later = run options log := by
      rw [hlog, run_append]
      rfl
    have hsince : heartbeatsSince options id earlier command (later ++ [last]) =
        heartbeatsSince options id earlier command later ++
          (run options log).heartbeatOf id last := by
      rw [heartbeatsSince, heartbeats, collect_append, hrun]
      simp only [collect, List.append_nil]
      rfl
    refine ⟨earlier, command, later ++ [last], endpoint, by rw [hlog]; simp,
      { hopening with kept := ?_ }, ?_⟩
    · intro between hprefix
      rcases List.prefix_concat_iff.mp hprefix with rfl | hshorter
      · rw [hlog, List.append_assoc, List.cons_append] at hactive
        exact hactive
      · exact hopening.kept between hshorter
    · rw [hsince, List.foldl_append, ← hbefore]

/-- A lease that has run out had done so before the last command, which may have renewed it but
    never with the effect that it ends earlier. -/
theorem listed_before_apply {machine : Machine} {ids : List SessionId}
    (hissued : machine.sessions.Issued ids) {command : Command} {id : SessionId}
    (hopen : machine.sessions.isActive id = true) {now renewed : Millis}
    (hlisted : id ∈ ((machine.apply command).state.sessions.expired now renewed).map (·.1)) :
    id ∈ (machine.sessions.expired now renewed).map (·.1) := by
  have hissuedAfter := issued_apply hissued command
  obtain ⟨pair, hpair, rfl⟩ := List.mem_map.mp hlisted
  obtain ⟨after, hafter, -⟩ :=
    (SessionRegistry.observed_of_filter hissuedAfter _).2 pair hpair
  have hend := (hissuedAfter.mem_expired_iff hafter now renewed).mp hlisted
  have hcontinued := continued_of_apply hafter
  generalize after = session at hcontinued hend
  cases hcontinued with
  | opened hclosed hexecutes hnext hoperation =>
    rw [SessionRegistry.isActive, hclosed] at hopen
    cases hopen
  | @kept before hbefore =>
    refine (hissued.mem_expired_iff hbefore now renewed).mpr ?_
    rw [Session.leaseEnd_le_iff, Session.lastHeartbeat_foldl_renewed, apply_ttl] at hend
    rw [Session.leaseEnd_le_iff]
    omega

/-- Which open sessions a leader lists as expired, whatever the clocks were that stamped the log. A
    session is listed, once and with the number of heartbeats executed since it was opened, from a
    full span after the latest of these heartbeats, its opening and the instant from which the
    leader counts, and not before. So no further entry makes a lease end earlier, be it a heartbeat
    that a slower clock stamped, and a new leader gives every session a full span. Versions are
    64-bit numbers, as are the places of a log. -/
theorem listed_from_lease_end (options : MachineOptions) (log : List Command) (id : SessionId)
    (hopen : (run options log).sessions.isActive id = true) :
    let machine := run options log
    let ttl := options.sessionTtl.toNat
    ∃ earlier command later heartbeats, log = earlier ++ command :: later ∧
      Opening options id earlier command later ∧
      heartbeats = heartbeatsSince options id earlier command later ∧
      heartbeats.length ≤ later.length ∧
      (∀ now renewed, (machine.sessions.expired now renewed).filter (fun pair => pair.1 = id) =
        if min (Millis.latest (renewed :: command.timestamp :: heartbeats) + ttl)
            (UInt64.size - 1) ≤ now.toNat
        then [(id, .ofNat heartbeats.length)] else []) ∧
      (∀ renewal now renewed,
        id ∈ ((machine.apply renewal).state.sessions.expired now renewed).map (·.1) →
        id ∈ (machine.sessions.expired now renewed).map (·.1)) ∧
      ∀ now renewed, id ∈ (machine.sessions.expired now renewed).map (·.1) →
        min (renewed.toNat + ttl) (UInt64.size - 1) ≤ now.toNat := by
  intro machine ttl
  have hissued : machine.sessions.Issued ((new options).handedOut log) := issued_run options log
  have httl : machine.sessions.ttl = options.sessionTtl := run_ttl options log
  obtain ⟨session, hget⟩ := Option.isSome_iff_exists.mp hopen
  obtain ⟨earlier, command, later, endpoint, hlog, hopening, hsession⟩ :=
    exists_opening options log hget
  let heartbeats := heartbeatsSince options id earlier command later
  refine ⟨earlier, command, later, heartbeats, hlog, hopening, rfl,
    length_heartbeats_le _ id later, ?_, ?_, ?_⟩
  · intro now renewed
    have hversion : session.version = .ofNat heartbeats.length := by
      rw [hsession, Session.version_foldl_renewed]
      exact UInt64.zero_add _
    have hlatest : max session.lastHeartbeat.toNat renewed.toNat =
        Millis.latest (renewed :: command.timestamp :: heartbeats) := by
      have hbegun : (Session.begun id endpoint command.timestamp).lastHeartbeat =
        command.timestamp := rfl
      rw [hsession, Session.lastHeartbeat_foldl_renewed, hbegun, Nat.max_comm]
      rfl
    rw [hissued.filter_expired hget, hversion, ← hlatest]
    simp only [Session.leaseEnd_le_iff, httl, ttl]
  · intro renewal now renewed hlisted
    exact listed_before_apply hissued hopen hlisted
  · intro now renewed hlisted
    have hend := (hissued.mem_expired_iff hget now renewed).mp hlisted
    rw [Session.leaseEnd_le_iff, httl] at hend
    omega

/-- A slower clock stamps the second heartbeat, which a retry repeats. The lease still ends a span
    of 10 after the first one, and two heartbeats count. -/
theorem slow_heartbeat_listed_from_lease_end :
    let options : MachineOptions := { sessionTtl := 10, dedupCapacity := 4, overdraft := true }
    let heartbeat (uid : Nat) (timestamp : Millis) : Command :=
      { invocation := { session := some 1, uid := some (.ofNat uid) }
        operation := .session (.heartbeat 1), timestamp }
    let log := [{ operation := .session (.create "a"), timestamp := 5 }, heartbeat 7 20,
      heartbeat 8 12, heartbeat 8 40]
    let machine := run options log
    machine.sessions.isActive 1 = true ∧ machine.sessions.expired 29 0 = [] ∧
      machine.sessions.expired 30 0 = [(1, 2)] ∧
      ∃ earlier command later heartbeats, log = earlier ++ command :: later ∧
        Opening options 1 earlier command later ∧
        heartbeats = heartbeatsSince options 1 earlier command later ∧
        ∀ now renewed, (machine.sessions.expired now renewed).filter (fun pair => pair.1 = 1) =
          if min (Millis.latest (renewed :: command.timestamp :: heartbeats) + 10)
              (UInt64.size - 1) ≤ now.toNat
          then [(1, .ofNat heartbeats.length)] else [] := by
  intro options heartbeat log machine
  have hopen : machine.sessions.isActive 1 = true := by decide +kernel
  obtain ⟨earlier, command, later, heartbeats, hlog, hopening, hsince, -, hlisted, -⟩ :=
    listed_from_lease_end options log 1 hopen
  refine ⟨hopen, by decide +kernel, by decide +kernel, earlier, command, later, heartbeats, hlog,
    hopening, hsince, hlisted⟩

end Machine

end Quorum
