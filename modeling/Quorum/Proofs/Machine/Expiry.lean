import Quorum.Proofs.Machine.Leases
import Quorum.Proofs.Semaphore.Closing

namespace Quorum

namespace SessionRegistry

/-- Two sessions are taken out in either order. -/
theorem without_comm (registry : SessionRegistry) (first second : SessionId) :
    (registry.without first).without second = (registry.without second).without first := by
  have herased : (registry.sessions.erase first).erase second =
      (registry.sessions.erase second).erase first := by
    refine SortedMap.ext_get? fun id => ?_
    simp only [SortedMap.get?_erase]
    split <;> split <;> rfl
  simp only [without, herased]

theorem hasVersion_without (registry : SessionRegistry) (closed : SessionId)
    (pair : SessionId × UInt64) :
    (registry.without closed).hasVersion pair =
      (decide (closed ≠ pair.1) && registry.hasVersion pair) := by
  rw [hasVersion, get?_without, hasVersion]
  by_cases heq : closed = pair.1
  · simp [heq]
  · simp [heq]

/-- The first pair closes its session if the version is right, and then come the others. -/
theorem closable_cons (registry : SessionRegistry) (pair : SessionId × UInt64)
    (rest : List (SessionId × UInt64)) :
    registry.closable (pair :: rest) =
      if registry.hasVersion pair then pair.1 :: (registry.without pair.1).closable rest
      else registry.closable rest := by
  rw [closable, closeIfVersion_eq, hasVersion]
  cases registry.get? pair.1 with
  | none => rfl
  | some session =>
    by_cases hversion : session.version = pair.2
    · simp [hversion]
    · simp [hversion]

/-- A proposal closes the same sessions whatever the order of its pairs. One may name a session
    twice, in the same version or in another. -/
theorem closable_perm {pairs others : List (SessionId × UInt64)} (h : pairs.Perm others)
    (registry : SessionRegistry) : (registry.closable pairs).Perm (registry.closable others) := by
  induction h generalizing registry with
  | nil => exact .refl _
  | trans _ _ ih ih' => exact (ih registry).trans (ih' registry)
  | cons pair _ ih =>
    rw [closable_cons, closable_cons]
    split
    · exact (ih _).cons pair.1
    · exact ih registry
  | swap first second rest =>
    simp only [closable_cons, hasVersion_without]
    by_cases hsame : first.1 = second.1
    · cases registry.hasVersion first <;> cases registry.hasVersion second <;> simp [hsame]
    · have hother : second.1 ≠ first.1 := fun heq => hsame heq.symm
      cases registry.hasVersion first <;> cases registry.hasVersion second <;>
        simp [hsame, hother, without_comm registry second.1, List.Perm.swap]

end SessionRegistry

namespace Latch

/-- A round that loses its owner has none, so at most one of several sessions matters. -/
theorem releaseOwner_comm (latch : Latch) (name : String) (first second : SessionId) :
    ((latch.releaseOwner name first).1.releaseOwner name second).1 =
      ((latch.releaseOwner name second).1.releaseOwner name first).1 := by
  by_cases hsame : first = second
  · rw [hsame]
  by_cases hfirst : latch.owner = some first
  · have hsecond : latch.owner ≠ some second := by
      rw [hfirst]
      exact fun heq => hsame (Option.some.inj heq)
    simp [releaseOwner, hfirst, hsame]
  · by_cases hsecond : latch.owner = some second
    · simp [releaseOwner, hsecond, Ne.symm hsame]
    · simp [releaseOwner, hfirst, hsecond]

/-- Closes the sessions that may own the round, one after the other. -/
def releaseOwners (latch : Latch) (name : String) (closed : List SessionId) : Latch :=
  closed.foldl (fun latch session => (latch.releaseOwner name session).1) latch

/-- A latch is released by its owners alike in any order. -/
theorem releaseOwners_perm {closed others : List SessionId} (h : closed.Perm others)
    (latch : Latch) (name : String) :
    latch.releaseOwners name closed = latch.releaseOwners name others :=
  h.foldl_eq' (fun first _ second _ current => releaseOwner_comm current name first second) latch

end Latch

namespace Machine

/-- Closing sessions closes them at every semaphore. -/
theorem get?_closeAll_semaphores (machine : Machine) (closed : List SessionId) (name : String) :
    (machine.closeAll closed).1.semaphores.get? name =
      (machine.semaphores.get? name).map fun semaphore => semaphore.closeSessions closed := by
  induction closed generalizing machine with
  | nil => exact Option.map_id'.symm
  | cons session rest ih =>
    refine (ih _).trans ?_
    have hfirst := Semaphores.get?_stepAll machine.semaphores
      (fun semaphore => semaphore.closeSession session) name
    exact (congrArg _ hfirst).trans (Option.map_map _ _ _)

/-- Closing sessions releases them at every latch. -/
theorem get?_closeAll_latches (machine : Machine) (closed : List SessionId) (name : String) :
    (machine.closeAll closed).1.latches.get? name =
      (machine.latches.get? name).map fun latch => latch.releaseOwners name closed := by
  induction closed generalizing machine with
  | nil => exact Option.map_id'.symm
  | cons session rest ih =>
    refine (ih _).trans ?_
    have hfirst := Latches.get?_stepAll machine.latches
      (fun name latch => latch.releaseOwner name session) name
    exact (congrArg _ hfirst).trans (Option.map_map _ _ _)

/-- Closing sessions does not touch references. -/
theorem closeAll_refs (machine : Machine) (closed : List SessionId) :
    (machine.closeAll closed).1.refs = machine.refs := by
  induction closed generalizing machine with
  | nil => rfl
  | cons session rest ih => exact ih _

/-- In whatever order sessions are closed, the registry and all objects end up the same. -/
theorem closeAll_perm {closed others : List SessionId} (h : closed.Perm others)
    (machine : Machine) :
    (machine.closeAll closed).1.sessions = (machine.closeAll others).1.sessions ∧
      (machine.closeAll closed).1.semaphores = (machine.closeAll others).1.semaphores ∧
      (machine.closeAll closed).1.latches = (machine.closeAll others).1.latches ∧
      (machine.closeAll closed).1.refs = (machine.closeAll others).1.refs := by
  refine ⟨?_, ?_, ?_, ?_⟩
  · rw [closeAll_sessions, closeAll_sessions]
    exact h.foldl_eq' (fun first _ second _ registry => registry.without_comm first second) _
  · rw [Semaphores.mk.injEq, closeAll_overdraft, closeAll_overdraft]
    refine ⟨SortedMap.ext_get? fun name => ?_, rfl⟩
    have hsame (semaphore : Semaphore) := Semaphore.closeSessions_perm h semaphore
    have hfirst := get?_closeAll_semaphores machine closed name
    simp only [hsame] at hfirst
    exact hfirst.trans (get?_closeAll_semaphores machine others name).symm
  · rw [Latches.mk.injEq]
    refine SortedMap.ext_get? fun name => ?_
    have hsame (latch : Latch) := Latch.releaseOwners_perm h latch name
    have hfirst := get?_closeAll_latches machine closed name
    simp only [hsame] at hfirst
    exact hfirst.trans (get?_closeAll_latches machine others name).symm
  · rw [closeAll_refs, closeAll_refs]

/-- What a semaphore is after sessions were closed: without them, and with its queue served once. -/
theorem get?_closeAll_semaphores_of_ne_nil (machine : Machine) {closed : List SessionId}
    (h : closed ≠ []) (name : String) :
    (machine.closeAll closed).1.semaphores.get? name =
      (machine.semaphores.get? name).map fun semaphore =>
        (semaphore.withoutSessions closed).grantWaiters.1 := by
  obtain ⟨session, rest, rfl⟩ := List.exists_cons_of_ne_nil h
  rw [get?_closeAll_semaphores]
  simp only [Semaphore.closeSessions_eq]

/-- The expiry of sessions, as its answer, its registry and its objects. -/
theorem apply_expireSessions (machine : Machine) {command : Command}
    {pairs : List (SessionId × UInt64)} (hoperation : command.operation = .expireSessions pairs)
    (hsession : command.invocation.session = none) :
    let closed := machine.sessions.closable pairs
    (machine.apply command).answer = .ok (.count (closed.length : Int).toInt64) ∧
      ∃ cache, (machine.apply command).state =
        { (machine.closeAll closed).1 with cache := cache } := by
  intro closed
  have hexecutes : machine.executes command = true := executes_of_sessionless hsession
  obtain ⟨cache, hstate⟩ := apply_state_of_executes hexecutes
  rw [hoperation] at hstate
  simp only [execute, expireSessions_eq] at hstate
  refine ⟨?_, cache, hstate⟩
  rw [apply_of_executes hexecutes]
  simp only [hoperation, execute, expireSessions_eq, closed]

/-- Two proposals that close the same sessions in different orders answer with the same number and
    leave the same registry and the same objects. The semaphores are left without the sessions, each
    with its queue served once, also when one of the sessions was granted permits that another one
    of them had freed. -/
theorem expireSessions_perm (machine : Machine) (command other : Command)
    {pairs others : List (SessionId × UInt64)} (hperm : pairs.Perm others)
    (hcommand : command.operation = .expireSessions pairs)
    (hother : other.operation = .expireSessions others)
    (hsession : command.invocation.session = none) (hnone : other.invocation.session = none) :
    let closed := machine.sessions.closable pairs
    let after := (machine.apply command).state
    let reordered := (machine.apply other).state
    (machine.apply command).answer = .ok (.count (closed.length : Int).toInt64) ∧
      (machine.apply other).answer = (machine.apply command).answer ∧
      (∀ id, after.sessions.get? id = if id ∈ closed then none else machine.sessions.get? id) ∧
      (closed ≠ [] → ∀ name, after.semaphores.get? name =
        (machine.semaphores.get? name).map fun semaphore =>
          (semaphore.withoutSessions closed).grantWaiters.1) ∧
      reordered.sessions = after.sessions ∧ reordered.semaphores = after.semaphores ∧
      reordered.latches = after.latches ∧ reordered.refs = after.refs := by
  intro closed after reordered
  obtain ⟨hanswer, cache, hafter⟩ := machine.apply_expireSessions hcommand hsession
  obtain ⟨hanswer', cache', hreordered⟩ := machine.apply_expireSessions hother hnone
  have hclosed : closed.Perm (machine.sessions.closable others) :=
    SessionRegistry.closable_perm hperm machine.sessions
  obtain ⟨hsessions, hsemaphores, hlatches, hrefs⟩ := closeAll_perm hclosed machine
  replace hafter : after = { (machine.closeAll closed).1 with cache := cache } := hafter
  replace hreordered : reordered =
    { (machine.closeAll (machine.sessions.closable others)).1 with cache := cache' } := hreordered
  refine ⟨hanswer, ?_, fun id => ?_, fun hne name => ?_, ?_⟩
  · rw [hanswer, hanswer', hclosed.length_eq]
  · rw [hafter]
    change (machine.closeAll closed).1.sessions.get? id = _
    rw [closeAll_sessions, SessionRegistry.get?_foldl_without]
  · rw [hafter]
    exact machine.get?_closeAll_semaphores_of_ne_nil hne name
  · rw [hafter, hreordered]
    exact ⟨hsessions.symm, hsemaphores.symm, hlatches.symm, hrefs.symm⟩

/-- The second session waits for the permit of the first. In one order it is granted the permit and
    then closed, in the other it is refused; the permit ends with the third in both. -/
theorem relay_expireSessions_perm :
    let options : MachineOptions := { sessionTtl := 10, dedupCapacity := 4, overdraft := false }
    let machine := run options (relayLog.take 7)
    let command : Command := { operation := .expireSessions [(1, 0), (2, 0)] }
    let other : Command := { operation := .expireSessions [(2, 0), (1, 0)] }
    (machine.apply command).answer = .ok (.count 2) ∧ (machine.apply other).answer = .ok (.count 2) ∧
      (machine.apply command).notes ≠ (machine.apply other).notes ∧
      (machine.apply other).state.semaphores = (machine.apply command).state.semaphores ∧
      ((machine.apply other).state.semaphores.get? "permit").map (·.held.get? (3, 0)) =
        some (some 1) := by
  intro options machine command other
  obtain ⟨hanswer, hsame, -, -, -, hsemaphores, -, -⟩ := expireSessions_perm machine command other
    (List.Perm.swap (2, 0) (1, 0) []) rfl rfl rfl rfl
  have hcount : ((machine.sessions.closable [(1, 0), (2, 0)]).length : Int).toInt64 = 2 := by
    decide +kernel
  rw [hcount] at hanswer
  refine ⟨hanswer, hsame.trans hanswer, ?_, hsemaphores, ?_⟩
  · decide +kernel
  · decide +kernel

end Machine

end Quorum
