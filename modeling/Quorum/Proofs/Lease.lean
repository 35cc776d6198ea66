import Quorum.Proofs.Counter
import Quorum.Proofs.Machine.Events

namespace Quorum

/-- The latest of some instants. -/
def Millis.latest (instants : List Millis) : Nat := (instants.map UInt64.toNat).foldr max 0

@[simp] theorem Millis.latest_nil : Millis.latest [] = 0 := rfl

@[simp] theorem Millis.latest_cons (instant : Millis) (rest : List Millis) :
    Millis.latest (instant :: rest) = max instant.toNat (Millis.latest rest) := rfl

namespace Session

/-- A lease that begins. -/
def begun (id : SessionId) (endpoint : String) (now : Millis) : Session :=
  { id, endpoint, createdAt := now, lastHeartbeat := now, version := 0 }

/-- A lease after a heartbeat. -/
def renewed (session : Session) (now : Millis) : Session :=
  { session with
    lastHeartbeat := max session.lastHeartbeat now
    version := session.version + 1 }

/-- Heartbeats leave a session renewed at the latest of their instants, whatever their order. -/
theorem lastHeartbeat_foldl_renewed (session : Session) (instants : List Millis) :
    (instants.foldl renewed session).lastHeartbeat.toNat =
      max session.lastHeartbeat.toNat (Millis.latest instants) := by
  induction instants generalizing session with
  | nil => simp
  | cons instant rest ih =>
    rw [List.foldl_cons, ih, Millis.latest_cons, renewed, UInt64.toNat_max, Nat.max_assoc]

/-- Each renewal raises the version by one. -/
theorem version_foldl_renewed (session : Session) (instants : List Millis) :
    (instants.foldl renewed session).version = session.version + .ofNat instants.length := by
  induction instants generalizing session with
  | nil => simp
  | cons instant rest ih =>
    rw [List.foldl_cons, ih, List.length_cons, UInt64.ofNat_add, renewed]
    grind

/-- A lease has ended once the last renewal lies a span back, both told as numbers. -/
theorem leaseEnd_le_iff (session : Session) (ttl renewed now : Millis) :
    session.leaseEnd ttl renewed ≤ now ↔
      min (max session.lastHeartbeat.toNat renewed.toNat + ttl.toNat) (UInt64.size - 1) ≤
        now.toNat := by
  rw [leaseEnd, UInt64.le_iff_toNat_le, Millis.toNat_later, UInt64.toNat_max]

end Session

/-- What befalls the session of an id. -/
inductive LeaseEvent where
  | opened (endpoint : String) (now : Millis)
  | renewed (now : Millis)
  | closed

namespace LeaseEvent

def isOpened : LeaseEvent → Bool
  | .opened _ _ => true
  | _ => false

def isRenewed : LeaseEvent → Bool
  | .renewed _ => true
  | _ => false

/-- What an event leaves of a session. One that is open is not opened anew. -/
def follow (id : SessionId) (session? : Option Session) : LeaseEvent → Option Session
  | .opened endpoint now => some (session?.getD (.begun id endpoint now))
  | .renewed now => session?.map fun session => session.renewed now
  | .closed => none

/-- A session that is never opened is never there. -/
theorem foldl_follow_none {events : List LeaseEvent} (id : SessionId)
    (hunopened : ∀ event ∈ events, event.isOpened = false) :
    events.foldl (follow id) none = none := by
  induction events with
  | nil => rfl
  | cons event rest ih =>
    have hrest := ih fun later hmem => hunopened later (List.mem_cons_of_mem event hmem)
    cases event with
    | opened endpoint now => cases hunopened _ List.mem_cons_self
    | renewed now => exact hrest
    | closed => exact hrest

/-- A session that was closed at some point and not opened anew is closed. -/
theorem foldl_follow_of_closed {events : List LeaseEvent} (id : SessionId)
    (hunopened : ∀ event ∈ events, event.isOpened = false) (hclosed : .closed ∈ events)
    (session? : Option Session) : events.foldl (follow id) session? = none := by
  obtain ⟨earlier, later, rfl⟩ := List.append_of_mem hclosed
  rw [List.foldl_append, List.foldl_cons]
  exact foldl_follow_none id fun event hmem => hunopened event (by simp [hmem])

/-- The version of a session that was neither opened anew nor closed counts the renewals. -/
theorem foldl_follow_of_kept {events : List LeaseEvent} (id : SessionId)
    (hunopened : ∀ event ∈ events, event.isOpened = false) (hkept : .closed ∉ events)
    (session : Session) : ∃ after, events.foldl (follow id) (some session) = some after ∧
      after.version = session.version + .ofNat (events.countP isRenewed) := by
  induction events generalizing session with
  | nil => exact ⟨session, rfl, (UInt64.add_zero _).symm⟩
  | cons event rest ih =>
    obtain ⟨hopen, hrest⟩ := not_or.mp (List.mem_cons.not.mp hkept)
    cases event with
    | opened endpoint now => cases hunopened _ List.mem_cons_self
    | closed => exact absurd rfl hopen
    | renewed now =>
      obtain ⟨after, hafter, hversion⟩ :=
        ih (fun later hmem => hunopened later (List.mem_cons_of_mem _ hmem)) hrest
          (session.renewed now)
      refine ⟨after, hafter, ?_⟩
      rw [hversion, List.countP_cons_of_pos rfl, UInt64.ofNat_add, Session.renewed]
      grind

end LeaseEvent

namespace SessionRegistry

/-- A session that is taken out is gone, and the others stay. -/
theorem get?_without (registry : SessionRegistry) (closed id : SessionId) :
    (registry.without closed).get? id = if closed = id then none else registry.get? id :=
  SortedMap.get?_erase registry.sessions closed id

/-- An opened session takes the next id, and the others stay. -/
theorem get?_create (registry : SessionRegistry) (endpoint : String) (now : Millis)
    (id : SessionId) :
    (registry.create endpoint now).2.get? id =
      if registry.nextSession = id then some ((registry.get? id).getD (.begun id endpoint now))
      else registry.get? id := by
  refine (SortedMap.get?_insert registry.sessions _ _ id).trans ?_
  split
  · rename_i heq
    rw [heq]
    rfl
  · rfl

/-- A heartbeat renews an open session and is refused for any other. -/
theorem heartbeat_eq (registry : SessionRegistry) (id : SessionId) (now : Millis) :
    registry.heartbeat id now =
      match registry.get? id with
      | none => .error (.sessionExpired id)
      | some session =>
        .ok { registry with sessions := registry.sessions.insert id (session.renewed now) } := rfl

/-- A session is closed if it is open and has the version that was seen. -/
theorem closeIfVersion_eq (registry : SessionRegistry) (id : SessionId) (version : UInt64) :
    registry.closeIfVersion id version =
      match registry.get? id with
      | some session =>
        if session.version = version then some (session, registry.without id) else none
      | none => none := by
  unfold closeIfVersion
  cases hget : registry.get? id with
  | none => rfl
  | some session =>
    simp only [close_eq, hget]
    rfl

/-- Whether an id is open in the version that a proposal names. -/
def hasVersion (registry : SessionRegistry) (pair : SessionId × UInt64) : Bool :=
  (registry.get? pair.1).any fun session => session.version = pair.2

/-- Of distinct sessions, those are closed that have the version which the proposal names. -/
theorem closable_eq (registry : SessionRegistry) {pairs : List (SessionId × UInt64)}
    (hdistinct : (pairs.map (·.1)).Nodup) :
    registry.closable pairs = (pairs.filter registry.hasVersion).map (·.1) := by
  induction pairs generalizing registry with
  | nil => rfl
  | cons pair rest ih =>
    obtain ⟨id, version⟩ := pair
    obtain ⟨hnew, hrest⟩ := List.nodup_cons.mp hdistinct
    have hlater : ∀ other ∈ rest, (registry.without id).hasVersion other =
        registry.hasVersion other := by
      intro other hmem
      have hne : id ≠ other.1 := fun heq => hnew (List.mem_map.mpr ⟨other, hmem, heq.symm⟩)
      rw [hasVersion, get?_without, if_neg hne, hasVersion]
    simp only [closable, closeIfVersion_eq]
    cases hget : registry.get? id with
    | none =>
      have hgone : registry.hasVersion (id, version) = false := by
        rw [hasVersion, hget]
        rfl
      rw [List.filter_cons_of_neg (by simp [hgone])]
      exact ih registry hrest
    | some session =>
      by_cases hversion : session.version = version
      · have hkept : registry.hasVersion (id, version) = true := by
          rw [hasVersion, hget]
          exact decide_eq_true hversion
        rw [List.filter_cons_of_pos hkept, List.map_cons]
        simp only [if_pos hversion]
        exact congrArg (id :: ·)
          ((ih _ hrest).trans (congrArg _ (List.filter_congr hlater)))
      · have hrenewed : registry.hasVersion (id, version) = false := by
          rw [hasVersion, hget]
          exact decide_eq_false hversion
        rw [List.filter_cons_of_neg (by simp [hrenewed])]
        simp only [if_neg hversion]
        exact ih registry hrest

/-- A registry has handed out ids, one after the other from 1, and no others are open. -/
structure Issued (registry : SessionRegistry) (ids : List SessionId) : Prop where
  next_eq : registry.nextSession = .ofNat (ids.length + 1)
  ids_eq : ids = (List.range ids.length).map fun k => .ofNat (k + 1)
  /-- An open session is found under its own id. -/
  id_eq : ∀ id session, registry.get? id = some session → session.id = id
  open_mem : ∀ id, registry.isActive id = true → id ∈ ids

theorem issued_new (ttl : Millis) : (new ttl).Issued [] where
  next_eq := rfl
  ids_eq := rfl
  id_eq := by
    intro id session hget
    cases hget
  open_mem := by
    intro id hactive
    cases hactive

namespace Issued

variable {registry : SessionRegistry} {ids : List SessionId}

/-- Ids are distinct as long as their number fits them. -/
theorem nodup (h : registry.Issued ids) (hfits : ids.length < UInt64.size) : ids.Nodup := by
  rw [h.ids_eq]
  exact Counter.nodup_ids hfits

/-- Where every open session is one that was open before, under its own id, nothing is issued. -/
theorem congr {after : SessionRegistry} (h : registry.Issued ids)
    (hnext : after.nextSession = registry.nextSession)
    (hopen : ∀ id session, after.get? id = some session →
      ∃ before, registry.get? id = some before ∧ session.id = before.id) : after.Issued ids where
  next_eq := hnext.trans h.next_eq
  ids_eq := h.ids_eq
  id_eq := by
    intro id session hget
    obtain ⟨before, hbefore, heq⟩ := hopen id session hget
    exact heq.trans (h.id_eq id before hbefore)
  open_mem := by
    intro id hactive
    obtain ⟨session, hget⟩ := Option.isSome_iff_exists.mp hactive
    obtain ⟨before, hbefore, -⟩ := hopen id session hget
    exact h.open_mem id (Option.isSome_iff_exists.mpr ⟨before, hbefore⟩)

/-- Opening a session adds its id to those that were given out. -/
theorem create (h : registry.Issued ids) (endpoint : String) (now : Millis) :
    (registry.create endpoint now).2.Issued (ids ++ [registry.nextSession]) where
  next_eq := by
    show registry.nextSession + 1 = _
    rw [h.next_eq, List.length_append, List.length_singleton, UInt64.ofNat_add (ids.length + 1)]
    rfl
  ids_eq := by
    rw [List.length_append, List.length_singleton, List.range_succ, List.map_append, ← h.ids_eq,
      h.next_eq]
    rfl
  id_eq := by
    intro id session hget
    rw [get?_create] at hget
    split at hget
    · cases hbefore : registry.get? id with
      | none =>
        rw [hbefore] at hget
        obtain rfl := Option.some.inj hget
        rfl
      | some before =>
        rw [hbefore] at hget
        obtain rfl := Option.some.inj hget
        exact h.id_eq id _ hbefore
    · exact h.id_eq id session hget
  open_mem := by
    intro id hactive
    rw [isActive, get?_create] at hactive
    split at hactive
    · rename_i heq
      exact List.mem_append_right _ (List.mem_singleton.mpr heq.symm)
    · exact List.mem_append_left _ (h.open_mem id hactive)

/-- A session is handed out under the id that comes next. -/
theorem create_id (h : registry.Issued ids) (endpoint : String) (now : Millis) :
    (registry.create endpoint now).1.id = registry.nextSession := by
  have hfound := (h.create endpoint now).id_eq registry.nextSession
    (registry.create endpoint now).1
  exact hfound (SortedMap.get?_insert_self registry.sessions _ _)

end Issued

/-- What a registry lists as observed names each session once, in the version it has. -/
theorem observed_of_filter {registry : SessionRegistry} {ids : List SessionId}
    (h : registry.Issued ids) (keep : Session → Bool) :
    (((registry.sessions.values.filter keep).map Session.observed).map (·.1)).Nodup ∧
      ∀ pair ∈ (registry.sessions.values.filter keep).map Session.observed,
        ∃ session, registry.get? pair.1 = some session ∧ session.version = pair.2 := by
  have hentry : ∀ entry ∈ registry.sessions.entries, entry.2.id = entry.1 :=
    fun entry hmem => h.id_eq entry.1 entry.2 (SortedMap.get?_of_mem hmem)
  constructor
  · have hkeys : registry.sessions.values.map Session.id = registry.sessions.keys := by
      rw [SortedMap.values, List.map_map]
      exact List.map_congr_left hentry
    have hnodup : (registry.sessions.values.map Session.id).Nodup :=
      hkeys ▸ registry.sessions.nodup_keys
    rw [List.map_map]
    exact hnodup.sublist (List.filter_sublist.map Session.id)
  · intro pair hmem
    obtain ⟨session, hkept, rfl⟩ := List.mem_map.mp hmem
    obtain ⟨entry, hin, rfl⟩ := List.mem_map.mp (List.mem_filter.mp hkept).1
    refine ⟨entry.2, ?_, rfl⟩
    rw [Session.observed, hentry entry hin]
    exact SortedMap.get?_of_mem hin

/-- An open session is listed once if its lease has run out, in the version that it has, and
    otherwise not at all. -/
theorem Issued.filter_expired {registry : SessionRegistry} {ids : List SessionId}
    (h : registry.Issued ids) {id : SessionId} {session : Session}
    (hget : registry.get? id = some session) (now renewed : Millis) :
    (registry.expired now renewed).filter (fun pair => pair.1 = id) =
      if session.leaseEnd registry.ttl renewed ≤ now then [(id, session.version)] else [] := by
  have hfound : ∀ {other found}, registry.get? other = some found → found.id = id →
      other = id ∧ found = session := by
    intro other found hother hid
    have hkey : other = id := (h.id_eq other found hother).symm.trans hid
    rw [hkey, hget] at hother
    exact ⟨hkey, (Option.some.inj hother).symm⟩
  let due (found : Session) : Bool := decide (found.leaseEnd registry.ttl renewed ≤ now)
  have hsplit : (registry.expired now renewed).filter (fun pair => pair.1 = id) =
      (registry.sessions.values.filter fun found => decide (found.id = id) && due found).map
        Session.observed := by
    rw [expired, List.filter_map, List.filter_filter]
    rfl
  rw [hsplit]
  have hid : session.id = id := h.id_eq id session hget
  split
  · rename_i hdue
    have hfoundDue : ∀ other found, registry.sessions.get? other = some found ∧
        (decide (found.id = id) && due found) = true ↔ other = id ∧ found = session := by
      intro other found
      simp only [Bool.and_eq_true, decide_eq_true_eq]
      constructor
      · rintro ⟨hother, hfoundId, -⟩
        exact hfound hother hfoundId
      · rintro ⟨rfl, rfl⟩
        exact ⟨hget, hid, decide_eq_true hdue⟩
    have honly : registry.sessions.values.filter
        (fun found => decide (found.id = id) && due found) = [session] :=
      SortedMap.filter_values_eq_singleton hfoundDue
    rw [honly, List.map_singleton, Session.observed, hid]
  · rename_i hdue
    refine List.map_eq_nil_iff.mpr (List.filter_eq_nil_iff.mpr fun found hmem => ?_)
    obtain ⟨other, hother⟩ := SortedMap.mem_values.mp hmem
    simp only [Bool.and_eq_true, decide_eq_true_eq]
    rintro ⟨hfoundId, hfoundDue⟩
    obtain ⟨-, rfl⟩ := hfound hother hfoundId
    exact hdue (of_decide_eq_true hfoundDue)

/-- Of open sessions, those are listed whose leases have ended. -/
theorem Issued.mem_expired_iff {registry : SessionRegistry} {ids : List SessionId}
    (h : registry.Issued ids) {id : SessionId} {session : Session}
    (hget : registry.get? id = some session) (now renewed : Millis) :
    id ∈ (registry.expired now renewed).map (·.1) ↔
      session.leaseEnd registry.ttl renewed ≤ now := by
  have hfilter := h.filter_expired hget now renewed
  have hlisted : id ∈ (registry.expired now renewed).map (·.1) ↔
      (registry.expired now renewed).filter (fun pair => pair.1 = id) ≠ [] := by
    simp [List.filter_eq_nil_iff]
  rw [hlisted, hfilter]
  split <;> simp [*]

end SessionRegistry

end Quorum
