import Mathlib.Data.List.DropRight
import Quorum.Proofs.InvocationCache

namespace Quorum

/-- What happens to a cache. -/
inductive CacheEvent where
  | record (session : SessionId) (kind : String) (uid : InvocationUid) (value : Value)
  | discard (session : SessionId)

def CacheEvent.session : CacheEvent → SessionId
  | .record session _ _ _ => session
  | .discard session => session

namespace CacheEvent

/-- The keys inserted so far, after one more call for their session. A key that has dropped out of
    the last ones is inserted anew; one that has not stays where it is. -/
def insert (event : CacheEvent) (capacity : Nat) (keys : List CallKey) : List CallKey :=
  match event with
  | .record _ kind uid _ =>
    if ⟨kind, uid⟩ ∈ keys.rtake capacity then keys else keys ++ [⟨kind, uid⟩]
  | .discard _ => []

/-- The value last recorded for a key, after one more call for its session. -/
def assign (event : CacheEvent) (key : CallKey) (found : Option Value) : Option Value :=
  match event with
  | .record _ kind uid value => if ⟨kind, uid⟩ = key then some value else found
  | .discard _ => none

end CacheEvent

/-- The calls for one session. -/
def eventsOf (session : SessionId) (history : List CacheEvent) : List CacheEvent :=
  history.filter fun event => event.session = session

/-- The keys inserted for a session since it was last discarded, oldest first. -/
def insertedKeys (capacity : Nat) (session : SessionId) (history : List CacheEvent) :
    List CallKey :=
  (eventsOf session history).foldl (fun keys event => event.insert capacity keys) []

/-- The last keys inserted for a session, as many as the capacity leaves room for. -/
def recentKeys (capacity : Nat) (session : SessionId) (history : List CacheEvent) : List CallKey :=
  (insertedKeys capacity session history).rtake capacity

/-- The value last recorded for a key of a session, if there is one since it was discarded. -/
def lastValue? (session : SessionId) (history : List CacheEvent) (key : CallKey) : Option Value :=
  (eventsOf session history).foldl (fun found event => event.assign key found) none

section Concat

variable (capacity : Nat) (history : List CacheEvent)

theorem eventsOf_concat_self (event : CacheEvent) :
    eventsOf event.session (history ++ [event]) = eventsOf event.session history ++ [event] := by
  simp [eventsOf, List.filter_append]

/-- A call for a session inserts its key behind those of the session. -/
theorem insertedKeys_concat_self (event : CacheEvent) :
    insertedKeys capacity event.session (history ++ [event]) =
      event.insert capacity (insertedKeys capacity event.session history) := by
  rw [insertedKeys, eventsOf_concat_self, List.foldl_concat]
  rfl

/-- A call for a session assigns its value. -/
theorem lastValue?_concat_self (event : CacheEvent) :
    lastValue? event.session (history ++ [event]) =
      fun key => event.assign key (lastValue? event.session history key) := by
  funext key
  rw [lastValue?, eventsOf_concat_self, List.foldl_concat]
  rfl

variable {event : CacheEvent} {session : SessionId} (hother : event.session ≠ session)

include hother

theorem eventsOf_concat_of_ne :
    eventsOf session (history ++ [event]) = eventsOf session history := by
  simp [eventsOf, List.filter_append, hother]

/-- Calls for other sessions insert no key. -/
theorem insertedKeys_concat_of_ne :
    insertedKeys capacity session (history ++ [event]) = insertedKeys capacity session history := by
  rw [insertedKeys, eventsOf_concat_of_ne history hother, insertedKeys]

/-- Calls for other sessions assign no value. -/
theorem lastValue?_concat_of_ne :
    lastValue? session (history ++ [event]) = lastValue? session history := by
  funext key
  rw [lastValue?, eventsOf_concat_of_ne history hother, lastValue?]

end Concat

namespace ResultList

/-- Trimming keeps the youngest keys. -/
theorem keys_trim (results : ResultList) (capacity : Nat) :
    (results.trim capacity).keys = results.keys.rtake capacity := by
  simp [keys, trim, List.rtake, List.map_drop]

/-- The last entries are the same whether older ones were dropped before the newest came or not. -/
theorem rtake_rtake_concat {α : Type} (entries : List α) (newest : α) (n : Nat) :
    (entries.rtake n ++ [newest]).rtake n = (entries ++ [newest]).rtake n := by
  cases n with
  | zero => simp
  | succ n =>
    rw [List.rtake_concat_succ, List.rtake_concat_succ]
    simp [List.rtake_eq_reverse_take_reverse, List.take_take]

/-- The results are those of the last inserted keys, with the values last recorded for them. -/
structure Mirrors (results : ResultList) (capacity : Nat) (inserted : List CallKey)
    (value? : CallKey → Option Value) : Prop where
  keys_eq : results.keys = inserted.rtake capacity
  nodup : results.keys.Nodup
  values : ∀ entry ∈ results, value? entry.1 = some entry.2

/-- Nothing is kept of no call. -/
theorem Mirrors.nothing (capacity : Nat) : Mirrors [] capacity [] fun _ => none where
  keys_eq := by simp [keys]
  nodup := List.nodup_nil
  values _ hmem := absurd hmem List.not_mem_nil

/-- No more results are kept than the capacity. -/
theorem Mirrors.length_le {results : ResultList} {capacity : Nat} {inserted : List CallKey}
    {value? : CallKey → Option Value} (h : results.Mirrors capacity inserted value?) :
    results.length ≤ capacity := by
  have hlength := congrArg List.length h.keys_eq
  rw [keys, List.length_map, List.rtake, List.length_drop] at hlength
  omega

section Record

variable {results : ResultList} {capacity : Nat} {inserted : List CallKey}
  {value? : CallKey → Option Value} (h : results.Mirrors capacity inserted value?) {key : CallKey}
  (value : Value)

include h

/-- The result of a new key comes last and may push out the first. -/
theorem Mirrors.append (hnew : key ∉ results.keys) :
    ((results ++ [(key, value)]).trim capacity).Mirrors capacity (inserted ++ [key])
      (fun other => if key = other then some value else value? other) := by
  have hkeys : (results ++ [(key, value)]).keys = inserted.rtake capacity ++ [key] := by
    rw [← h.keys_eq]
    exact List.map_append
  have hnodup : (results ++ [(key, value)]).keys.Nodup := by
    rw [hkeys, ← h.keys_eq]
    exact List.concat_eq_append ▸ h.nodup.concat hnew
  refine ⟨?_, hnodup.sublist ((List.drop_sublist _ _).map _), fun entry hmem => ?_⟩
  · rw [keys_trim, hkeys, rtake_rtake_concat]
  · rcases List.mem_append.mp (List.mem_of_mem_drop hmem) with hold | hown
    · have hne : key ≠ entry.1 := fun heq => hnew (heq ▸ List.mem_map_of_mem hold)
      rw [if_neg hne]
      exact h.values entry hold
    · rw [List.mem_singleton.mp hown, if_pos rfl]

/-- A result that is replaced keeps its place. -/
theorem Mirrors.replace :
    Mirrors (results.map fun entry => if entry.1 = key then (key, value) else entry) capacity
      inserted (fun other => if key = other then some value else value? other) := by
  have hkeys : ResultList.keys
      (results.map fun entry => if entry.1 = key then (key, value) else entry) = results.keys := by
    rw [keys, List.map_map]
    refine List.map_congr_left fun entry _ => ?_
    simp only [Function.comp_apply]
    split
    · rename_i heq
      exact heq.symm
    · rfl
  refine ⟨hkeys.trans h.keys_eq, hkeys.symm ▸ h.nodup, fun entry hmem => ?_⟩
  obtain ⟨before, hbefore, rfl⟩ := List.mem_map.mp hmem
  split
  · exact if_pos rfl
  · rename_i hother
    rw [if_neg (Ne.symm hother)]
    exact h.values before hbefore

/-- A record takes the results along with the history. -/
theorem Mirrors.record :
    ((results.put key value).trim capacity).Mirrors capacity
      (if key ∈ inserted.rtake capacity then inserted else inserted ++ [key])
      (fun other => if key = other then some value else value? other) := by
  rw [← h.keys_eq]
  cases hlookup : results.lookup key with
  | none =>
    have hnew := lookup_eq_none_iff_notMem_keys.mp hlookup
    rw [put_of_lookup_none hlookup, if_neg hnew]
    exact h.append value hnew
  | some found =>
    have hkey : key ∈ results.keys := by
      by_contra hnew
      rw [lookup_eq_none_iff_notMem_keys.mpr hnew] at hlookup
      cases hlookup
    have hfits : results.length - capacity = 0 := Nat.sub_eq_zero_of_le h.length_le
    rw [put_of_lookup_some hlookup, trim, List.length_map, hfits, List.drop_zero, if_pos hkey]
    exact h.replace value

end Record

end ResultList

namespace InvocationCache

def follow (cache : InvocationCache) : CacheEvent → InvocationCache
  | .record session kind uid value => cache.record session kind uid value
  | .discard session => cache.discard session

/-- The cache that has taken a history of calls. -/
def run (capacity : Nat) (history : List CacheEvent) : InvocationCache :=
  history.foldl follow (new capacity)

theorem run_concat (capacity : Nat) (history : List CacheEvent) (event : CacheEvent) :
    run capacity (history ++ [event]) = (run capacity history).follow event := List.foldl_append

/-- Calls for one session leave the results of the others as they are. -/
theorem ofSession_follow_of_ne (cache : InvocationCache) {event : CacheEvent}
    {session : SessionId} (h : event.session ≠ session) :
    (cache.follow event).ofSession session = cache.ofSession session := by
  cases event with
  | record own kind uid value => exact (ofSession_record ..).trans (if_neg h)
  | discard own => exact (ofSession_discard ..).trans (if_neg h)

/-- A cache keeps its capacity, with zero counted as one. -/
theorem capacity_run (capacity : Nat) (history : List CacheEvent) :
    (run capacity history).capacity = max capacity 1 := by
  induction history using List.reverseRecOn with
  | nil => rfl
  | append_singleton history event ih =>
    rw [run_concat, ← ih]
    cases event <;> rfl

/-- After every history of calls the map and the queue of a session are about the same keys. -/
theorem matched_run (capacity : Nat) (history : List CacheEvent) :
    (run capacity history).Matched := by
  induction history using List.reverseRecOn with
  | nil => exact matched_new capacity
  | append_singleton history event ih =>
    rw [run_concat]
    cases event with
    | record session kind uid value => exact ih.record session kind uid value
    | discard session => exact ih.discard session

/-- The results kept of a session are those of its last inserted keys. -/
theorem mirrors_run (capacity : Nat) (history : List CacheEvent) (session : SessionId) :
    ((run capacity history).ofSession session).entries.Mirrors (max capacity 1)
      (insertedKeys (max capacity 1) session history) (lastValue? session history) := by
  induction history using List.reverseRecOn with
  | nil => exact .nothing _
  | append_singleton history event ih =>
    by_cases hown : event.session = session
    · subst hown
      rw [run_concat, insertedKeys_concat_self, lastValue?_concat_self]
      cases event with
      | record session kind uid value =>
        have hresults := ofSession_record (run capacity history) session kind uid value session
        rw [if_pos rfl, capacity_run] at hresults
        have hentries := (matched_run capacity history session).entries_record (max capacity 1)
          ⟨kind, uid⟩ value
        rw [← hresults] at hentries
        exact hentries ▸ ih.record value
      | discard session =>
        have hresults := ofSession_discard (run capacity history) session session
        rw [if_pos rfl] at hresults
        exact hresults ▸ .nothing _
    · rw [run_concat, ofSession_follow_of_ne _ hown, insertedKeys_concat_of_ne _ _ hown,
        lastValue?_concat_of_ne _ hown]
      exact ih

/-- For every history of calls, a cache answers with the value last recorded for a key exactly if
    the key is among the last ones inserted for the session; its queue lists these keys, oldest
    first, and its map has a result for each of them and for no other, at most one for each unit of
    capacity; and a call for one session changes no answer for another. -/
theorem keeps_last_inserted (capacity : Nat) (history : List CacheEvent) :
    let cache := run capacity history
    let recent := fun session => recentKeys (max capacity 1) session history
    (∀ session kind uid value, cache.lookup session kind uid = some value ↔
      ⟨kind, uid⟩ ∈ recent session ∧ lastValue? session history ⟨kind, uid⟩ = some value) ∧
    (∀ session, (recent session).Nodup ∧ cache.sessionSize session = (recent session).length ∧
      (recent session).length ≤ max capacity 1) ∧
    (∀ session, (cache.ofSession session).order = recent session ∧
      ∀ key, ((cache.ofSession session).results.get? key).isSome ↔ key ∈ recent session) ∧
    ∀ event session, event.session = session ∨
      (∀ kind uid, (cache.follow event).lookup session kind uid = cache.lookup session kind uid) ∧
        (cache.follow event).sessionSize session = cache.sessionSize session := by
  intro cache recent
  have hmirrors := mirrors_run capacity history
  have hmatched := matched_run capacity history
  have horder : ∀ session, (cache.ofSession session).order = recent session :=
    fun session => (hmatched session).keys_entries.symm.trans (hmirrors session).keys_eq
  refine ⟨fun session kind uid value => ?_, fun session => ?_,
    fun session => ⟨horder session, fun key => ?_⟩, fun event session => ?_⟩
  · rw [lookup, ← (hmatched session).mem_entries_iff, ← horder session,
      (hmatched session).mem_order_iff]
    constructor
    · intro hmem
      exact ⟨Option.isSome_of_eq_some ((hmatched session).mem_entries_iff.mp hmem),
        (hmirrors session).values _ hmem⟩
    · rintro ⟨hsome, hlast⟩
      obtain ⟨found, hfound⟩ := Option.isSome_iff_exists.mp hsome
      have hentry := (hmatched session).mem_entries_iff.mpr hfound
      have hvalue := (hmirrors session).values _ hentry
      rw [hlast] at hvalue
      exact Option.some.inj hvalue ▸ hentry
  · have hlength : cache.sessionSize session = (recent session).length := by
      rw [← horder session, ← (hmatched session).keys_entries, ResultList.keys, List.length_map,
        sessionSize, (hmatched session).size_results]
    refine ⟨horder session ▸ (hmatched session).nodup, hlength, ?_⟩
    rw [← hlength, sessionSize, (hmatched session).size_results]
    exact (hmirrors session).length_le
  · rw [← horder session, (hmatched session).mem_order_iff]
  · by_cases hown : event.session = session
    · exact .inl hown
    · have hsame := ofSession_follow_of_ne cache hown
      exact .inr ⟨fun kind uid => by rw [lookup, hsame, lookup],
        by rw [sessionSize, hsame, sessionSize]⟩

/-- With room for two results, a key that is recorded again keeps its place and is the first to
    leave; recorded once more, it comes last and pushes out the other one. -/
example :
    let put (uid : Nat) (value : Bool) : CacheEvent :=
      .record 1 "semaphore.acquire" (.ofNat uid) (.bool value)
    let history := [put 1 true, put 2 true, put 1 false, put 3 true]
    let cache := run 2 history
    cache.lookup 1 "semaphore.acquire" (.ofNat 1) = none ∧ cache.sessionSize 1 = 2 ∧
      (run 2 (history ++ [put 1 true])).lookup 1 "semaphore.acquire" (.ofNat 2) = none := by
  decide +kernel

end InvocationCache

end Quorum
