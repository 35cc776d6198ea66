import Quorum.Proofs.InvocationCache.ResultList
import Quorum.Proofs.SortedMap

namespace Quorum.SessionResults

/-- The map and the queue of a session are about the same calls, and the queue has each of them
    once. -/
structure Matched (session : SessionResults) : Prop where
  nodup : session.order.Nodup
  mem_order_iff : ∀ key, key ∈ session.order ↔ (session.results.get? key).isSome

/-- A session's results in the order of its queue. -/
def entries (session : SessionResults) : ResultList :=
  session.order.filterMap fun key => (session.results.get? key).map (key, ·)

theorem matched_empty : Matched ∅ where
  nodup := List.nodup_nil
  mem_order_iff key := by
    show key ∈ [] ↔ ((∅ : SortedMap CallKey Value).get? key).isSome
    simp

section Matched

variable {session : SessionResults} (h : session.Matched)

include h

theorem Matched.notMem_order {key : CallKey} (hnone : session.results.get? key = none) :
    key ∉ session.order := by
  rw [h.mem_order_iff, hnone]
  simp

/-- The queue lists the keys of the results. -/
theorem Matched.keys_entries : session.entries.keys = session.order := by
  have hkeys : session.entries.keys = session.order.filterMap fun key =>
      (session.results.get? key).map fun _ => key := by
    simp [ResultList.keys, entries, List.map_filterMap, Function.comp_def]
  rw [hkeys]
  conv_rhs => rw [← List.filterMap_some (l := session.order)]
  refine List.filterMap_congr fun key hmem => ?_
  obtain ⟨value, hvalue⟩ := Option.isSome_iff_exists.mp ((h.mem_order_iff key).mp hmem)
  rw [hvalue]
  rfl

/-- The list has exactly the results that the map finds. -/
theorem Matched.mem_entries_iff {key : CallKey} {value : Value} :
    (key, value) ∈ session.entries ↔ session.lookup key = some value := by
  constructor
  · intro hmem
    obtain ⟨other, -, hentry⟩ := List.mem_filterMap.mp hmem
    obtain ⟨found, hfound, heq⟩ := Option.map_eq_some_iff.mp hentry
    obtain ⟨rfl, rfl⟩ := Prod.mk.inj heq
    exact hfound
  · intro hfound
    have horder : key ∈ session.order := (h.mem_order_iff key).mpr (Option.isSome_of_eq_some hfound)
    exact List.mem_filterMap.mpr ⟨key, horder, Option.map_eq_some_iff.mpr ⟨value, hfound, rfl⟩⟩

/-- A look-up in the map finds what stands in the list. -/
theorem Matched.lookup_entries (key : CallKey) :
    session.entries.lookup key = session.lookup key := by
  ext value
  rw [ResultList.lookup_eq_some_iff (h.keys_entries ▸ h.nodup), h.mem_entries_iff]

/-- The map holds as many results as the list. -/
theorem Matched.size_results : session.results.size = session.entries.length := by
  -- Map and queue list the same keys, each once, so one is as long as the other.
  have hperm : session.results.keys.Perm session.order := by
    refine (List.perm_ext_iff_of_nodup session.results.nodup_keys h.nodup).mpr fun key => ?_
    rw [h.mem_order_iff, Option.isSome_iff_exists, SortedMap.keys, List.mem_map]
    constructor
    · rintro ⟨entry, hmem, rfl⟩
      exact ⟨entry.2, SortedMap.get?_of_mem hmem⟩
    · rintro ⟨value, hvalue⟩
      exact ⟨(key, value), SortedMap.mem_of_get? hvalue, rfl⟩
  have hlength := hperm.length_eq
  rw [← h.keys_entries, ResultList.keys, List.length_map, SortedMap.keys, List.length_map]
    at hlength
  exact hlength

/-- Keeping a result keeps the map and the queue together. -/
theorem Matched.put (key : CallKey) (value : Value) : (session.put key value).Matched := by
  have hlookup : ∀ other, ((session.put key value).results.get? other).isSome ↔
      key = other ∨ (session.results.get? other).isSome := by
    intro other
    rw [SessionResults.put, SortedMap.get?_insert]
    by_cases hother : key = other <;> simp [hother]
  cases hkey : session.results.get? key with
  | none =>
    have horder : (session.put key value).order = session.order ++ [key] := by
      simp [SessionResults.put, hkey]
    refine ⟨?_, fun other => ?_⟩
    · rw [horder]
      exact List.concat_eq_append ▸ h.nodup.concat (h.notMem_order hkey)
    · rw [horder, hlookup, List.mem_append, List.mem_singleton, h.mem_order_iff, or_comm, eq_comm]
  | some found =>
    have horder : (session.put key value).order = session.order := by
      simp [SessionResults.put, hkey]
    refine ⟨horder.symm ▸ h.nodup, fun other => ?_⟩
    rw [horder, hlookup, h.mem_order_iff]
    refine ⟨.inr, ?_⟩
    rintro (rfl | hsome)
    · rw [hkey]
      rfl
    · exact hsome

/-- A result that is kept in the map and the queue is put in the list. -/
theorem Matched.entries_put (key : CallKey) (value : Value) :
    (session.put key value).entries = session.entries.put key value := by
  cases hkey : session.results.get? key with
  | none =>
    have hentries : session.entries.lookup key = none := (h.lookup_entries key).trans hkey
    have hold : ∀ other ∈ session.order,
        ((session.results.insert key value).get? other).map (other, ·) =
          (session.results.get? other).map (other, ·) := by
      intro other hmem
      have hne : key ≠ other := fun heq => h.notMem_order hkey (heq ▸ hmem)
      rw [SortedMap.get?_insert, if_neg hne]
    rw [ResultList.put_of_lookup_none hentries]
    simp only [entries, SessionResults.put, hkey, List.filterMap_append]
    rw [List.filterMap_congr hold]
    simp
  | some found =>
    have hentries : session.entries.lookup key = some found := (h.lookup_entries key).trans hkey
    rw [ResultList.put_of_lookup_some hentries]
    simp only [entries, SessionResults.put, hkey, List.map_filterMap]
    refine List.filterMap_congr fun other _ => ?_
    rw [SortedMap.get?_insert]
    by_cases hother : key = other
    · subst hother
      simp [hkey]
    · rw [if_neg hother, Option.map_map]
      refine congrArg (Option.map · (session.results.get? other)) (funext fun result => ?_)
      exact (if_neg (Ne.symm hother)).symm

end Matched

section Evict

variable {results : SortedMap CallKey Value} {oldest : CallKey} {order : List CallKey}

/-- The oldest call leaves the map and the queue together. -/
theorem Matched.tail (h : Matched ⟨results, oldest :: order⟩) :
    Matched ⟨results.erase oldest, order⟩ := by
  obtain ⟨hnotMem, hnodup⟩ := List.nodup_cons.mp h.nodup
  refine ⟨hnodup, fun key => ?_⟩
  have hkey := h.mem_order_iff key
  rw [List.mem_cons] at hkey
  show key ∈ order ↔ ((results.erase oldest).get? key).isSome
  rw [SortedMap.get?_erase]
  by_cases hoften : oldest = key
  · subst hoften
    simpa using hnotMem
  · rw [if_neg hoften, ← hkey, or_iff_right (Ne.symm hoften)]

/-- The head of the queue is the head of the list, and erasing it leaves the rest. -/
theorem entries_cons (h : Matched ⟨results, oldest :: order⟩) :
    ∃ value, entries ⟨results, oldest :: order⟩ =
      (oldest, value) :: entries ⟨results.erase oldest, order⟩ := by
  obtain ⟨value, hvalue⟩ :=
    Option.isSome_iff_exists.mp ((h.mem_order_iff oldest).mp List.mem_cons_self)
  refine ⟨value, ?_⟩
  have hhead : (results.get? oldest).map (oldest, ·) = some (oldest, value) := by
    rw [show results.get? oldest = some value from hvalue]
    rfl
  simp only [entries]
  rw [List.filterMap_cons, hhead]
  refine congrArg _ (List.filterMap_congr fun key hmem => ?_)
  have hne : oldest ≠ key := fun heq => (List.nodup_cons.mp h.nodup).1 (heq ▸ hmem)
  rw [SortedMap.get?_erase, if_neg hne]

/-- The loop that evicts keeps the map and the queue together. -/
theorem Matched.evict (capacity : Nat) (h : Matched ⟨results, order⟩) :
    (evict capacity results order).Matched := by
  induction order generalizing results with
  | nil => exact h
  | cons oldest order ih =>
    unfold SessionResults.evict
    split
    · exact ih h.tail
    · exact h

/-- The loop leaves as many of the youngest results as the capacity. -/
theorem entries_evict (capacity : Nat) (h : Matched ⟨results, order⟩) :
    (evict capacity results order).entries = (entries ⟨results, order⟩).trim capacity := by
  -- The list is as long as the queue, so dropping its surplus is popping the queue as often.
  have hlength : (entries ⟨results, order⟩).length = order.length := by
    have hkeys := congrArg List.length h.keys_entries
    rwa [ResultList.keys, List.length_map] at hkeys
  induction order generalizing results with
  | nil => simp [evict, entries, ResultList.trim]
  | cons oldest order ih =>
    obtain ⟨value, hcons⟩ := entries_cons h
    rw [ResultList.trim, hlength]
    unfold evict
    split
    · rename_i hmany
      have htail : (entries ⟨results.erase oldest, order⟩).length = order.length := by
        rw [hcons, List.length_cons, List.length_cons] at hlength
        exact Nat.succ.inj hlength
      have hdrop : (oldest :: order).length - capacity = order.length - capacity + 1 := by
        rw [List.length_cons] at hmany ⊢
        omega
      rw [ih h.tail htail, ResultList.trim, htail, hcons, hdrop, List.drop_succ_cons]
    · rename_i hfew
      rw [Nat.sub_eq_zero_of_le (Nat.not_lt.mp hfew), List.drop_zero]

/-- Eviction brings no result. -/
theorem get?_evict_of_none {key : CallKey} (capacity : Nat) (h : results.get? key = none) :
    (evict capacity results order).results.get? key = none := by
  induction order generalizing results with
  | nil => exact h
  | cons oldest order ih =>
    unfold evict
    split
    · refine ih ?_
      rw [SortedMap.get?_erase, h, ite_self]
    · exact h

end Evict

section Trim

variable {session : SessionResults} (capacity : Nat)

/-- Evicting keeps the map and the queue together. -/
theorem Matched.trim (h : session.Matched) : (session.trim capacity).Matched := h.evict capacity

/-- Evicting from the map and the queue trims the list. -/
theorem Matched.entries_trim (h : session.Matched) :
    (session.trim capacity).entries = session.entries.trim capacity :=
  entries_evict capacity h

/-- Recording a result acts on the list as on the map and the queue. -/
theorem Matched.entries_record (h : session.Matched) (key : CallKey) (value : Value) :
    ((session.put key value).trim capacity).entries =
      (session.entries.put key value).trim capacity := by
  rw [(h.put key value).entries_trim, h.entries_put]

end Trim

/-- The key is recorded with the value, and so many results are younger. -/
structure Kept (session : SessionResults) (key : CallKey) (value : Value) (younger : Nat) :
    Prop where
  matched : session.Matched
  listed : session.entries.Kept key value younger

/-- A result that is kept is found. -/
theorem Kept.lookup {session : SessionResults} {key : CallKey} {value : Value} {younger : Nat}
    (h : session.Kept key value younger) : session.lookup key = some value :=
  (h.matched.lookup_entries key).symm.trans h.listed.lookup

/-- A result for a new key is the youngest. -/
theorem kept_record_self {session : SessionResults} (hmatched : session.Matched) {key : CallKey}
    (h : session.lookup key = none) (value : Value) {capacity : Nat} (hcapacity : 0 < capacity) :
    ((session.put key value).trim capacity).Kept key value 0 := by
  refine ⟨(hmatched.put key value).trim capacity, ?_⟩
  rw [hmatched.entries_record]
  exact (ResultList.kept_put_self ((hmatched.lookup_entries key).trans h) value).trim hcapacity

/-- How many results a record adds: one for a new key, none for a known one. -/
def added (session : SessionResults) (key : CallKey) : Nat :=
  if (session.lookup key).isNone then 1 else 0

theorem Matched.added_entries {session : SessionResults} (h : session.Matched) (key : CallKey) :
    session.entries.added key = session.added key := by
  rw [ResultList.added, h.lookup_entries, added]

section Record

variable {session : SessionResults} {key : CallKey} {value : Value} {younger : Nat}
  (h : session.Kept key value younger) {other : CallKey} (hother : other ≠ key) (result : Value)
  {capacity : Nat}

include h hother

/-- A record of another call makes the result older by what it adds, as long as there is room. -/
theorem kept_record_of_lt (hfew : younger + session.added other < capacity) :
    ((session.put other result).trim capacity).Kept key value (younger + session.added other) := by
  refine ⟨(h.matched.put other result).trim capacity, ?_⟩
  rw [← h.matched.added_entries other] at hfew ⊢
  rw [h.matched.entries_record]
  exact (h.listed.put hother result).trim hfew

/-- A record that fills the last room evicts the result. -/
theorem lookup_record_of_le (hmany : capacity ≤ younger + session.added other) :
    ((session.put other result).trim capacity).lookup key = none := by
  rw [← h.matched.added_entries other] at hmany
  rw [← ((h.matched.put other result).trim capacity).lookup_entries, h.matched.entries_record]
  exact (h.listed.put hother result).evicted hmany

end Record

/-- A record of another call brings no result of the key. -/
theorem lookup_record_of_none {session : SessionResults} {key : CallKey}
    (h : session.lookup key = none) {other : CallKey} (hother : other ≠ key) (result : Value)
    (capacity : Nat) : ((session.put other result).trim capacity).lookup key = none := by
  refine get?_evict_of_none capacity ?_
  rw [put, SortedMap.get?_insert, if_neg hother]
  exact h

end Quorum.SessionResults

namespace Quorum.InvocationCache

/-- The map and the queue of every session are about the same calls. -/
def Matched (cache : InvocationCache) : Prop := ∀ session, (cache.ofSession session).Matched

/-- A record puts the result among those of its session and evicts the oldest beyond the
    capacity. -/
theorem ofSession_record (cache : InvocationCache) (own : SessionId) (kind : String)
    (uid : InvocationUid) (value : Value) (session : SessionId) :
    (cache.record own kind uid value).ofSession session =
      if own = session then
        ((cache.ofSession own).put ⟨kind, uid⟩ value).trim cache.capacity
      else cache.ofSession session :=
  SortedMap.getD_insert ..

/-- A discarded session has no results. -/
theorem ofSession_discard (cache : InvocationCache) (own session : SessionId) :
    (cache.discard own).ofSession session = if own = session then ∅ else cache.ofSession session :=
  SortedMap.getD_erase ..

/-- A new cache keeps nothing, which matches. -/
theorem matched_new (capacity : Nat) : (new capacity).Matched :=
  fun _ => SessionResults.matched_empty

/-- A record keeps the map and the queue of every session together. -/
theorem Matched.record {cache : InvocationCache} (h : cache.Matched) (session : SessionId)
    (kind : String) (uid : InvocationUid) (value : Value) :
    (cache.record session kind uid value).Matched := by
  intro other
  rw [ofSession_record]
  split
  · exact ((h session).put ⟨kind, uid⟩ value).trim cache.capacity
  · exact h other

/-- A discarded session takes its map and its queue along. -/
theorem Matched.discard {cache : InvocationCache} (h : cache.Matched) (session : SessionId) :
    (cache.discard session).Matched := by
  intro other
  rw [ofSession_discard]
  split
  · exact SessionResults.matched_empty
  · exact h other

end Quorum.InvocationCache
