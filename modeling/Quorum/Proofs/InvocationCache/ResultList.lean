import Mathlib.Data.List.Nodup
import Quorum.InvocationCache

namespace Quorum

/-- A session's results in one list, the oldest first. -/
abbrev ResultList := List (CallKey × Value)

namespace ResultList

def lookup (results : ResultList) (key : CallKey) : Option Value :=
  (results.find? (fun entry => entry.1 = key)).map (·.2)

/-- Replaces a present result in its place; a new one goes to the end. -/
def put (results : ResultList) (key : CallKey) (value : Value) : ResultList :=
  if results.any (fun entry => entry.1 = key) then
    results.map fun entry => if entry.1 = key then (key, value) else entry
  else results ++ [(key, value)]

/-- Drops the oldest results beyond a number. -/
def trim (results : ResultList) (capacity : Nat) : ResultList :=
  results.drop (results.length - capacity)

def keys (results : ResultList) : List CallKey := results.map (·.1)

/-- A key without a result is that of no entry. -/
theorem lookup_eq_none_iff {results : ResultList} {key : CallKey} :
    results.lookup key = none ↔ ∀ entry ∈ results, entry.1 ≠ key := by
  rw [lookup, Option.map_eq_none_iff, List.find?_eq_none]
  simp only [decide_eq_true_eq, ne_eq]

theorem lookup_eq_none_iff_notMem_keys {results : ResultList} {key : CallKey} :
    results.lookup key = none ↔ key ∉ results.keys := by
  rw [lookup_eq_none_iff, keys, List.mem_map, not_exists]
  simp only [not_and]

/-- Under distinct keys, a look-up finds the results that are there. -/
theorem lookup_eq_some_iff {results : ResultList} (h : results.keys.Nodup) {key : CallKey}
    {value : Value} : results.lookup key = some value ↔ (key, value) ∈ results := by
  rw [lookup, Option.map_eq_some_iff]
  constructor
  · rintro ⟨entry, hfind, rfl⟩
    have hkey : entry.1 = key := by simpa using List.find?_some hfind
    exact hkey ▸ List.mem_of_find?_eq_some hfind
  · intro hmem
    cases hfind : results.find? fun entry => entry.1 = key with
    | none => simpa using List.find?_eq_none.mp hfind _ hmem
    | some entry =>
      have hkey : entry.1 = key := by simpa using List.find?_some hfind
      have heq := List.inj_on_of_nodup_map h (List.mem_of_find?_eq_some hfind) hmem hkey
      exact ⟨entry, rfl, congrArg Prod.snd heq⟩

/-- A new key comes last. -/
theorem put_of_lookup_none {results : ResultList} {key : CallKey}
    (h : results.lookup key = none) (value : Value) :
    results.put key value = results ++ [(key, value)] := by
  have hany : results.any (fun entry => entry.1 = key) = false := by
    simpa using lookup_eq_none_iff.mp h
  rw [put, hany, if_neg (by simp)]

/-- A known key keeps its place and takes the new result. -/
theorem put_of_lookup_some {results : ResultList} {key : CallKey} {found : Value}
    (h : results.lookup key = some found) (value : Value) :
    results.put key value =
      results.map fun entry => if entry.1 = key then (key, value) else entry := by
  have hany : results.any (fun entry => entry.1 = key) = true := by
    obtain ⟨entry, hentry, -⟩ := Option.map_eq_some_iff.mp h
    have hkey : entry.1 = key := by simpa using List.find?_some hentry
    exact List.any_eq_true.mpr
      ⟨entry, List.mem_of_find?_eq_some hentry, decide_eq_true hkey⟩
  rw [put, hany, if_pos rfl]

/-- The key is recorded with the value, and so many results are younger. -/
def Kept (results : ResultList) (key : CallKey) (value : Value) (younger : Nat) : Prop :=
  ∃ older newer : ResultList, results = older ++ (key, value) :: newer ∧
    newer.length = younger ∧ (∀ entry ∈ older, entry.1 ≠ key) ∧ ∀ entry ∈ newer, entry.1 ≠ key

/-- A result that is kept is found. -/
theorem Kept.lookup {results : ResultList} {key : CallKey} {value : Value} {younger : Nat}
    (h : results.Kept key value younger) : results.lookup key = some value := by
  obtain ⟨older, newer, rfl, -, holder, -⟩ := h
  have hnone : older.find? (fun entry => entry.1 = key) = none := by
    simpa using holder
  rw [ResultList.lookup, List.find?_append, hnone, Option.none_or,
    List.find?_cons_of_pos (by simp)]
  rfl

/-- A result for a new key is the youngest. -/
theorem kept_put_self {results : ResultList} {key : CallKey} (h : results.lookup key = none)
    (value : Value) : (results.put key value).Kept key value 0 := by
  rw [put_of_lookup_none h]
  exact ⟨results, [], rfl, rfl, lookup_eq_none_iff.mp h, by simp⟩

/-- How many results a record adds: one for a new key, none for a known one. -/
def added (results : ResultList) (key : CallKey) : Nat :=
  if (results.lookup key).isNone then 1 else 0

/-- A record of another call makes the result older by what it adds. -/
theorem Kept.put {results : ResultList} {key : CallKey} {value : Value} {younger : Nat}
    (h : results.Kept key value younger) {other : CallKey} (hother : other ≠ key)
    (result : Value) :
    (results.put other result).Kept key value (younger + results.added other) := by
  obtain ⟨older, newer, rfl, rfl, holder, hnewer⟩ := h
  cases hlookup : ResultList.lookup (older ++ (key, value) :: newer) other with
  | none =>
    have hadded : added (older ++ (key, value) :: newer) other = 1 := by
      rw [added, hlookup]
      rfl
    rw [put_of_lookup_none hlookup, hadded]
    refine ⟨older, newer ++ [(other, result)], by simp, by simp, holder, fun entry hmem => ?_⟩
    rcases List.mem_append.mp hmem with hmem | hmem
    · exact hnewer entry hmem
    · rw [List.mem_singleton.mp hmem]
      exact hother
  | some found =>
    have hadded : added (older ++ (key, value) :: newer) other = 0 := by
      rw [added, hlookup]
      rfl
    have hkeys : ∀ entries : ResultList, (∀ entry ∈ entries, entry.1 ≠ key) →
        ∀ entry ∈ entries.map (fun entry => if entry.1 = other then (other, result) else entry),
          entry.1 ≠ key := by
      intro entries hentries entry hmem
      obtain ⟨before, hbefore, rfl⟩ := List.mem_map.mp hmem
      split
      · exact hother
      · exact hentries before hbefore
    rw [put_of_lookup_some hlookup, hadded, List.map_append, List.map_cons,
      if_neg (Ne.symm hother)]
    exact ⟨_, _, rfl, by simp, hkeys older holder, hkeys newer hnewer⟩

/-- Trimming keeps a result with fewer younger ones than the capacity. -/
theorem Kept.trim {results : ResultList} {key : CallKey} {value : Value} {younger : Nat}
    (h : results.Kept key value younger) {capacity : Nat} (hfew : younger < capacity) :
    (results.trim capacity).Kept key value younger := by
  obtain ⟨older, newer, rfl, rfl, holder, hnewer⟩ := h
  rw [ResultList.trim, List.drop_append_of_le_length (by simp; omega)]
  exact ⟨_, newer, rfl, rfl, fun entry hmem => holder entry (List.mem_of_mem_drop hmem), hnewer⟩

/-- Trimming evicts a result with as many younger ones as the capacity. -/
theorem Kept.evicted {results : ResultList} {key : CallKey} {value : Value} {younger : Nat}
    (h : results.Kept key value younger) {capacity : Nat} (hmany : capacity ≤ younger) :
    (results.trim capacity).lookup key = none := by
  obtain ⟨older, newer, rfl, rfl, -, hnewer⟩ := h
  refine lookup_eq_none_iff.mpr fun entry hmem => hnewer entry ?_
  have hsplit : older ++ (key, value) :: newer = (older ++ [(key, value)]) ++ newer := by simp
  have hlength : (older ++ [(key, value)]).length ≤
      (older ++ (key, value) :: newer).length - capacity := by
    simp
    omega
  rw [ResultList.trim, hsplit, List.drop_append, List.drop_eq_nil_of_le (hsplit ▸ hlength),
    List.nil_append] at hmem
  exact List.mem_of_mem_drop hmem

end ResultList

end Quorum
