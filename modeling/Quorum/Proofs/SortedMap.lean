import Mathlib.Data.List.Nodup
import Quorum.SortedMap

namespace Quorum.SortedMap

section Weights

variable {κ ν : Type}

/-- The weights of a list of entries, summed. A map's total is that of its entries. -/
def weigh (weight : κ → ν → Nat) (entries : List (κ × ν)) : Nat :=
  entries.foldr (fun e sum => weight e.1 e.2 + sum) 0

@[simp] theorem weigh_nil (weight : κ → ν → Nat) : weigh weight [] = 0 := rfl

@[simp] theorem weigh_cons (weight : κ → ν → Nat) (e : κ × ν) (rest : List (κ × ν)) :
    weigh weight (e :: rest) = weight e.1 e.2 + weigh weight rest := rfl

/-- Entries that weigh the same one by one weigh the same together. -/
theorem weigh_congr {f g : κ → ν → Nat} {entries : List (κ × ν)}
    (h : ∀ e ∈ entries, f e.1 e.2 = g e.1 e.2) : weigh f entries = weigh g entries := by
  induction entries with
  | nil => rfl
  | cons e rest ih =>
    have hrest : weigh f rest = weigh g rest := ih fun e' he' => h e' (List.mem_cons_of_mem _ he')
    simp only [weigh_cons, h e List.mem_cons_self, hrest]

/-- Entries weigh nothing together exactly if each weighs nothing. -/
theorem weigh_eq_zero_iff (weight : κ → ν → Nat) (entries : List (κ × ν)) :
    weigh weight entries = 0 ↔ ∀ e ∈ entries, weight e.1 e.2 = 0 := by
  induction entries with
  | nil => simp
  | cons e rest ih => simp [ih]

variable [Key κ]

theorem total_eq_weigh (map : SortedMap κ ν) (weight : κ → ν → Nat) :
    map.total weight = weigh weight map.entries := rfl

@[simp] theorem total_empty (weight : κ → ν → Nat) : (∅ : SortedMap κ ν).total weight = 0 := rfl

/-- The size of a map is its total with each entry weighing one. -/
theorem size_eq_total (map : SortedMap κ ν) : map.size = map.total fun _ _ => 1 := by
  rw [size, total_eq_weigh]
  induction map.entries with
  | nil => rfl
  | cons e rest ih => rw [List.length_cons, weigh_cons, ih, Nat.add_comm]

/-- Totals of two weights add up. -/
theorem total_add (map : SortedMap κ ν) (f g : κ → ν → Nat) :
    map.total (fun key value => f key value + g key value) = map.total f + map.total g := by
  simp only [total_eq_weigh]
  induction map.entries with
  | nil => rfl
  | cons e rest ih =>
    simp only [weigh_cons, ih]
    omega

/-- What a filter drops is missing from the total. -/
theorem total_filter_add (map : SortedMap κ ν) (keep : κ → ν → Bool) (weight : κ → ν → Nat) :
    (map.filter keep).total weight +
        map.total (fun key value => if keep key value then 0 else weight key value) =
      map.total weight := by
  simp only [total_eq_weigh, filter]
  induction map.entries with
  | nil => rfl
  | cons e rest ih =>
    rw [List.filter_cons]
    cases hkeep : keep e.1 e.2 with
    | true =>
      simp only [if_true, weigh_cons, hkeep]
      omega
    | false =>
      simp only [Bool.false_eq_true, if_false, weigh_cons, hkeep]
      omega

/-- The total of a changed map weighs the changed values. -/
theorem total_mapValues {μ : Type} (map : SortedMap κ ν) (f : κ → ν → μ) (weight : κ → μ → Nat) :
    (map.mapValues f).total weight = map.total fun key value => weight key (f key value) := by
  simp only [total_eq_weigh, mapValues]
  induction map.entries with
  | nil => rfl
  | cons e rest ih => simp only [List.map_cons, weigh_cons, ih]

/-- How often something occurs in what the entries give, summed over the entries. -/
theorem count_flatMap_entries {α : Type} [DecidableEq α] (map : SortedMap κ ν)
    (f : κ × ν → List α) (a : α) :
    (map.entries.flatMap f).count a = map.total fun key value => (f (key, value)).count a := by
  simp only [total_eq_weigh]
  induction map.entries with
  | nil => rfl
  | cons e rest ih => simp only [List.flatMap_cons, List.count_append, weigh_cons, ih]

end Weights

variable {κ ν : Type} [Key κ] [DecidableEq κ]

omit [DecidableEq κ] in
/-- No key occurs twice. -/
theorem nodup_keys (map : SortedMap κ ν) : map.keys.Nodup :=
  List.pairwise_map.mpr (map.ascending.imp Key.ne_of_before)

omit [DecidableEq κ] in
theorem nodup_entries (map : SortedMap κ ν) : map.entries.Nodup := .of_map _ map.nodup_keys

/-- The values of a map are those that its look-ups find. -/
theorem mem_values {map : SortedMap κ ν} {value : ν} :
    value ∈ map.values ↔ ∃ key, map.get? key = some value := by
  simp only [values, List.mem_map, get?_eq_some_iff, Prod.exists, exists_eq_right]

/-- The values of a kind that only one entry has. -/
theorem filter_values_eq_singleton {map : SortedMap κ ν} {keep : ν → Bool} {key : κ} {value : ν}
    (h : ∀ other found, map.get? other = some found ∧ keep found = true ↔
      other = key ∧ found = value) :
    map.values.filter keep = [value] := by
  have hnodup : (map.entries.filter fun entry => keep entry.2).Nodup :=
    map.nodup_entries.filter _
  have hentries : map.entries.filter (fun entry => keep entry.2) = [(key, value)] := by
    refine List.perm_singleton.mp ((List.perm_ext_iff_of_nodup hnodup (List.nodup_singleton _)).mpr
      fun entry => ?_)
    rw [List.mem_filter, ← get?_eq_some_iff, h, List.mem_singleton, Prod.mk.injEq]
  rw [values, List.filter_map]
  exact congrArg (List.map Prod.snd) hentries

/-- What holds of all values and of a new one holds after an insertion. -/
theorem forall_insert {map : SortedMap κ ν} {P : ν → Prop}
    (h : ∀ key value, map.get? key = some value → P value) {key : κ} {value : ν} (hnew : P value) :
    ∀ other found, (map.insert key value).get? other = some found → P found := by
  intro other found hget
  rw [get?_insert] at hget
  split at hget
  · rw [← Option.some.inj hget]
    exact hnew
  · exact h other found hget

/-- What holds of all values holds of those that a filter keeps. -/
theorem forall_filter {map : SortedMap κ ν} {P : ν → Prop}
    (h : ∀ key value, map.get? key = some value → P value) (keep : κ → ν → Bool) :
    ∀ key value, (map.filter keep).get? key = some value → P value := by
  intro key value hget
  rw [get?_filter] at hget
  exact h key value (Option.eq_some_of_filter_eq_some hget)

/-- What holds of all values holds after a removal. -/
theorem forall_erase {map : SortedMap κ ν} {P : ν → Prop}
    (h : ∀ key value, map.get? key = some value → P value) (key : κ) :
    ∀ other value, (map.erase key).get? other = some value → P value := by
  intro other value hget
  rw [get?_erase] at hget
  split at hget
  · cases hget
  · exact h other value hget

omit [DecidableEq κ] in
/-- Of entries in the order of their keys, those before a key are the first ones. -/
theorem cut_eq_filter (key : κ) {entries : List (κ × ν)}
    (h : entries.Pairwise fun a b => Key.before a.1 b.1 = true) :
    entries.takeWhile (fun entry => Key.before entry.1 key) =
        entries.filter (fun entry => Key.before entry.1 key) ∧
      entries.dropWhile (fun entry => Key.before entry.1 key) =
        entries.filter (fun entry => !Key.before entry.1 key) := by
  induction entries with
  | nil => exact ⟨rfl, rfl⟩
  | cons head rest ih =>
    obtain ⟨hhead, hrest⟩ := List.pairwise_cons.mp h
    obtain ⟨htake, hdrop⟩ := ih hrest
    cases hkey : Key.before head.1 key with
    | true => simp [hkey, htake, hdrop]
    | false =>
      have hlater : ∀ entry ∈ rest, Key.before entry.1 key = false := by
        intro entry hmem
        by_contra hbefore
        have htrans := Key.trans _ _ _ (hhead entry hmem) (Bool.of_not_eq_false hbefore)
        rw [hkey] at htrans
        cases htrans
      have hnone : rest.filter (fun entry => Key.before entry.1 key) = [] :=
        List.filter_eq_nil_iff.mpr fun entry hmem => by simp [hlater entry hmem]
      have hall : rest.filter (fun entry => !Key.before entry.1 key) = rest :=
        List.filter_eq_self.mpr fun entry hmem => by simp [hlater entry hmem]
      simp [hkey, hnone, hall]

omit [DecidableEq κ] in
/-- A map that is cut at a key falls into the entries before the key and the others. -/
theorem splitOff_eq (map : SortedMap κ ν) (key : κ) :
    map.splitOff key = (map.filter fun other _ => Key.before other key,
      map.filter fun other _ => !Key.before other key) := by
  obtain ⟨htake, hdrop⟩ := cut_eq_filter key map.ascending
  exact Prod.ext (SortedMap.ext htake) (SortedMap.ext hdrop)

/-- A look-up with a fallback after an insertion finds the new value under its key. -/
theorem getD_insert (map : SortedMap κ ν) (key other : κ) (value fallback : ν) :
    (map.insert key value).getD other fallback =
      if key = other then value else map.getD other fallback := by
  rw [getD, get?_insert]
  split <;> rfl

/-- A look-up with a fallback after a removal falls back under the key. -/
theorem getD_erase (map : SortedMap κ ν) (key other : κ) (fallback : ν) :
    (map.erase key).getD other fallback =
      if key = other then fallback else map.getD other fallback := by
  rw [getD, get?_erase]
  split <;> rfl

/-- After an insertion there is an entry for its key and for those before. -/
theorem contains_insert (map : SortedMap κ ν) (key other : κ) (value : ν) :
    (map.insert key value).contains other = (map.contains other || key = other) := by
  rw [contains, get?_insert, contains]
  by_cases heq : key = other <;> simp [heq]

/-- After a removal there is no entry for its key, and the others stay. -/
theorem contains_erase (map : SortedMap κ ν) (key other : κ) :
    (map.erase key).contains other = (map.contains other && key ≠ other) := by
  rw [contains, get?_erase, contains]
  by_cases heq : key = other <;> simp [heq]

/-- A filter that keeps a key keeps what is found there. -/
theorem getD_filter_of_keep {map : SortedMap κ ν} {keep : κ → ν → Bool} {key : κ}
    (h : ∀ value, keep key value = true) (fallback : ν) :
    (map.filter keep).getD key fallback = map.getD key fallback := by
  rw [getD, getD, get?_filter]
  cases map.get? key with
  | none => rfl
  | some value => rw [Option.filter_some, if_pos (h value)]

/-- A filter that drops a key leaves the fallback. -/
theorem getD_filter_of_drop {map : SortedMap κ ν} {keep : κ → ν → Bool} {key : κ}
    (h : ∀ value, keep key value = false) (fallback : ν) :
    (map.filter keep).getD key fallback = fallback := by
  rw [getD, get?_filter]
  cases map.get? key with
  | none => rfl
  | some value =>
    rw [Option.filter_some, if_neg (by simp [h value])]
    rfl

/-- A key before the first of ascending entries has no entry. -/
theorem find?_eq_none_of_before {key : κ} {head : κ × ν} {rest : List (κ × ν)}
    (hbefore : Key.before key head.1 = true)
    (h : (head :: rest).Pairwise (fun a b => Key.before a.1 b.1 = true)) :
    (head :: rest).find? (fun e => e.1 = key) = none := by
  refine List.find?_eq_none.mpr fun e he => ?_
  have hlater : Key.before key e.1 = true := by
    rcases List.mem_cons.mp he with rfl | he
    · exact hbefore
    · exact Key.trans _ _ _ hbefore ((List.pairwise_cons.mp h).1 e he)
  simpa using (Key.ne_of_before hlater).symm

/-- An insertion adds the weight of the new entry and takes away that of the one it replaces. -/
theorem weigh_insertEntry (weight : κ → ν → Nat) (key : κ) (value : ν) {entries : List (κ × ν)}
    (h : entries.Pairwise (fun a b => Key.before a.1 b.1 = true)) :
    weigh weight (insertEntry key value entries) +
        ((entries.find? (fun e => e.1 = key)).map (·.2)).elim 0 (weight key) =
      weigh weight entries + weight key value := by
  induction entries with
  | nil => simp [insertEntry]
  | cons head rest ih =>
    have hrest := (List.pairwise_cons.mp h).2
    unfold insertEntry
    split
    · rename_i hbefore
      rw [find?_eq_none_of_before hbefore h]
      simp only [weigh_cons, Option.map_none, Option.elim_none]
      omega
    · split
      · rename_i hafter
        have hne : head.1 ≠ key := Key.ne_of_before hafter
        have hrec := ih hrest
        simp only [weigh_cons, List.find?_cons, hne, decide_false]
        omega
      · rename_i hnot hnot'
        have hkey : key = head.1 := Key.connected _ _ (by simpa using hnot) (by simpa using hnot')
        simp only [weigh_cons, List.find?_cons, hkey, decide_true, Option.map_some,
          Option.elim_some]
        omega

/-- Inserting adds the new weight in the stead of the old one. -/
theorem total_insert (map : SortedMap κ ν) (weight : κ → ν → Nat) (key : κ) (value : ν) :
    (map.insert key value).total weight + (map.get? key).elim 0 (weight key) =
      map.total weight + weight key value :=
  weigh_insertEntry weight key value map.ascending

/-- An insertion under a present key keeps the size. -/
theorem size_insert_of_some {map : SortedMap κ ν} {key : κ} {old : ν}
    (h : map.get? key = some old) (value : ν) : (map.insert key value).size = map.size := by
  have hinsert := map.total_insert (fun _ _ => 1) key value
  rw [h, Option.elim_some] at hinsert
  rw [size_eq_total, size_eq_total]
  omega

/-- An insertion under a new key adds one. -/
theorem size_insert_of_none {map : SortedMap κ ν} {key : κ} (h : map.get? key = none) (value : ν) :
    (map.insert key value).size = map.size + 1 := by
  have hinsert := map.total_insert (fun _ _ => 1) key value
  rw [h, Option.elim_none] at hinsert
  rw [size_eq_total, size_eq_total]
  omega

/-- A weight that counts one key only is the weight of its entry. -/
theorem weigh_single (weight : κ → ν → Nat) (key : κ) {entries : List (κ × ν)}
    (h : entries.Pairwise (fun a b => Key.before a.1 b.1 = true)) :
    weigh (fun k value => if k = key then weight k value else 0) entries =
      ((entries.find? (fun e => e.1 = key)).map (·.2)).elim 0 (weight key) := by
  induction entries with
  | nil => rfl
  | cons head rest ih =>
    obtain ⟨hhead, hrest⟩ := List.pairwise_cons.mp h
    by_cases hkey : head.1 = key
    · have hnone : rest.find? (fun e => e.1 = key) = none := by
        refine List.find?_eq_none.mpr fun e he => ?_
        simpa [← hkey] using (Key.ne_of_before (hhead e he)).symm
      have hzero := ih hrest
      rw [hnone] at hzero
      simp only [weigh_cons, List.find?_cons, hkey, if_true, decide_true, Option.map_some,
        Option.elim_some, hzero, Option.map_none, Option.elim_none, Nat.add_zero]
    · simp only [weigh_cons, List.find?_cons, hkey, if_false, decide_false, ih hrest, Nat.zero_add]

/-- The entries of one key weigh what its look-up says. -/
theorem total_single (map : SortedMap κ ν) (weight : κ → ν → Nat) (key : κ) :
    map.total (fun k value => if k = key then weight k value else 0) =
      (map.get? key).elim 0 (weight key) :=
  weigh_single weight key map.ascending

/-- A removal takes away the weight of the entry. -/
theorem total_erase (map : SortedMap κ ν) (weight : κ → ν → Nat) (key : κ) :
    (map.erase key).total weight + (map.get? key).elim 0 (weight key) = map.total weight := by
  have h := total_filter_add map (fun k _ => decide (k ≠ key)) weight
  simpa only [erase, ← total_single, ne_eq, decide_not, Bool.not_eq_true', decide_eq_false_iff_not,
    ite_not] using h

/-- Weights that agree on all entries have the same total. -/
theorem total_congr (map : SortedMap κ ν) {f g : κ → ν → Nat}
    (h : ∀ key value, map.get? key = some value → f key value = g key value) :
    map.total f = map.total g :=
  weigh_congr fun e he => h e.1 e.2 (get?_of_mem he)

/-- A map weighs nothing exactly if none of its entries does. -/
theorem total_eq_zero_iff (map : SortedMap κ ν) (weight : κ → ν → Nat) :
    map.total weight = 0 ↔ ∀ key value, map.get? key = some value → weight key value = 0 := by
  rw [total_eq_weigh, weigh_eq_zero_iff]
  constructor
  · intro h key value hget
    exact h (key, value) (mem_of_get? hget)
  · intro h e he
    exact h e.1 e.2 (get?_of_mem he)

/-- After an insertion the entries are the new one and those of the other keys. -/
theorem perm_entries_insert (map : SortedMap κ ν) (key : κ) (value : ν) :
    (map.insert key value).entries.Perm ((key, value) :: (map.erase key).entries) := by
  have herased : ((key, value) :: (map.erase key).entries).Nodup := by
    refine List.nodup_cons.mpr ⟨fun hmem => ?_, nodup_entries _⟩
    have hget := get?_of_mem hmem
    rw [get?_erase, if_pos rfl] at hget
    cases hget
  refine (List.perm_ext_iff_of_nodup (nodup_entries _) herased).mpr fun entry => ?_
  obtain ⟨other, found⟩ := entry
  rw [← get?_eq_some_iff, List.mem_cons, ← get?_eq_some_iff, get?_insert, get?_erase,
    Prod.mk.injEq]
  by_cases heq : key = other
  · simp [heq, eq_comm]
  · simp [heq, Ne.symm heq]

/-- To insert what is there already changes nothing. -/
theorem insert_of_get? {map : SortedMap κ ν} {key : κ} {value : ν}
    (h : map.get? key = some value) : map.insert key value = map := by
  refine ext_get? fun other => ?_
  rw [get?_insert]
  split
  · rename_i heq
    rw [← heq, h]
  · rfl

/-- The entries of a map are any one of them and those of the other keys. -/
theorem perm_entries_of_get? {map : SortedMap κ ν} {key : κ} {value : ν}
    (h : map.get? key = some value) :
    map.entries.Perm ((key, value) :: (map.erase key).entries) := by
  have hinsert := map.perm_entries_insert key value
  rwa [insert_of_get? h] at hinsert

/-- To remove what is not there changes nothing. -/
theorem erase_of_get?_none {map : SortedMap κ ν} {key : κ} (h : map.get? key = none) :
    map.erase key = map := by
  refine ext_get? fun other => ?_
  rw [get?_erase]
  split
  · rename_i heq
    rw [← heq, h]
  · rfl

/-- The lists of a map, put together, with the list of one key first. -/
theorem perm_flatten_values {α : Type} (map : SortedMap κ (List α)) (key : κ) :
    map.values.flatten.Perm (map.getD key [] ++ (map.erase key).values.flatten) := by
  rw [getD]
  cases hget : map.get? key with
  | none =>
    rw [erase_of_get?_none hget]
    exact List.Perm.refl _
  | some list => exact ((perm_entries_of_get? hget).map Prod.snd).flatten

omit [DecidableEq κ] in
/-- A test cuts the values in two parts. -/
theorem perm_values_filter (map : SortedMap κ ν) (keep : κ → ν → Bool) :
    ((map.filter keep).values ++ (map.filter fun key value => !keep key value).values).Perm
      map.values := by
  have hsplit := (List.filter_append_perm (fun entry => keep entry.1 entry.2) map.entries).map
    Prod.snd
  rwa [List.map_append] at hsplit

omit [DecidableEq κ] in
/-- The lengths of all lists add up to the length of the lists put together. -/
theorem total_length {α : Type} (map : SortedMap κ (List α)) :
    map.total (fun _ list => list.length) = map.values.flatten.length := by
  rw [total_eq_weigh, values]
  induction map.entries with
  | nil => rfl
  | cons entry rest ih => rw [weigh_cons, ih, List.map_cons, List.flatten_cons, List.length_append]

section MapValues

variable {μ : Type}

/-- To change all values after an insertion is to insert the changed value. -/
theorem mapValues_insert (map : SortedMap κ ν) (f : κ → ν → μ) (key : κ) (value : ν) :
    (map.insert key value).mapValues f = (map.mapValues f).insert key (f key value) := by
  refine ext_get? fun other => ?_
  rw [get?_mapValues, get?_insert, get?_insert, get?_mapValues]
  split
  · rename_i heq
    rw [heq]
    rfl
  · rfl

omit [DecidableEq κ] in
/-- To filter by keys and to change the values can be done in either order. -/
theorem mapValues_filter (map : SortedMap κ ν) (f : κ → ν → μ) (keep : κ → Bool) :
    (map.filter fun key _ => keep key).mapValues f =
      (map.mapValues f).filter fun key _ => keep key := by
  refine SortedMap.ext ?_
  simp only [filter, mapValues, List.filter_map]
  rfl

omit [DecidableEq κ] in
theorem values_mapValues (map : SortedMap κ ν) (f : ν → μ) :
    (map.mapValues fun _ => f).values = map.values.map f := by
  simp only [values, mapValues, List.map_map]
  rfl

end MapValues

section Building

omit [DecidableEq κ]

/-- An entry that comes after all others is put at the end. -/
theorem insertEntry_of_last {key : κ} {entries : List (κ × ν)}
    (h : ∀ e ∈ entries, Key.before e.1 key = true) (value : ν) :
    insertEntry key value entries = entries ++ [(key, value)] := by
  induction entries with
  | nil => rfl
  | cons head rest ih =>
    have hhead := h head List.mem_cons_self
    rw [insertEntry, if_neg (by simp [Key.asymm hhead]), if_pos hhead,
      ih fun e hmem => h e (List.mem_cons_of_mem head hmem), List.cons_append]

/-- Entries that come in the order of their keys are inserted one behind the other. -/
theorem foldl_insert_entries {pairs : List (κ × ν)} {map : SortedMap κ ν}
    (h : (map.entries ++ pairs).Pairwise (fun a b => Key.before a.1 b.1 = true)) :
    (pairs.foldl (fun map e => map.insert e.1 e.2) map).entries = map.entries ++ pairs := by
  induction pairs generalizing map with
  | nil => exact (List.append_nil _).symm
  | cons e rest ih =>
    have hlast : ∀ other ∈ map.entries, Key.before other.1 e.1 = true :=
      fun other hmem => (List.pairwise_append.mp h).2.2 other hmem e List.mem_cons_self
    have hinsert : (map.insert e.1 e.2).entries ++ rest = map.entries ++ e :: rest := by
      show insertEntry e.1 e.2 map.entries ++ rest = _
      rw [insertEntry_of_last hlast, List.append_assoc, List.singleton_append]
    exact (ih (hinsert ▸ h)).trans hinsert

/-- A map is built again from its entries. -/
theorem ofList_entries (map : SortedMap κ ν) : ofList map.entries = map :=
  SortedMap.ext (foldl_insert_entries map.ascending)

end Building

end Quorum.SortedMap
