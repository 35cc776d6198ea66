namespace Quorum

/-- Keys in a decidable strict total order. -/
class Key (κ : Type) where
  before : κ → κ → Bool
  irrefl : ∀ a, before a a = false
  trans : ∀ a b c, before a b = true → before b c = true → before a c = true
  connected : ∀ a b, before a b = false → before b a = false → a = b

namespace Key

variable {κ : Type} [Key κ]

theorem ne_of_before {a b : κ} (h : before a b = true) : a ≠ b := by
  rintro rfl
  simp [Key.irrefl] at h

/-- Of two keys, at most one comes before the other. -/
theorem asymm {a b : κ} (h : before a b = true) : before b a = false := by
  cases hba : before b a with
  | false => rfl
  | true => simpa [Key.irrefl] using Key.trans a b a h hba

instance : Key Nat where
  before a b := decide (a < b)
  irrefl := by simp
  trans a b c := by simpa using Nat.lt_trans
  connected a b := by simpa using fun h h' => Nat.le_antisymm h' h

instance : Key UInt64 where
  before a b := decide (a < b)
  irrefl a := by simp
  trans a b c := by simpa [UInt64.lt_iff_toNat_lt] using Nat.lt_trans
  connected a b := by
    simpa [UInt64.lt_iff_toNat_lt] using
      fun h h' => UInt64.toNat_inj.mp (Nat.le_antisymm h' h)

/-- Text is ordered by code points, which is the order of its UTF-8 bytes. -/
instance : Key String where
  before a b := decide (a < b)
  irrefl a := by simp
  trans a b c := by simpa using String.lt_trans
  connected a b h h' := by
    simp only [decide_eq_false_iff_not, String.not_lt] at h h'
    exact String.le_antisymm h' h

/-- Pairs are ordered by the first component, then by the second. -/
instance {α β : Type} [Key α] [Key β] : Key (α × β) where
  before x y := before x.1 y.1 || (!before y.1 x.1 && before x.2 y.2)
  irrefl x := by simp [Key.irrefl]
  trans x y z hxy hyz := by
    simp only [Bool.or_eq_true, Bool.and_eq_true, Bool.not_eq_true'] at hxy hyz ⊢
    rcases hxy with hxy | ⟨hyx, hxy⟩ <;> rcases hyz with hyz | ⟨hzy, hyz⟩
    · exact .inl (Key.trans _ _ _ hxy hyz)
    · cases hfirst : before y.1 z.1 with
      | true => exact .inl (Key.trans _ _ _ hxy hfirst)
      | false =>
        have heq := Key.connected _ _ hfirst hzy
        exact .inl (heq ▸ hxy)
    · cases hfirst : before x.1 y.1 with
      | true => exact .inl (Key.trans _ _ _ hfirst hyz)
      | false =>
        have heq := Key.connected _ _ hfirst hyx
        exact .inl (heq ▸ hyz)
    · cases hfirst : before x.1 z.1 with
      | true => exact .inl rfl
      | false =>
        refine .inr ⟨?_, Key.trans _ _ _ hxy hyz⟩
        cases hzx : before z.1 x.1 with
        | false => rfl
        | true =>
          cases hxy' : before x.1 y.1 with
          | true => simpa [hzy] using Key.trans _ _ _ hzx hxy'
          | false =>
            have heq := Key.connected _ _ hxy' hyx
            simp [← heq, hzx] at hzy
  connected x y h h' := by
    simp only [Bool.or_eq_false_iff] at h h'
    obtain ⟨hx, hsecond⟩ := h
    obtain ⟨hy, hsecond'⟩ := h'
    have hfirst := Key.connected _ _ hx hy
    simp only [hx, hy, Bool.not_false, Bool.true_and] at hsecond hsecond'
    exact Prod.ext hfirst (Key.connected _ _ hsecond hsecond')

end Key

/-- A finite map kept in the order of its keys, as the list of its entries. Maps with the same
    entries are equal, and iteration has one order. -/
@[ext]
structure SortedMap (κ ν : Type) [Key κ] where
  entries : List (κ × ν) := []
  ascending : entries.Pairwise (fun a b => Key.before a.1 b.1 = true) := by simp

namespace SortedMap

variable {κ ν : Type} [Key κ]

instance : EmptyCollection (SortedMap κ ν) := ⟨{}⟩

instance : Inhabited (SortedMap κ ν) := ⟨∅⟩

instance [DecidableEq κ] [DecidableEq ν] : DecidableEq (SortedMap κ ν) := fun a b =>
  if h : a.entries = b.entries then isTrue (SortedMap.ext h)
  else isFalse fun heq => h (heq ▸ rfl)

/-- Puts an entry at its place, in the stead of one with the same key. -/
def insertEntry (key : κ) (value : ν) : List (κ × ν) → List (κ × ν)
  | [] => [(key, value)]
  | (k, v) :: rest =>
    if Key.before key k then (key, value) :: (k, v) :: rest
    else if Key.before k key then (k, v) :: insertEntry key value rest
    else (key, value) :: rest

/-- An entry of the list after an insertion is the new one or was there before. -/
theorem mem_insertEntry {key : κ} {value : ν} {entries : List (κ × ν)} {e : κ × ν}
    (h : e ∈ insertEntry key value entries) : e = (key, value) ∨ e ∈ entries := by
  induction entries with
  | nil => simpa [insertEntry] using h
  | cons head rest ih =>
    unfold insertEntry at h
    split at h
    · simpa using h
    · split at h
      · rcases List.mem_cons.mp h with rfl | h
        · simp
        · rcases ih h with h | h <;> simp [h]
      · rcases List.mem_cons.mp h with rfl | h <;> simp_all

/-- An insertion keeps the keys ascending. -/
theorem pairwise_insertEntry (key : κ) (value : ν) {entries : List (κ × ν)}
    (h : entries.Pairwise (fun a b => Key.before a.1 b.1 = true)) :
    (insertEntry key value entries).Pairwise (fun a b => Key.before a.1 b.1 = true) := by
  induction entries with
  | nil => simp [insertEntry]
  | cons head rest ih =>
    obtain ⟨hhead, hrest⟩ := List.pairwise_cons.mp h
    unfold insertEntry
    split
    · rename_i hbefore
      refine List.pairwise_cons.mpr ⟨fun e he => ?_, h⟩
      rcases List.mem_cons.mp he with rfl | he
      · exact hbefore
      · exact Key.trans _ _ _ hbefore (hhead e he)
    · split
      · rename_i hafter
        refine List.pairwise_cons.mpr ⟨fun e he => ?_, ih hrest⟩
        rcases mem_insertEntry he with rfl | he
        · exact hafter
        · exact hhead e he
      · rename_i hnot hnot'
        have hkey := Key.connected _ _ (by simpa using hnot) (by simpa using hnot')
        exact List.pairwise_cons.mpr ⟨fun e he => hkey ▸ hhead e he, hrest⟩

/-- Adds an entry; one with the same key is replaced. -/
def insert (map : SortedMap κ ν) (key : κ) (value : ν) : SortedMap κ ν :=
  ⟨insertEntry key value map.entries, pairwise_insertEntry key value map.ascending⟩

/-- Keeps the entries that satisfy the test. -/
def filter (map : SortedMap κ ν) (keep : κ → ν → Bool) : SortedMap κ ν :=
  ⟨map.entries.filter (fun e => keep e.1 e.2), map.ascending.filter _⟩

/-- Cuts a map in two at a key: the entries before it, and those from it on. -/
def splitOff (map : SortedMap κ ν) (key : κ) : SortedMap κ ν × SortedMap κ ν :=
  let isBefore (e : κ × ν) : Bool := Key.before e.1 key
  (⟨map.entries.takeWhile isBefore, map.ascending.sublist (List.takeWhile_sublist _)⟩,
    ⟨map.entries.dropWhile isBefore, map.ascending.sublist (List.dropWhile_sublist _)⟩)

/-- Removes the entry of a key, if there is one. -/
def erase [DecidableEq κ] (map : SortedMap κ ν) (key : κ) : SortedMap κ ν :=
  map.filter fun k _ => k ≠ key

def get? [DecidableEq κ] (map : SortedMap κ ν) (key : κ) : Option ν :=
  (map.entries.find? (fun e => e.1 = key)).map (·.2)

def contains [DecidableEq κ] (map : SortedMap κ ν) (key : κ) : Bool :=
  (map.get? key).isSome

def getD [DecidableEq κ] (map : SortedMap κ ν) (key : κ) (fallback : ν) : ν :=
  (map.get? key).getD fallback

def size (map : SortedMap κ ν) : Nat := map.entries.length

def isEmpty (map : SortedMap κ ν) : Bool := map.entries.isEmpty

def keys (map : SortedMap κ ν) : List κ := map.entries.map (·.1)

def values (map : SortedMap κ ν) : List ν := map.entries.map (·.2)

/-- Changes every value and keeps the keys. -/
def mapValues {μ : Type} (map : SortedMap κ ν) (f : κ → ν → μ) : SortedMap κ μ :=
  ⟨map.entries.map (fun e => (e.1, f e.1 e.2)), by
    simpa [List.pairwise_map] using map.ascending⟩

/-- The sum of what the entries weigh. -/
def total (map : SortedMap κ ν) (weight : κ → ν → Nat) : Nat :=
  map.entries.foldr (fun e sum => weight e.1 e.2 + sum) 0

/-- Builds a map from pairs; of two with one key the later counts. -/
def ofList (pairs : List (κ × ν)) : SortedMap κ ν :=
  pairs.foldl (fun map e => map.insert e.1 e.2) ∅

section Lookup

variable [DecidableEq κ]

@[simp] theorem get?_empty (key : κ) : (∅ : SortedMap κ ν).get? key = none := rfl

/-- An inserted entry is found under its key, and under other keys what was found before. -/
theorem find?_insertEntry (key : κ) (value : ν) (other : κ) (entries : List (κ × ν))
    (h : entries.Pairwise (fun a b => Key.before a.1 b.1 = true)) :
    ((insertEntry key value entries).find? (fun e => e.1 = other)).map (·.2) =
      if key = other then some value else (entries.find? (fun e => e.1 = other)).map (·.2) := by
  induction entries with
  | nil => by_cases hkey : key = other <;> simp [insertEntry, hkey]
  | cons head rest ih =>
    obtain ⟨hhead, hrest⟩ := List.pairwise_cons.mp h
    unfold insertEntry
    split
    · by_cases hkey : key = other <;> simp [List.find?_cons, hkey]
    · split
      · rename_i hafter
        have hne := Key.ne_of_before hafter
        by_cases hhd : head.1 = other
        · have hkey : key ≠ other := fun heq => hne (hhd.trans heq.symm)
          simp [hhd, hkey]
        · simp [hhd, ih hrest]
      · rename_i hnot hnot'
        have heq := Key.connected _ _ (by simpa using hnot) (by simpa using hnot')
        by_cases hkey : key = other
        · simp [hkey]
        · have hhd : head.1 ≠ other := fun h' => hkey (heq.trans h')
          simp [hkey, hhd]

/-- A look-up after an insertion finds the new value under its key, and else what it found
    before. -/
theorem get?_insert (map : SortedMap κ ν) (key : κ) (value : ν) (other : κ) :
    (map.insert key value).get? other = if key = other then some value else map.get? other :=
  find?_insertEntry key value other map.entries map.ascending

@[simp] theorem get?_insert_self (map : SortedMap κ ν) (key : κ) (value : ν) :
    (map.insert key value).get? key = some value := by
  simp [get?_insert]

/-- A value that is found stands in the list of entries. -/
theorem mem_of_get? {map : SortedMap κ ν} {key : κ} {value : ν} (h : map.get? key = some value) :
    (key, value) ∈ map.entries := by
  obtain ⟨e, he, rfl⟩ := Option.map_eq_some_iff.mp h
  have hkey : e.1 = key := by simpa using List.find?_some he
  have hmem := List.mem_of_find?_eq_some he
  rwa [← hkey]

/-- Since keys ascend strictly, an entry is found under its key. -/
theorem get?_of_mem {map : SortedMap κ ν} {key : κ} {value : ν} (h : (key, value) ∈ map.entries) :
    map.get? key = some value := by
  obtain ⟨entries, hascending⟩ := map
  simp only [get?] at h ⊢
  induction entries with
  | nil => simp at h
  | cons head rest ih =>
    obtain ⟨hhead, hrest⟩ := List.pairwise_cons.mp hascending
    rcases List.mem_cons.mp h with rfl | h
    · simp
    · have hne := Key.ne_of_before (hhead _ h)
      simpa [List.find?_cons, hne] using ih hrest h

/-- Look-ups find exactly the entries. -/
theorem get?_eq_some_iff {map : SortedMap κ ν} {key : κ} {value : ν} :
    map.get? key = some value ↔ (key, value) ∈ map.entries :=
  ⟨mem_of_get?, get?_of_mem⟩

/-- A filtered map answers with what passes the test. -/
theorem get?_filter (map : SortedMap κ ν) (keep : κ → ν → Bool) (key : κ) :
    (map.filter keep).get? key = (map.get? key).filter (keep key) := by
  ext value
  rw [get?_eq_some_iff, Option.filter_eq_some_iff, get?_eq_some_iff]
  simp [filter]

/-- A look-up after a removal finds nothing under the key, and else what it found before. -/
theorem get?_erase (map : SortedMap κ ν) (key other : κ) :
    (map.erase key).get? other = if key = other then none else map.get? other := by
  rw [erase, get?_filter]
  by_cases h : key = other
  · simp [h]
  · cases map.get? other <;> simp [Option.filter, h, Ne.symm h]

/-- A look-up after a change of all values finds the changed value. -/
theorem get?_mapValues {μ : Type} (map : SortedMap κ ν) (f : κ → ν → μ) (key : κ) :
    (map.mapValues f).get? key = (map.get? key).map (f key) := by
  ext value
  rw [get?_eq_some_iff, Option.map_eq_some_iff]
  constructor
  · intro h
    obtain ⟨e, he, heq⟩ := List.mem_map.mp h
    obtain ⟨rfl, rfl⟩ := Prod.mk.inj heq
    exact ⟨e.2, get?_of_mem he, rfl⟩
  · rintro ⟨v, hv, rfl⟩
    exact List.mem_map.mpr ⟨(key, v), mem_of_get? hv, rfl⟩

omit [DecidableEq κ] in
/-- Ascending lists with the same entries are equal. -/
theorem entries_eq_of_mem_iff {xs ys : List (κ × ν)}
    (hxs : xs.Pairwise (fun a b => Key.before a.1 b.1 = true))
    (hys : ys.Pairwise (fun a b => Key.before a.1 b.1 = true))
    (h : ∀ e, e ∈ xs ↔ e ∈ ys) : xs = ys := by
  induction xs generalizing ys with
  | nil =>
    cases ys with
    | nil => rfl
    | cons y ys => simpa using (h y).mpr (by simp)
  | cons x xs ih =>
    cases ys with
    | nil => simpa using (h x).mp (by simp)
    | cons y ys =>
      obtain ⟨hx, hxs'⟩ := List.pairwise_cons.mp hxs
      obtain ⟨hy, hys'⟩ := List.pairwise_cons.mp hys
      have hxy : x = y := by
        rcases List.mem_cons.mp ((h x).mp (by simp)) with heq | hmem
        · exact heq
        · rcases List.mem_cons.mp ((h y).mpr (by simp)) with heq | hmem'
          · exact heq.symm
          · have := Key.asymm (hx y hmem')
            simp [hy x hmem] at this
      subst hxy
      congr 1
      refine ih hxs' hys' fun e => ?_
      constructor
      · intro he
        rcases List.mem_cons.mp ((h e).mp (List.mem_cons_of_mem _ he)) with rfl | h'
        · exact absurd rfl (Key.ne_of_before (hx _ he))
        · exact h'
      · intro he
        rcases List.mem_cons.mp ((h e).mpr (List.mem_cons_of_mem _ he)) with rfl | h'
        · exact absurd rfl (Key.ne_of_before (hy _ he))
        · exact h'

/-- Maps that answer every look-up alike are equal. -/
theorem ext_get? {a b : SortedMap κ ν} (h : ∀ key, a.get? key = b.get? key) : a = b := by
  refine SortedMap.ext (entries_eq_of_mem_iff a.ascending b.ascending fun e => ?_)
  rw [← get?_eq_some_iff, ← get?_eq_some_iff, h]

end Lookup

end SortedMap

end Quorum
