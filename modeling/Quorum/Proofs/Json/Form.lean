import Quorum.Json.Form
import Quorum.Proofs.Json.Tree
import Quorum.Proofs.SortedMap

namespace Quorum.Json

@[simp] theorem writable_null : Writable .null := by simp [Writable, tokens, Token.Writable]

@[simp] theorem writable_bool (flag : Bool) : Writable (.bool flag) := by
  simp [Writable, tokens, Token.Writable]

@[simp] theorem writable_number (value : Number) : Writable (.number value) := by
  simp [Writable, tokens, Token.Writable]

/-- Text is writable in its standard form. -/
@[simp] theorem writable_ofString (text : String) : (ofString text).Writable := by
  simpa [Writable, tokens, Token.Writable, ofString] using Written.writable_ofString text

/-- An array is writable exactly if its items are. -/
@[simp] theorem writable_array (items : List Json) :
    (Json.array items).Writable ↔ ∀ item ∈ items, item.Writable := by
  have hitems : (∀ token ∈ itemTokens items, token.Writable) ↔ ∀ item ∈ items, item.Writable := by
    induction items with
    | nil => simp [itemTokens, Token.Writable]
    | cons item rest ih =>
      cases rest with
      | nil => simp [itemTokens, Token.Writable, Writable, or_imp, forall_and]
      | cons next others =>
        rw [List.forall_mem_cons, ← ih]
        simp [itemTokens, Token.Writable, Writable, or_imp, forall_and]
  simpa [Writable, tokens, Token.Writable] using hitems

/-- An object is writable exactly if the values of its members are. -/
@[simp] theorem writable_record (members : List (String × Json)) :
    (record members).Writable ↔ ∀ member ∈ members, member.2.Writable := by
  have hmembers :
      (∀ token ∈ memberTokens (members.map fun member => (.ofString member.1, member.2)),
        token.Writable) ↔ ∀ member ∈ members, member.2.Writable := by
    have hmarks : Token.Writable .colon ∧ Token.Writable .comma ∧ Token.Writable .closeObject :=
      ⟨trivial, trivial, trivial⟩
    induction members with
    | nil => simp [memberTokens, hmarks]
    | cons member rest ih =>
      have hname : Token.Writable (.text (.ofString member.1)) :=
        Written.writable_ofString member.1
      cases rest with
      | nil => simp [memberTokens, Writable, hname, hmarks, or_imp, forall_and]
      | cons next others =>
        rw [List.forall_mem_cons]
        refine Iff.trans ?_ (and_congr_right fun _ => ih)
        simp [memberTokens, Writable, hname, hmarks, or_imp, forall_and]
  simpa [Writable, record, tokens, Token.Writable] using hmembers

/-- An alternative is writable exactly if its content is. -/
@[simp] theorem writable_tagged (name : String) (content : Json) :
    (tagged name content).Writable ↔ content.Writable := by
  simp [tagged]

/-- Values are written in a form that has a text, and are read back from it. -/
structure Faithful {α : Type} (write : α → Json) (read? : Json → Option α) : Prop where
  writable : ∀ a, (write a).Writable
  read : ∀ a, read? (write a) = some a

/-- Truth values are written faithfully. -/
theorem faithful_bool : Faithful Json.bool bool? := ⟨writable_bool, fun _ => rfl⟩

/-- Texts are written faithfully. -/
theorem faithful_string : Faithful ofString string? :=
  ⟨writable_ofString, Written.toString?_ofString⟩

theorem nat?_ofNat {n bound : Nat} (h : n < bound) : (ofNat n).nat? bound = some n := if_pos h

/-- Numbers of 64 bits are written faithfully. -/
theorem faithful_uint64 : Faithful ofUInt64 uint64? where
  writable _ := writable_number _
  read n := by rw [uint64?, ofUInt64, nat?_ofNat n.toNat_lt, Option.map_some, UInt64.ofNat_toNat]

/-- Numbers of 32 bits are written faithfully. -/
theorem faithful_uint32 : Faithful (fun n : UInt32 => ofNat n.toNat) uint32? where
  writable _ := writable_number _
  read n := by rw [uint32?, nat?_ofNat n.toNat_lt, Option.map_some, UInt32.ofNat_toNat]

/-- Bytes are written faithfully. -/
theorem faithful_uint8 : Faithful (fun n : UInt8 => ofNat n.toNat) uint8? where
  writable _ := writable_number _
  read n := by rw [uint8?, nat?_ofNat n.toNat_lt, Option.map_some, UInt8.ofNat_toNat]

/-- Numbers of 64 bits with sign are written faithfully. -/
theorem faithful_int64 : Faithful (fun n : Int64 => ofInt n.toInt) int64? where
  writable _ := writable_number _
  read n := by
    have hlow : -(2 ^ 63 : Int) ≤ n.toInt := n.le_toInt
    have hhigh : n.toInt < 2 ^ 63 := n.toInt_lt
    have hvalue : n.toInt.toInt64 = n := n.ofInt_toInt
    by_cases hneg : n.toInt < 0
    · have habs : -(n.toInt.natAbs : Int) = n.toInt := by omega
      have hrange : 0 < n.toInt.natAbs ∧ n.toInt.natAbs ≤ Nat.pow 2 63 := by
        simp
        omega
      rw [ofInt, decide_eq_true hneg, int64?, if_pos hrange, habs, hvalue]
    · have habs : (n.toInt.natAbs : Int) = n.toInt := by omega
      have hrange : n.toInt.natAbs < Nat.pow 2 63 := by
        simp
        omega
      rw [ofInt, decide_eq_false hneg, int64?, if_pos hrange, habs, hvalue]

section Combined

variable {α β : Type} {write : α → Json} {read? : Json → Option α} {write' : β → Json}
  {read'? : Json → Option β}

/-- Null stands for none, as no value is written as null. -/
theorem Faithful.option (h : Faithful write read?) (hvalue : ∀ a, write a ≠ .null) :
    Faithful (ofOption write) (option? read?) where
  writable
    | none => writable_null
    | some a => h.writable a
  read
    | none => rfl
    | some a => by
      rw [ofOption, option?, h.read, Option.map_some]
      exact hvalue a

/-- Lists are written faithfully if their items are. -/
theorem Faithful.list (h : Faithful write read?) : Faithful (ofList write) (list? read?) where
  writable items := by simpa [ofList] using fun a _ => h.writable a
  read items := by
    simp only [ofList, list?, List.mapM_map, Function.comp_def]
    rw [mapM_eq_some (f := id) fun a _ => h.read a, List.map_id]

/-- Pairs are written faithfully if both parts are. -/
theorem Faithful.pair (h : Faithful write read?) (h' : Faithful write' read'?) :
    Faithful (fun pair : α × β => .array [write pair.1, write' pair.2]) (pair? read? read'?) where
  writable pair := by simp [h.writable, h'.writable]
  read pair := by simp [pair?, h.read, h'.read]

/-- Maps from names are written faithfully if their values are. -/
theorem Faithful.map (h : Faithful write read?) : Faithful (ofMap write) (map? read?) where
  writable map := by
    simp only [ofMap, writable_record, List.forall_mem_map]
    exact fun entry _ => h.writable entry.2
  read map := by
    simp only [ofMap, record, map?, List.mapM_map, Function.comp_def]
    rw [mapM_eq_some (f := id) fun entry _ => by simp [Written.toString?_ofString, h.read],
      List.map_id]
    exact congrArg some map.ofList_entries

/-- Maps from numbers are written faithfully if their values are. -/
theorem Faithful.numberMap (h : Faithful write read?) :
    Faithful (ofNumberMap write) (numberMap? read?) where
  writable map := by
    simp only [ofNumberMap, writable_record, List.forall_mem_map]
    exact fun entry _ => h.writable entry.2
  read map := by
    simp only [ofNumberMap, record, numberMap?, List.mapM_map, Function.comp_def]
    rw [mapM_eq_some (f := id) fun entry _ => by
      simp [Written.digits?_ofString_repr, h.read, UInt64.toNat_lt_size], List.map_id]
    exact congrArg some map.ofList_entries

end Combined

/-- Members with different names are sorted by the fields that they name. -/
theorem gather?_eq {names : List String} (hnames : names.Nodup) {members : List (String × Json)}
    (h : (members.map Prod.fst).Nodup) :
    gather? names members = some (names.map fun name => members.lookup name) := by
  induction members with
  | nil => rfl
  | cons member rest ih =>
    obtain ⟨name, content⟩ := member
    obtain ⟨hnew, hrest⟩ := List.nodup_cons.mp h
    have hlookup : rest.lookup name = none := by
      refine List.lookup_eq_none_iff.mpr fun entry hmem => bne_iff_ne.mpr ?_
      rintro rfl
      exact hnew (List.mem_map.mpr ⟨entry, hmem, rfl⟩)
    have hother : ∀ other, other ≠ name →
        ((name, content) :: rest).lookup other = rest.lookup other := by
      intro other hne
      rw [List.lookup_cons, beq_eq_false_iff_ne.mpr hne]
    rw [gather?, ih hrest, Option.bind_eq_bind, Option.bind_some]
    -- A member that no field names is passed over; one that a field names fills its place.
    cases hfind : names.idxOf? name with
    | none =>
      have habsent : name ∉ names := List.idxOf?_eq_none_iff.mp hfind
      refine congrArg some (List.map_congr_left fun other hmem => (hother other ?_).symm)
      exact fun heq => habsent (heq ▸ hmem)
    | some i =>
      obtain ⟨hi, hname, -⟩ := List.idxOf?_eq_some_iff.mp hfind
      have hfield : (names.map fun name => rest.lookup name)[i]? = some none := by
        rw [List.getElem?_map, List.getElem?_eq_getElem hi, hname, Option.map_some, hlookup]
      simp only [hfield]
      refine congrArg some (List.ext_getElem (by simp) fun j hj hj' => ?_)
      rw [List.getElem_set, List.getElem_map, List.getElem_map]
      split
      · rename_i heq
        subst heq
        rw [hname, List.lookup_cons_self]
      · rename_i hne
        refine (hother _ fun heq => hne ?_).symm
        exact (hnames.getElem_inj_iff.mp (hname.trans heq.symm))

/-- Of members with different names, each is found under its name. -/
theorem lookup_of_mem {members : List (String × Json)} (h : (members.map Prod.fst).Nodup)
    {member : String × Json} (hmem : member ∈ members) :
    members.lookup member.1 = some member.2 := by
  obtain ⟨front, back, rfl⟩ := List.append_of_mem hmem
  refine List.lookup_eq_some_iff.mpr ⟨front, back, rfl, fun other hother => bne_iff_ne.mpr ?_⟩
  rw [List.map_append, List.map_cons] at h
  have hapart := (List.nodup_append.mp h).2.2 other.1 (List.mem_map_of_mem hother) member.1
    List.mem_cons_self
  exact hapart.symm

/-- The fields of a record are read in their order. -/
theorem fields?_record {members : List (String × Json)} {names : List String}
    (hnames : members.map Prod.fst = names) (hnodup : names.Nodup) :
    (record members).fields? names = some (members.map fun member => some member.2) := by
  have hnamed : named? (members.map fun member => (.ofString member.1, member.2)) =
      some members := by
    simp only [named?, List.mapM_map, Function.comp_def]
    rw [mapM_eq_some (f := id) fun member _ => by simp [Written.toString?_ofString], List.map_id]
  subst hnames
  rw [record, fields?, hnamed, Option.bind_some, gather?_eq hnodup hnodup, List.map_map]
  exact congrArg some (List.map_congr_left fun member hmem => lookup_of_mem hnodup hmem)

/-- An alternative with content is read as its name and the content. -/
theorem alternative?_tagged (name : String) (content : Json) :
    (tagged name content).alternative? = some (name, some content) := by
  simp [tagged, record, alternative?, Written.toString?_ofString]

/-- An alternative without content is read as its name. -/
theorem alternative?_ofString (name : String) :
    (ofString name).alternative? = some (name, none) := by
  simp [ofString, alternative?, Written.toString?_ofString]

end Quorum.Json
