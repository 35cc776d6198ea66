import Mathlib.Algebra.Ring.Nat
import Quorum.Binary.Reader

namespace Quorum.Binary

section
variable {α β : Type} {bytes rest : List UInt8}

/-- Two readers in a row succeed if the second one does on what the first one leaves. -/
theorem bind_eq_ok {read : Reader α} {next : α → Reader β} {b : β} :
    (read >>= next) bytes = .ok (b, rest) ↔
      ∃ a left, read bytes = .ok (a, left) ∧ next a left = .ok (b, rest) := by
  change (read bytes >>= fun taken => next taken.1 taken.2) = .ok (b, rest) ↔ _
  cases read bytes with
  | error failure =>
    refine ⟨fun h => (nomatch h), ?_⟩
    rintro ⟨a, left, hread, -⟩
    cases hread
  | ok taken =>
    refine ⟨fun h => ⟨taken.1, taken.2, rfl, h⟩, ?_⟩
    rintro ⟨a, left, hread, hnext⟩
    cases hread
    exact hnext

theorem pure_eq_ok {a b : α} :
    (pure a : Reader α) bytes = .ok (b, rest) ↔ a = b ∧ bytes = rest := by
  change Except.ok (a, bytes) = .ok (b, rest) ↔ _
  simp

theorem throw_ne_ok {failure : DecodeError} {b : α} :
    (throw failure : Reader α) bytes ≠ .ok (b, rest) :=
  fun h => (nomatch h)

end

/-- The lengths that stand in a form fit their eight bytes. -/
def Fits (lengths : List Nat) : Prop := ∀ length ∈ lengths, length < UInt64.size

instance (lengths : List Nat) : Decidable (Fits lengths) :=
  inferInstanceAs (Decidable (∀ length ∈ lengths, length < UInt64.size))

@[simp] theorem fits_nil : Fits [] := fun _ hmem => absurd hmem List.not_mem_nil

/-- Lengths fit if each of two parts does. -/
@[simp] theorem fits_append {first second : List Nat} :
    Fits (first ++ second) ↔ Fits first ∧ Fits second :=
  List.forall_mem_append

theorem fits_singleton {length : Nat} : Fits [length] ↔ length < 256 ^ 8 :=
  List.forall_mem_singleton

/-- A writer and a reader of one form, with the lengths that stand in it. The reader takes a value
    exactly from bytes that start with what the writer gives for it. -/
def Codec {α : Type} (write : α → List UInt8) (read : Reader α) (lengths : α → List Nat) : Prop :=
  ∀ bytes a rest, read bytes = .ok (a, rest) ↔ Fits (lengths a) ∧ bytes = write a ++ rest

/-- Forms in which no length stands. -/
abbrev FixedCodec {α : Type} (write : α → List UInt8) (read : Reader α) : Prop :=
  Codec write read fun _ => []

/-- The number whose lowest bytes these are, least significant first. -/
def natOf (bytes : List UInt8) : Nat := bytes.foldr (fun byte n => byte.toNat + 256 * n) 0

@[simp] theorem length_writeNat (width n : Nat) : (writeNat width n).length = width := by
  induction width generalizing n with
  | zero => rfl
  | succ width ih => rw [writeNat, List.length_cons, ih]

/-- A number that fits its width is what its bytes stand for. -/
theorem natOf_writeNat {width n : Nat} (h : n < 256 ^ width) : natOf (writeNat width n) = n := by
  induction width generalizing n with
  | zero => exact (Nat.lt_one_iff.mp h).symm
  | succ width ih =>
    have hdiv : n / 256 < 256 ^ width := Nat.div_lt_of_lt_mul (by rwa [← Nat.pow_succ'])
    have hbyte : (UInt8.ofNat (n % 256)).toNat = n % 256 :=
      UInt8.toNat_ofNat_of_lt' (Nat.mod_lt n (by decide))
    change (UInt8.ofNat (n % 256)).toNat + 256 * natOf (writeNat width (n / 256)) = n
    rw [hbyte, ih hdiv, Nat.mod_add_div]

/-- Bytes stand for a number below the bound of their width. -/
theorem natOf_lt (bytes : List UInt8) : natOf bytes < 256 ^ bytes.length := by
  induction bytes with
  | nil => exact Nat.one_pos
  | cons byte rest ih =>
    have hbyte : byte.toNat < 256 := byte.toNat_lt
    change byte.toNat + 256 * natOf rest < 256 ^ (rest.length + 1)
    omega

/-- Bytes are those of the number they stand for. -/
theorem writeNat_natOf (bytes : List UInt8) : writeNat bytes.length (natOf bytes) = bytes := by
  induction bytes with
  | nil => rfl
  | cons byte rest ih =>
    have hbyte : byte.toNat < 256 := byte.toNat_lt
    have hmod : (byte.toNat + 256 * natOf rest) % 256 = byte.toNat := by omega
    have hdiv : (byte.toNat + 256 * natOf rest) / 256 = natOf rest := by omega
    change UInt8.ofNat ((byte.toNat + 256 * natOf rest) % 256) ::
      writeNat rest.length ((byte.toNat + 256 * natOf rest) / 256) = _
    rw [hmod, hdiv, ih, UInt8.ofNat_toNat]

/-- The bytes that are taken are the first ones. -/
theorem take_drop_iff {count : Nat} {bytes taken rest : List UInt8} :
    (count ≤ bytes.length ∧ bytes.take count = taken ∧ bytes.drop count = rest) ↔
      taken.length = count ∧ bytes = taken ++ rest := by
  constructor
  · rintro ⟨hle, rfl, rfl⟩
    exact ⟨List.length_take_of_le hle, (List.take_append_drop count bytes).symm⟩
  · rintro ⟨rfl, rfl⟩
    simp

/-- So many bytes are taken from the front exactly if they are there. -/
theorem readBytes_eq_ok {count : Nat} {bytes taken rest : List UInt8} :
    readBytes count bytes = .ok (taken, rest) ↔ taken.length = count ∧ bytes = taken ++ rest := by
  rw [← take_drop_iff, readBytes]
  by_cases hle : count ≤ bytes.length
  · simp [hle]
  · simp [hle]

/-- A number is read exactly from the bytes that it is written as. -/
theorem readNat_eq_ok {width : Nat} {bytes rest : List UInt8} {n : Nat} :
    readNat width bytes = .ok (n, rest) ↔ n < 256 ^ width ∧ bytes = writeNat width n ++ rest := by
  have htaken : readNat width bytes = .ok (n, rest) ↔
      ∃ taken, readBytes width bytes = .ok (taken, rest) ∧ natOf taken = n := by
    rw [readNat, readBytes]
    by_cases hle : width ≤ bytes.length
    · rw [if_pos hle, if_pos hle]
      constructor
      · intro h
        cases h
        exact ⟨bytes.take width, rfl, rfl⟩
      · rintro ⟨taken, h, rfl⟩
        cases h
        rfl
    · simp [hle]
  rw [htaken]
  constructor
  · rintro ⟨taken, hread, rfl⟩
    obtain ⟨rfl, rfl⟩ := readBytes_eq_ok.mp hread
    exact ⟨natOf_lt taken, by rw [writeNat_natOf]⟩
  · rintro ⟨hlt, rfl⟩
    exact ⟨writeNat width n, readBytes_eq_ok.mpr ⟨length_writeNat width n, rfl⟩, natOf_writeNat hlt⟩

/-- Values that are numbers of so many bytes. -/
theorem FixedCodec.of_nat {α : Type} {width : Nat} {ofNat : Nat → α} {toNat : α → Nat}
    (hlt : ∀ a, toNat a < 256 ^ width) (hof : ∀ a, ofNat (toNat a) = a)
    (hto : ∀ n, n < 256 ^ width → toNat (ofNat n) = n) :
    FixedCodec (fun a => writeNat width (toNat a)) (do return ofNat (← readNat width)) := by
  intro bytes a rest
  simp only [bind_eq_ok, readNat_eq_ok, pure_eq_ok]
  constructor
  · rintro ⟨n, left, ⟨hn, rfl⟩, rfl, rfl⟩
    exact ⟨fits_nil, by rw [hto n hn]⟩
  · rintro ⟨-, rfl⟩
    exact ⟨toNat a, rest, ⟨hlt a, rfl⟩, hof a, rfl⟩

/-- Numbers of 32 bits are read back from their four bytes. -/
theorem uint32_codec : FixedCodec writeUInt32 readUInt32 :=
  .of_nat UInt32.toNat_lt (fun _ => UInt32.ofNat_toNat) fun _ => UInt32.toNat_ofNat_of_lt'

/-- Numbers of 64 bits are read back from their eight bytes. -/
theorem uint64_codec : FixedCodec writeUInt64 readUInt64 :=
  .of_nat UInt64.toNat_lt (fun _ => UInt64.ofNat_toNat) fun _ => UInt64.toNat_ofNat_of_lt'

theorem byte_codec : FixedCodec (fun byte => [byte]) readByte := by
  intro bytes byte rest
  cases bytes with
  | nil => simp [readByte]
  | cons first left => simp [readByte]

namespace Codec
variable {α β : Type} {write : α → List UInt8} {read : Reader α} {lengths : α → List Nat}

/-- A reader that starts with a value succeeds exactly on the form of one and what the rest
    reads. -/
theorem bind_eq_ok (h : Codec write read lengths) {next : α → Reader β} {bytes rest : List UInt8}
    {b : β} :
    (read >>= next) bytes = .ok (b, rest) ↔
      ∃ a left, Fits (lengths a) ∧ bytes = write a ++ left ∧ next a left = .ok (b, rest) := by
  rw [Binary.bind_eq_ok]
  refine exists_congr fun a => exists_congr fun left => ?_
  rw [h bytes a left, and_assoc]

/-- A reader that makes something of a value succeeds exactly on the form of one. -/
theorem map_eq_ok (h : Codec write read lengths) {f : α → β} {bytes rest : List UInt8} {b : β} :
    (do return f (← read)) bytes = .ok (b, rest) ↔
      ∃ a, f a = b ∧ Fits (lengths a) ∧ bytes = write a ++ rest := by
  rw [h.bind_eq_ok]
  simp only [pure_eq_ok]
  constructor
  · rintro ⟨a, left, hfits, hbytes, hvalue, rfl⟩
    exact ⟨a, hvalue, hfits, hbytes⟩
  · rintro ⟨a, hvalue, hfits, hbytes⟩
    exact ⟨a, rest, hfits, hbytes, hvalue, rfl⟩

/-- A reader that starts with a value reads its form and goes on with what follows. -/
theorem bind_write (h : Codec write read lengths) {next : α → Reader β} {left rest : List UInt8}
    {a : α} {b : β} (hfits : Fits (lengths a)) (hnext : next a left = .ok (b, rest)) :
    (read >>= next) (write a ++ left) = .ok (b, rest) :=
  h.bind_eq_ok.mpr ⟨a, left, hfits, rfl, hnext⟩

theorem map_write (h : Codec write read lengths) {f : α → β} {rest : List UInt8} {a : α}
    (hfits : Fits (lengths a)) :
    (do return f (← read)) (write a ++ rest) = .ok (f a, rest) :=
  h.map_eq_ok.mpr ⟨a, rfl, hfits, rfl⟩

/-- An optional value has a form if the value has one. -/
theorem option (h : Codec write read lengths) :
    Codec (writeOption write) (readOption read) fun value => value.elim [] lengths := by
  intro bytes value rest
  rw [readOption, byte_codec.bind_eq_ok]
  constructor
  · rintro ⟨tag, left, -, rfl, hread⟩
    split at hread
    · obtain ⟨rfl, rfl⟩ := pure_eq_ok.mp hread
      exact ⟨fits_nil, rfl⟩
    · obtain ⟨a, rfl, hfits, rfl⟩ := h.map_eq_ok.mp hread
      exact ⟨hfits, rfl⟩
    · exact absurd hread throw_ne_ok
  · rintro ⟨hfits, rfl⟩
    cases value with
    | none => exact ⟨0, rest, fits_nil, rfl, pure_eq_ok.mpr ⟨rfl, rfl⟩⟩
    | some a => exact ⟨1, write a ++ rest, fits_nil, rfl, h.map_write hfits⟩

/-- No length stands in the form of an optional value if none stands in that of the value. -/
theorem fixed_option (h : FixedCodec write read) :
    FixedCodec (writeOption write) (readOption read) := by
  intro bytes value rest
  cases value with
  | none => exact h.option bytes none rest
  | some a => exact h.option bytes (some a) rest

/-- So many items are read exactly from their forms in a row. -/
theorem readItems_eq_ok (h : FixedCodec write read) {count : Nat} {bytes rest : List UInt8}
    {items : List α} :
    readItems read count bytes = .ok (items, rest) ↔
      items.length = count ∧ bytes = items.flatMap write ++ rest := by
  induction count generalizing bytes items rest with
  | zero =>
    rw [readItems, pure_eq_ok]
    constructor
    · rintro ⟨rfl, rfl⟩
      exact ⟨rfl, rfl⟩
    · rintro ⟨hlength, rfl⟩
      rw [List.eq_nil_of_length_eq_zero hlength]
      exact ⟨rfl, rfl⟩
  | succ count ih =>
    simp only [readItems, h.bind_eq_ok, Binary.bind_eq_ok, ih, pure_eq_ok]
    constructor
    · rintro ⟨item, left, -, rfl, items, left, ⟨rfl, rfl⟩, rfl, rfl⟩
      exact ⟨rfl, by rw [List.flatMap_cons, List.append_assoc]⟩
    · rintro ⟨hlength, rfl⟩
      obtain ⟨item, items, rfl⟩ := List.exists_cons_of_length_eq_add_one hlength
      refine ⟨item, items.flatMap write ++ rest, fits_nil, ?_, items, rest, ⟨?_, rfl⟩, rfl, rfl⟩
      · rw [List.flatMap_cons, List.append_assoc]
      · exact Nat.succ.inj hlength

/-- A list has a form if its items have one of fixed length. -/
theorem list (h : FixedCodec write read) :
    Codec (writeList write) (readList read) fun items => [items.length] := by
  intro bytes items rest
  simp only [readList, Binary.bind_eq_ok, readNat_eq_ok, readItems_eq_ok h]
  constructor
  · rintro ⟨count, left, ⟨hlt, rfl⟩, rfl, rfl⟩
    exact ⟨fits_singleton.mpr hlt, by rw [writeList, List.append_assoc]⟩
  · rintro ⟨hfits, rfl⟩
    exact ⟨items.length, items.flatMap write ++ rest,
      ⟨fits_singleton.mp hfits, by rw [writeList, List.append_assoc]⟩, rfl, rfl⟩

end Codec

/-- Bytes are read as text exactly if they are its UTF-8 form. -/
theorem fromUTF8?_eq_some {bytes : ByteArray} {text : String} :
    String.fromUTF8? bytes = some text ↔ text.toUTF8 = bytes := by
  rw [String.fromUTF8?]
  constructor
  · intro h
    split at h
    · rw [← Option.some.inj h]
      rfl
    · cases h
  · rintro rfl
    exact dif_pos text.isValidUTF8

/-- A text is read back from its length and its UTF-8 bytes. -/
theorem text_codec : Codec writeString readString fun text => [text.utf8ByteSize] := by
  intro bytes text rest
  have hlength : text.toUTF8.data.toList.length = text.utf8ByteSize := rfl
  simp only [readString, bind_eq_ok, readNat_eq_ok, readBytes_eq_ok]
  constructor
  · rintro ⟨count, left, ⟨hlt, rfl⟩, taken, left, ⟨rfl, rfl⟩, hread⟩
    cases hvalid : String.fromUTF8? ⟨taken.toArray⟩ with
    | none =>
      rw [hvalid] at hread
      exact absurd hread throw_ne_ok
    | some found =>
      rw [hvalid] at hread
      obtain ⟨rfl, rfl⟩ := pure_eq_ok.mp hread
      have htaken : found.toUTF8.data.toList = taken := by rw [fromUTF8?_eq_some.mp hvalid]
      rw [← htaken] at hlt
      refine ⟨fits_singleton.mpr hlt, ?_⟩
      rw [writeString, htaken, List.append_assoc]
  · rintro ⟨hfits, rfl⟩
    refine ⟨text.utf8ByteSize, text.toUTF8.data.toList ++ rest, ⟨fits_singleton.mp hfits, ?_⟩,
      text.toUTF8.data.toList, rest, ⟨hlength, rfl⟩, ?_⟩
    · rw [writeString, List.append_assoc, hlength]
    · have hvalid : String.fromUTF8? ⟨text.toUTF8.data.toList.toArray⟩ = some text :=
        fromUTF8?_eq_some.mpr rfl
      rw [hvalid]
      exact pure_eq_ok.mpr ⟨rfl, rfl⟩

/-- An alternative is read by its number and then by what its own reader takes. -/
theorem variant_bind_eq_ok {α : Type} {count : Nat} (hcount : count ≤ 256 ^ 4)
    {next : Fin count → Reader α} {bytes rest : List UInt8} {a : α} :
    (readVariant count >>= next) bytes = .ok (a, rest) ↔
      ∃ index : Fin count, ∃ left, bytes = writeVariant index ++ left ∧
        next index left = .ok (a, rest) := by
  have hvariant (index : Fin count) (left : List UInt8) :
      readVariant count bytes = .ok (index, left) ↔ bytes = writeVariant index ++ left := by
    simp only [readVariant, bind_eq_ok, readNat_eq_ok]
    constructor
    · rintro ⟨n, mid, ⟨-, rfl⟩, hread⟩
      split at hread
      · obtain ⟨rfl, rfl⟩ := pure_eq_ok.mp hread
        rfl
      · exact absurd hread throw_ne_ok
    · rintro rfl
      have hlt := Nat.lt_of_lt_of_le index.isLt hcount
      exact ⟨index, left, ⟨hlt, rfl⟩, by rw [dif_pos index.isLt]; exact pure_eq_ok.mpr ⟨rfl, rfl⟩⟩
  rw [bind_eq_ok]
  exact exists_congr fun index => exists_congr fun left => and_congr_left' (hvariant index left)

end Quorum.Binary
