import Mathlib.Data.List.Induction
import Quorum.Proofs.Binary.Reader
import Quorum.ReadQueue

namespace Quorum.ReadQueue

open Binary

/-- A byte of a context is a digit of its number in base 256. -/
theorem byte_of_shifted {context shift : UInt64} (h : shift.toNat < 64) :
    (context >>> shift).toUInt8 = .ofNat (context.toNat / 2 ^ shift.toNat % 256) := by
  refine UInt8.toNat_inj.mp ?_
  rw [UInt64.toNat_toUInt8, UInt64.toNat_shiftRight, Nat.mod_eq_of_lt h, Nat.shiftRight_eq_div_pow,
    UInt8.toNat_ofNat', Nat.mod_mod]

/-- The bytes of a context are the big-endian digits of its number. -/
theorem contextBytes_eq (context : UInt64) :
    contextBytes context = (writeNat 8 context.toNat).reverse := by
  have hshifts : ∀ shift ∈ ([56, 48, 40, 32, 24, 16, 8, 0] : List UInt64), shift.toNat < 64 := by
    simp
  rw [contextBytes, List.map_congr_left fun shift hmem => byte_of_shifted (hshifts shift hmem)]
  simp [writeNat, Nat.div_div_eq_div_mul]

/-- A number and a byte behind it. -/
theorem toNat_shiftLeft_or {context : UInt64} {byte : UInt8} (h : context.toNat < 2 ^ 56) :
    ((context <<< 8) ||| byte.toUInt64).toNat = byte.toNat + 256 * context.toNat := by
  have hbyte : byte.toNat < 2 ^ 8 := byte.toNat_lt
  have hshift : (context <<< 8).toNat = context.toNat <<< 8 := by
    have hfits : context.toNat <<< 8 < 2 ^ 64 := by
      rw [Nat.shiftLeft_eq]
      omega
    exact (UInt64.toNat_shiftLeft context 8).trans (Nat.mod_eq_of_lt hfits)
  rw [UInt64.toNat_or, hshift, UInt8.toNat_toUInt64, ← Nat.shiftLeft_add_eq_or_of_lt hbyte,
    Nat.shiftLeft_eq]
  omega

theorem toNat_foldl_bytes {bytes : List UInt8} (h : bytes.length ≤ 8) :
    (bytes.foldl (fun (context : UInt64) byte => (context <<< 8) ||| byte.toUInt64) 0).toNat =
      natOf bytes.reverse := by
  induction bytes using List.reverseRecOn with
  | nil => rfl
  | append_singleton bytes byte ih =>
    rw [List.length_append, List.length_singleton] at h
    have hfirst := ih (by omega)
    have hsmall : natOf bytes.reverse < 2 ^ 56 := by
      have hlt := natOf_lt bytes.reverse
      rw [List.length_reverse] at hlt
      have hpow : 256 ^ bytes.length ≤ 256 ^ 7 := Nat.pow_le_pow_right (by decide) (by omega)
      omega
    rw [List.foldl_append, List.foldl_cons, List.foldl_nil, toNat_shiftLeft_or (hfirst ▸ hsmall),
      hfirst, List.reverse_append]
    rfl

/-- The bytes of a context stand for it, and no other bytes do. -/
theorem contextOfBytes?_eq_some_iff {bytes : List UInt8} {context : UInt64} :
    contextOfBytes? bytes = some context ↔ bytes = contextBytes context := by
  rw [contextBytes_eq]
  constructor
  · intro h
    unfold contextOfBytes? at h
    split at h
    · rename_i hlength
      have hvalue := toNat_foldl_bytes (Nat.le_of_eq hlength)
      rw [Option.some.inj h] at hvalue
      have hwritten := writeNat_natOf bytes.reverse
      rw [List.length_reverse, hlength, ← hvalue] at hwritten
      rw [hwritten, List.reverse_reverse]
    · cases h
  · rintro rfl
    have hlength : ((writeNat 8 context.toNat).reverse).length = 8 := by
      rw [List.length_reverse, length_writeNat]
    have hvalue := toNat_foldl_bytes (Nat.le_of_eq hlength)
    rw [List.reverse_reverse, natOf_writeNat context.toNat_lt] at hvalue
    rw [contextOfBytes?, if_pos hlength]
    exact congrArg some (UInt64.toNat_inj.mp hvalue)

/-- A context is read back from its own bytes. -/
theorem contextOfBytes?_contextBytes (context : UInt64) :
    contextOfBytes? (contextBytes context) = some context :=
  contextOfBytes?_eq_some_iff.mpr rfl

end Quorum.ReadQueue
