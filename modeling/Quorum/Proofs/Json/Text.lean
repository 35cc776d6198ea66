import Mathlib.Data.List.Basic
import Quorum.Json.Text

namespace Quorum.Json

/-- A list is read if each of its items is. -/
theorem mapM_eq_some {α β : Type} {read? : α → Option β} {f : α → β} {items : List α}
    (h : ∀ item ∈ items, read? item = some (f item)) : items.mapM read? = some (items.map f) := by
  induction items with
  | nil => rfl
  | cons item rest ih =>
    rw [List.mapM_cons, h item List.mem_cons_self,
      ih fun other hmem => h other (List.mem_cons_of_mem item hmem)]
    rfl

namespace Piece

/-- A piece that has a written form: a control character needs a short escape, and a code unit has
    four digits. -/
def Writable : Piece → Prop
  | .char c => isControl c = true → shortEscape? c ≠ none
  | .unit code => code < 65536

/-- Every character has a standard form that can be written. -/
theorem writable_ofChar (c : Char) : (ofChar c).Writable := by
  unfold ofChar
  split
  · rename_i hcontrol
    have hlt : c.toNat < 0x20 := by simpa [isControl] using hcontrol.1
    exact Nat.lt_trans hlt (by decide)
  · rename_i hplain
    exact fun hcontrol hnone => hplain ⟨hcontrol, hnone⟩

end Piece

namespace Written

theorem writable_ofString (text : String) : ∀ piece ∈ ofString text, piece.Writable := by
  intro piece hmem
  obtain ⟨c, -, rfl⟩ := List.mem_map.mp hmem
  exact Piece.writable_ofChar c

/-- A character in its standard form is read back, whatever follows it. -/
theorem chars?_ofChar_cons (c : Char) (rest : Written) :
    chars? (Piece.ofChar c :: rest) = (chars? rest).map (c :: ·) := by
  unfold Piece.ofChar
  split
  · rename_i hcontrol
    have hlt : c.toNat < 0x20 := by simpa [Piece.isControl] using hcontrol.1
    have hhigh : isHighSurrogate c.toNat = false := by simp [isHighSurrogate]; omega
    have hlow : isLowSurrogate c.toNat = false := by simp [isLowSurrogate]; omega
    simp only [chars?.eq_def (.unit _ :: rest), hhigh, hlow, Bool.false_eq_true, if_false,
      Char.ofNat_toNat]
  · rfl

/-- Characters are read back from their standard forms. -/
theorem chars?_map_ofChar (chars : List Char) : chars? (chars.map Piece.ofChar) = some chars := by
  induction chars with
  | nil => rfl
  | cons c rest ih => rw [List.map_cons, chars?_ofChar_cons, ih, Option.map_some]

/-- Text is read back from its standard form. -/
theorem toString?_ofString (text : String) : (ofString text).toString? = some text := by
  rw [toString?, ofString, chars?_map_ofChar, Option.map_some, String.ofList_toList]

/-- The digits of a positive number do not start with zero. -/
theorem head?_toDigits_ne_zero {n : Nat} (h : 0 < n) : (Nat.toDigits 10 n).head? ≠ some '0' := by
  induction n using Nat.base_induction 10 (by decide) with
  | single digit hlt =>
    rw [Nat.toDigits_of_lt_base hlt, List.head?_cons, ne_eq, Option.some.injEq,
      Nat.digitChar_eq_zero]
    exact Nat.ne_of_gt h
  | digit front last hlt hpos ih =>
    rw [← Nat.toDigits_append_toDigits (by decide) hpos hlt,
      List.head?_append_of_ne_nil _ Nat.toDigits_ne_nil]
    exact ih hpos

theorem toNat_of_isDigit {c : Char} (h : c.isDigit = true) : 48 ≤ c.toNat ∧ c.toNat ≤ 57 := by
  simpa [Char.isDigit, UInt32.le_iff_toNat_le] using h

/-- Digits stand in a text as themselves. -/
theorem ofChar_of_isDigit {c : Char} (h : c.isDigit = true) : Piece.ofChar c = .char c := by
  have hdigit := toNat_of_isDigit h
  refine if_neg fun hcontrol => ?_
  have hlt : c.toNat < 0x20 := by simpa [Piece.isControl] using hcontrol.1
  omega

theorem ofString_repr (n : Nat) : ofString n.repr = (Nat.toDigits 10 n).map Piece.char := by
  rw [ofString, Nat.toList_repr]
  refine List.map_congr_left fun c hmem => ofChar_of_isDigit ?_
  exact Nat.isDigit_of_mem_toDigits (by decide) (by decide) hmem

/-- The digits of a positive number do not start with a zero. -/
theorem exists_toDigits_eq_cons {n : Nat} (h : 0 < n) :
    ∃ first rest, Nat.toDigits 10 n = first :: rest ∧ (∀ c ∈ first :: rest, c.isDigit = true) ∧
      first.toNat - '0'.toNat ≠ 0 ∧ Nat.ofDigitChars 10 rest (first.toNat - '0'.toNat) = n := by
  have hdigits : ∀ c ∈ Nat.toDigits 10 n, c.isDigit = true :=
    fun c hmem => Nat.isDigit_of_mem_toDigits (by decide) (by decide) hmem
  have hvalue : Nat.ofDigitChars 10 (Nat.toDigits 10 n) 0 = n := Nat.ofDigitChars_ten_toDigits
  have hhead := head?_toDigits_ne_zero h
  cases hsplit : Nat.toDigits 10 n with
  | nil => exact absurd hsplit Nat.toDigits_ne_nil
  | cons first rest =>
    rw [hsplit] at hdigits hvalue hhead
    rw [Nat.ofDigitChars_cons, Nat.mul_zero, Nat.zero_add] at hvalue
    refine ⟨first, rest, rfl, hdigits, fun hzero => ?_, hvalue⟩
    have hlow : '0'.toNat ≤ first.toNat := (toNat_of_isDigit (hdigits first List.mem_cons_self)).1
    have heq : first.toNat = '0'.toNat := Nat.le_antisymm (Nat.sub_eq_zero_iff_le.mp hzero) hlow
    exact hhead (congrArg some (Char.toNat_inj.mp heq))

/-- A number is read back from its decimal digits. -/
theorem digits?_ofString_repr (n : Nat) : (ofString n.repr).digits? = some n := by
  rcases Nat.eq_zero_or_pos n with rfl | hpos
  · rfl
  obtain ⟨first, rest, hsplit, hdigits, hlead, hvalue⟩ := exists_toDigits_eq_cons hpos
  obtain ⟨value, hfirst⟩ := Nat.exists_eq_succ_of_ne_zero hlead
  simp only [ofString_repr, digits?, List.mapM_map, Function.comp_def, hsplit]
  rw [mapM_eq_some (f := fun c => c.toNat - '0'.toNat) fun c hmem => if_pos (hdigits c hmem),
    List.map_cons, hfirst]
  refine congrArg some (Eq.trans ?_ hvalue)
  rw [hfirst, Nat.ofDigitChars, List.foldl_cons, List.foldl_map, Nat.mul_zero, Nat.zero_add]

end Written

end Quorum.Json
