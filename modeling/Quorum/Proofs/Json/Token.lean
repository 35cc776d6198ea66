import Quorum.Json.Token
import Quorum.Proofs.Json.Text

namespace Quorum.Json

namespace Piece

/-- The letter of a short escape stands for its character again. -/
theorem ofShortEscape?_of_shortEscape? {c letter : Char} (h : shortEscape? c = some letter) :
    letter ≠ 'u' ∧ ofShortEscape? letter = some c := by
  unfold shortEscape? at h
  split at h <;> cases h <;> decide

/-- Quotes and backslashes have a short escape. -/
theorem ne_of_shortEscape?_none {c : Char} (h : shortEscape? c = none) : c ≠ '"' ∧ c ≠ '\\' := by
  constructor <;> rintro rfl <;> cases h

end Piece

namespace Scan

/-- The scanner goes on from where a character leaves it. -/
theorem run_of_step {scan next : Scan} {c : Char} {more : List Token}
    (h : scan.step? c = some (next, more)) (tokens : List Token) (rest : List Char) :
    run scan tokens (c :: rest) = run next (more.reverse ++ tokens) rest := by
  rw [run, h]

/-- A hexadecimal digit is read back from its character. -/
theorem hexDigit?_digitChar {digit : Nat} (h : digit < 16) :
    hexDigit? (Nat.digitChar digit) = some digit := by
  revert digit
  decide

/-- A digit of a code is read behind those before it. -/
theorem run_inCode {digit : Nat} (h : digit < 16) (pieces : List Piece) (missing code : Nat)
    (tokens : List Token) (rest : List Char) :
    run (.inCode pieces missing code) tokens (Nat.digitChar digit :: rest) =
      if missing ≤ 1 then run (.inText (.unit (16 * code + digit) :: pieces)) tokens rest
      else run (.inCode pieces (missing - 1) (16 * code + digit)) tokens rest := by
  by_cases hlast : missing ≤ 1 <;> simp [run, step?, hexDigit?_digitChar h, hlast]

/-- The four digits of a code are read as the code. -/
theorem run_hexDigits {code : Nat} (h : code < 65536) (pieces : List Piece) (tokens : List Token)
    (rest : List Char) :
    run (.inCode pieces 4 0) tokens (Piece.hexDigits code ++ rest) =
      run (.inText (.unit code :: pieces)) tokens rest := by
  have hcode : 16 * (16 * (16 * (16 * 0 + code / 4096 % 16) + code / 256 % 16) + code / 16 % 16) +
      code % 16 = code := by
    omega
  have hlt (n : Nat) : n % 16 < 16 := Nat.mod_lt n (by decide)
  simp only [Piece.hexDigits, List.map_cons, List.map_nil, List.cons_append, List.nil_append,
    run_inCode (hlt _), hcode]
  rfl

/-- The scanner reads a piece of a string from its written form. -/
theorem run_piece {piece : Piece} (h : piece.Writable) (pieces : List Piece) (tokens : List Token)
    (rest : List Char) :
    run (.inText pieces) tokens (piece.render ++ rest) =
      run (.inText (piece :: pieces)) tokens rest := by
  cases piece with
  | unit code => exact run_hexDigits h pieces tokens rest
  | char c =>
    cases hshort : Piece.shortEscape? c with
    | some letter =>
      obtain ⟨hletter, hescape⟩ := Piece.ofShortEscape?_of_shortEscape? hshort
      have hstep :
          step? (.afterBackslash pieces) letter = some (.inText (.char c :: pieces), []) := by
        rw [step?, if_neg hletter, hescape, Option.map_some]
      simp only [Piece.render, hshort]
      exact run_of_step hstep tokens rest
    | none =>
      obtain ⟨hquote, hbackslash⟩ := Piece.ne_of_shortEscape?_none hshort
      have hplain : ¬ Piece.isControl c = true := fun hcontrol => h hcontrol hshort
      have hstep : step? (.inText pieces) c = some (.inText (.char c :: pieces), []) := by
        rw [step?, if_neg hquote, if_neg hbackslash, if_neg hplain]
      simp only [Piece.render, hshort]
      exact run_of_step hstep tokens rest

/-- The scanner reads the pieces of a string up to its closing quote. -/
theorem run_pieces {written : Written} (h : ∀ piece ∈ written, piece.Writable)
    (pieces : List Piece) (tokens : List Token) (rest : List Char) :
    run (.inText pieces) tokens (written.flatMap Piece.render ++ '"' :: rest) =
      run .between (.text (pieces.reverse ++ written) :: tokens) rest := by
  induction written generalizing pieces with
  | nil => simp [run, step?]
  | cons piece written ih =>
    rw [List.flatMap_cons, List.append_assoc, run_piece (h piece List.mem_cons_self),
      ih fun other hmem => h other (List.mem_cons_of_mem piece hmem), List.reverse_cons,
      List.append_assoc, List.singleton_append]

/-- The scanner reads a string from its written form. -/
theorem run_written {written : Written} (h : ∀ piece ∈ written, piece.Writable)
    (tokens : List Token) (rest : List Char) :
    run .between tokens (written.render ++ rest) = run .between (.text written :: tokens) rest := by
  have hquote : written.render ++ rest = '"' :: (written.flatMap Piece.render ++ '"' :: rest) := by
    simp [Written.render]
  rw [hquote]
  exact run_pieces h [] tokens rest

/-- Where the scanner stands after the digits of a number. -/
def afterNumber : Number → Scan
  | .whole negative magnitude =>
    if magnitude = 0 then .afterZero negative else .inWhole negative magnitude
  | .fractional => .inFraction

theorem complete?_afterNumber (value : Number) :
    complete? (afterNumber value) = some [.number value] := by
  cases value with
  | fractional => rfl
  | whole negative magnitude =>
    by_cases hzero : magnitude = 0 <;> simp [afterNumber, complete?, hzero]

theorem digit?_of_isDigit {c : Char} (h : c.isDigit = true) :
    digit? c = some (c.toNat - '0'.toNat) := if_pos h

/-- The scanner reads digits as the number that they make up. -/
theorem run_digits {digits : List Char} (h : ∀ c ∈ digits, c.isDigit = true) (negative : Bool)
    (magnitude : Nat) (tokens : List Token) (rest : List Char) :
    run (.inWhole negative magnitude) tokens (digits ++ rest) =
      run (.inWhole negative (Nat.ofDigitChars 10 digits magnitude)) tokens rest := by
  induction digits generalizing magnitude with
  | nil => rw [Nat.ofDigitChars_nil, List.nil_append]
  | cons c digits ih =>
    have hstep : step? (.inWhole negative magnitude) c =
        some (.inWhole negative (10 * magnitude + (c.toNat - '0'.toNat)), []) := by
      rw [step?, digit?_of_isDigit (h c List.mem_cons_self)]
    rw [List.cons_append, run_of_step hstep, Nat.ofDigitChars_cons]
    exact ih (fun other hmem => h other (List.mem_cons_of_mem c hmem)) _

/-- A digit other than zero begins a number. -/
theorem begin?_of_isDigit {c : Char} (h : c.isDigit = true) (hlead : c.toNat - '0'.toNat ≠ 0) :
    begin? c = some (.inWhole false (c.toNat - '0'.toNat), []) := by
  have hdigit := Written.toNat_of_isDigit h
  have hspace : ¬ isSpace c = true := by
    intro hspace
    simp only [isSpace, Bool.or_eq_true, decide_eq_true_eq] at hspace
    rcases hspace with ((rfl | rfl) | rfl) | rfl <;> exact absurd hdigit (by decide)
  rw [begin?, if_neg hspace, digit?_of_isDigit h, Option.map_some]
  all_goals
    rintro rfl
    first | exact hlead rfl | exact absurd hdigit (by decide)

/-- The scanner reads a whole number from its decimal digits. -/
theorem run_toDigits (negative : Bool) (magnitude : Nat) (tokens : List Token)
    (rest : List Char) :
    run (if negative then .afterMinus else .between) tokens (Nat.toDigits 10 magnitude ++ rest) =
      run (afterNumber (.whole negative magnitude)) tokens rest := by
  rcases Nat.eq_zero_or_pos magnitude with rfl | hpos
  · cases negative <;> rfl
  obtain ⟨first, others, hsplit, hdigits, hlead, hvalue⟩ := Written.exists_toDigits_eq_cons hpos
  have hfirst : first.isDigit = true := hdigits first List.mem_cons_self
  have hstep : step? (if negative then .afterMinus else .between) first =
      some (.inWhole negative (first.toNat - '0'.toNat), []) := by
    cases negative with
    | false => exact begin?_of_isDigit hfirst hlead
    | true =>
      show (digit? first).map _ = _
      rw [digit?_of_isDigit hfirst, Option.map_some, if_neg hlead]
  have hrest := run_digits (fun c hmem => hdigits c (List.mem_cons_of_mem first hmem)) negative
    (first.toNat - '0'.toNat) tokens rest
  rw [hvalue] at hrest
  rw [hsplit, List.cons_append, run_of_step hstep, afterNumber, if_neg (Nat.ne_of_gt hpos)]
  exact hrest

/-- The scanner reads a number from its written form and waits for what ends it. -/
theorem run_number (value : Number) (tokens : List Token) (rest : List Char) :
    run .between tokens (value.render ++ rest) = run (afterNumber value) tokens rest := by
  cases value with
  | fractional => rfl
  | whole negative magnitude =>
    rw [← run_toDigits]
    cases negative <;> rfl

/-- A character that cannot belong to a number ends it. -/
theorem run_afterNumber {c : Char} (hdigit : c.isDigit = false) (hpoint : c ≠ '.')
    (hexponent : c ≠ 'e' ∧ c ≠ 'E') (value : Number) (tokens : List Token) (rest : List Char) :
    run (afterNumber value) tokens (c :: rest) =
      run .between (.number value :: tokens) (c :: rest) := by
  have hnone : digit? c = none := if_neg (by simp [hdigit])
  have hstep : step? (afterNumber value) c = endNumber? (afterNumber value) c := by
    cases value with
    | fractional => simp [afterNumber, step?, hnone, hexponent]
    | whole negative magnitude =>
      by_cases hzero : magnitude = 0 <;>
        simp [afterNumber, step?, afterWhole?, hzero, hnone, hpoint, hexponent]
  rw [run, hstep, endNumber?, complete?_afterNumber, run, step?]
  cases begin? c with
  | none => rfl
  | some begun => simp

end Scan

namespace Token

/-- A token that has a written form. -/
def Writable : Token → Prop
  | .text written => ∀ piece ∈ written, piece.Writable
  | _ => True

def isNumber : Token → Bool
  | .number _ => true
  | _ => false

/-- Two tokens that may stand next to each other. -/
def Apart (first second : Token) : Prop := first.isNumber = false ∨ second.isNumber = false

/-- What is no number does not begin like the rest of one. -/
theorem render_head {token : Token} (h : token.isNumber = false) :
    ∃ c rest, token.render = c :: rest ∧ c.isDigit = false ∧ c ≠ '.' ∧ c ≠ 'e' ∧ c ≠ 'E' := by
  cases token with
  | number value => cases h
  | bool flag => cases flag <;> exact ⟨_, _, rfl, by decide⟩
  | _ => exact ⟨_, _, rfl, by decide⟩

end Token

namespace Scan

/-- The scanner reads a token from its written form. -/
theorem run_token {token : Token} (h : token.Writable) (hnumber : token.isNumber = false)
    (tokens : List Token) (rest : List Char) :
    run .between tokens (token.render ++ rest) = run .between (token :: tokens) rest := by
  cases token with
  | number value => cases hnumber
  | text written => exact run_written h tokens rest
  | bool flag => cases flag <;> rfl
  | _ => rfl

/-- The scanner reads tokens that stand apart from their written forms. -/
theorem run_tokens {tokens : List Token} (hwritable : ∀ token ∈ tokens, token.Writable)
    (hapart : tokens.IsChain Token.Apart) (done : List Token) :
    run .between done (tokens.flatMap Token.render) = some (done.reverse ++ tokens) := by
  induction tokens generalizing done with
  | nil => simp [run, complete?]
  | cons token rest ih =>
    have hrest := ih (fun other hmem => hwritable other (List.mem_cons_of_mem token hmem))
      hapart.of_cons (token :: done)
    rw [List.reverse_cons, List.append_assoc, List.singleton_append] at hrest
    rw [List.flatMap_cons]
    cases token with
    | number value =>
      rw [Token.render, run_number]
      cases rest with
      | nil => simp [run, complete?_afterNumber]
      | cons next others =>
        have hnext : next.isNumber = false := by
          rcases (List.isChain_cons_cons.mp hapart).1 with hfirst | hnext
          · cases hfirst
          · exact hnext
        obtain ⟨c, text, hrender, hdigit, hpoint, hexponent⟩ := Token.render_head hnext
        rw [List.flatMap_cons, hrender, List.cons_append] at hrest ⊢
        rw [run_afterNumber hdigit hpoint hexponent, hrest]
    | _ =>
      rw [run_token (hwritable _ List.mem_cons_self) rfl]
      exact hrest

end Scan

/-- What tokens are written as is read back, if no two numbers stand next to each other. -/
theorem tokens?_ofList_render {tokens : List Token} (hwritable : ∀ token ∈ tokens, token.Writable)
    (hapart : tokens.IsChain Token.Apart) :
    tokens? (String.ofList (tokens.flatMap Token.render)) = some tokens := by
  rw [tokens?, String.toList_ofList]
  exact Scan.run_tokens hwritable hapart []

end Quorum.Json
