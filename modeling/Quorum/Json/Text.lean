namespace Quorum.Json

/-- A piece of a written string. -/
inductive Piece where
  /-- A character, written as itself or by its short escape. -/
  | char (c : Char)
  /-- A code unit, written by four hexadecimal digits. -/
  | unit (code : Nat)
  deriving DecidableEq

/-- A string as it is written. -/
abbrev Written := List Piece

namespace Piece

/-- The letter that stands for a character after a backslash. -/
def shortEscape? : Char → Option Char
  | '"' => some '"'
  | '\\' => some '\\'
  | '\x08' => some 'b'
  | '\x0c' => some 'f'
  | '\n' => some 'n'
  | '\r' => some 'r'
  | '\t' => some 't'
  | _ => none

/-- The character that a letter after a backslash stands for. -/
def ofShortEscape? : Char → Option Char
  | '"' => some '"'
  | '\\' => some '\\'
  | '/' => some '/'
  | 'b' => some '\x08'
  | 'f' => some '\x0c'
  | 'n' => some '\n'
  | 'r' => some '\r'
  | 't' => some '\t'
  | _ => none

/-- Control characters may not stand in a string as themselves. -/
def isControl (c : Char) : Bool := c.toNat < 0x20

/-- The standard form of a character: control characters without a short escape by their code. -/
def ofChar (c : Char) : Piece :=
  if isControl c ∧ shortEscape? c = none then .unit c.toNat else .char c

/-- Four hexadecimal digits. -/
def hexDigits (code : Nat) : List Char :=
  [code / 4096, code / 256, code / 16, code].map fun digit => Nat.digitChar (digit % 16)

/-- How a piece is written. -/
def render : Piece → List Char
  | .char c =>
    match shortEscape? c with
    | some letter => ['\\', letter]
    | none => [c]
  | .unit code => '\\' :: 'u' :: hexDigits code

end Piece

namespace Written

/-- Text in its standard form. -/
def ofString (text : String) : Written := text.toList.map Piece.ofChar

def isHighSurrogate (code : Nat) : Bool := 0xD800 ≤ code && code < 0xDC00

def isLowSurrogate (code : Nat) : Bool := 0xDC00 ≤ code && code < 0xE000

/-- The character beyond the basic plane that a pair of surrogates stands for. -/
def pairChar (high low : Nat) : Char :=
  Char.ofNat ((high - 0xD800) * 0x400 + (low - 0xDC00) + 0x10000)

/-- The characters that a written string stands for; none if a surrogate has no partner. -/
def chars? : Written → Option (List Char)
  | [] => some []
  | .char c :: rest => (chars? rest).map (c :: ·)
  | .unit code :: rest =>
    if isHighSurrogate code then
      match rest with
      | .unit low :: rest =>
        if isLowSurrogate low then (chars? rest).map (pairChar code low :: ·) else none
      | _ => none
    else if isLowSurrogate code then none
    else (chars? rest).map (Char.ofNat code :: ·)

def toString? (written : Written) : Option String := (chars? written).map String.ofList

/-- The number that a string of plain decimal digits stands for, without leading zeros. -/
def digits? (written : Written) : Option Nat :=
  let digit? : Piece → Option Nat
    | .char c => if c.isDigit then some (c.toNat - '0'.toNat) else none
    | .unit _ => none
  match written.mapM digit? with
  | none | some [] => none
  | some (0 :: _ :: _) => none
  | some digits => some (digits.foldl (fun n digit => 10 * n + digit) 0)

/-- How a written string stands in a text, with its quotes. -/
def render (written : Written) : List Char := '"' :: written.flatMap Piece.render ++ ['"']

end Written

end Quorum.Json
