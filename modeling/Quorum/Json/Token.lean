import Quorum.Json.Text

namespace Quorum.Json

/-- A number. One with a fraction or an exponent is told apart but not evaluated. -/
inductive Number where
  | whole (negative : Bool) (magnitude : Nat)
  | fractional
  deriving DecidableEq

inductive Token where
  | null
  | bool (flag : Bool)
  | number (value : Number)
  | text (written : Written)
  | openArray
  | closeArray
  | openObject
  | closeObject
  | comma
  | colon
  deriving DecidableEq

/-- Where the scanner stands. Pieces of a string are kept last first. -/
inductive Scan where
  | between
  | inText (pieces : List Piece)
  | afterBackslash (pieces : List Piece)
  | inCode (pieces : List Piece) (missing : Nat) (code : Nat)
  | afterMinus
  | afterZero (negative : Bool)
  | inWhole (negative : Bool) (magnitude : Nat)
  | afterPoint
  | inFraction
  | afterExponent
  | afterExponentSign
  | inExponent
  /-- Inside one of the three words, with the letters that must follow. -/
  | inWord (missing : List Char) (token : Token)
  deriving DecidableEq

namespace Scan

def digit? (c : Char) : Option Nat :=
  if c.isDigit then some (c.toNat - '0'.toNat) else none

def hexDigit? (c : Char) : Option Nat :=
  if c.isDigit then some (c.toNat - '0'.toNat)
  else if 'a' ≤ c ∧ c ≤ 'f' then some (c.toNat - 'a'.toNat + 10)
  else if 'A' ≤ c ∧ c ≤ 'F' then some (c.toNat - 'A'.toNat + 10)
  else none

def isSpace (c : Char) : Bool := c = ' ' || c = '\t' || c = '\n' || c = '\r'

/-- The first character of a token, or the space before it. -/
def begin? (c : Char) : Option (Scan × List Token) :=
  if isSpace c then some (.between, [])
  else match c with
    | '[' => some (.between, [.openArray])
    | ']' => some (.between, [.closeArray])
    | '\x7b' => some (.between, [.openObject])
    | '\x7d' => some (.between, [.closeObject])
    | ',' => some (.between, [.comma])
    | ':' => some (.between, [.colon])
    | '"' => some (.inText [], [])
    | '-' => some (.afterMinus, [])
    | '0' => some (.afterZero false, [])
    | 't' => some (.inWord ['r', 'u', 'e'] (.bool true), [])
    | 'f' => some (.inWord ['a', 'l', 's', 'e'] (.bool false), [])
    | 'n' => some (.inWord ['u', 'l', 'l'] .null, [])
    | _ => (digit? c).map fun digit => (.inWhole false digit, [])

/-- The token that is complete where the text may end; none inside a token. -/
def complete? : Scan → Option (List Token)
  | .between => some []
  | .afterZero negative => some [.number (.whole negative 0)]
  | .inWhole negative magnitude => some [.number (.whole negative magnitude)]
  | .inFraction | .inExponent => some [.number .fractional]
  | _ => none

/-- Ends the number before a character that does not belong to it. -/
def endNumber? (scan : Scan) (c : Char) : Option (Scan × List Token) := do
  let done ← complete? scan
  let (next, tokens) ← begin? c
  return (next, done ++ tokens)

/-- What may follow the whole part of a number. -/
def afterWhole? (scan : Scan) (c : Char) : Option (Scan × List Token) :=
  if c = '.' then some (.afterPoint, [])
  else if c = 'e' ∨ c = 'E' then some (.afterExponent, [])
  else scan.endNumber? c

/-- Reads one character, and gives the tokens that end with it or before it. -/
def step? (scan : Scan) (c : Char) : Option (Scan × List Token) :=
  match scan with
  | .between => begin? c
  | .inText pieces =>
    if c = '"' then some (.between, [.text pieces.reverse])
    else if c = '\\' then some (.afterBackslash pieces, [])
    else if Piece.isControl c then none
    else some (.inText (.char c :: pieces), [])
  | .afterBackslash pieces =>
    if c = 'u' then some (.inCode pieces 4 0, [])
    else (Piece.ofShortEscape? c).map fun escaped => (.inText (.char escaped :: pieces), [])
  | .inCode pieces missing code =>
    (hexDigit? c).map fun digit =>
      let code := 16 * code + digit
      if missing ≤ 1 then (.inText (.unit code :: pieces), [])
      else (.inCode pieces (missing - 1) code, [])
  | .afterMinus =>
    (digit? c).map fun digit =>
      if digit = 0 then (.afterZero true, []) else (.inWhole true digit, [])
  | .afterZero _ => if (digit? c).isSome then none else scan.afterWhole? c
  | .inWhole negative magnitude =>
    match digit? c with
    | some digit => some (.inWhole negative (10 * magnitude + digit), [])
    | none => scan.afterWhole? c
  | .afterPoint => (digit? c).map fun _ => (.inFraction, [])
  | .inFraction =>
    if (digit? c).isSome then some (.inFraction, [])
    else if c = 'e' ∨ c = 'E' then some (.afterExponent, [])
    else scan.endNumber? c
  | .afterExponent =>
    if c = '+' ∨ c = '-' then some (.afterExponentSign, [])
    else (digit? c).map fun _ => (.inExponent, [])
  | .afterExponentSign => (digit? c).map fun _ => (.inExponent, [])
  | .inExponent =>
    if (digit? c).isSome then some (.inExponent, []) else scan.endNumber? c
  | .inWord missing token =>
    match missing with
    | [] => none
    | [last] => if c = last then some (.between, [token]) else none
    | next :: missing => if c = next then some (.inWord missing token, []) else none

/-- Reads the rest of a text; `tokens` are those read so far, last first. -/
def run (scan : Scan) (tokens : List Token) : List Char → Option (List Token)
  | [] => (complete? scan).map fun last => (last.reverse ++ tokens).reverse
  | c :: rest =>
    match scan.step? c with
    | none => none
    | some (next, more) => run next (more.reverse ++ tokens) rest

end Scan

/-- The tokens of a text; none if it is not made of tokens. -/
def tokens? (text : String) : Option (List Token) := Scan.run .between [] text.toList

def Number.render : Number → List Char
  | .whole negative magnitude =>
    let digits := Nat.toDigits 10 magnitude
    if negative then '-' :: digits else digits
  | .fractional => ['0', '.', '0']

def Token.render : Token → List Char
  | .null => ['n', 'u', 'l', 'l']
  | .bool true => ['t', 'r', 'u', 'e']
  | .bool false => ['f', 'a', 'l', 's', 'e']
  | .number value => value.render
  | .text written => written.render
  | .openArray => ['[']
  | .closeArray => [']']
  | .openObject => ['\x7b']
  | .closeObject => ['\x7d']
  | .comma => [',']
  | .colon => [':']

end Quorum.Json
