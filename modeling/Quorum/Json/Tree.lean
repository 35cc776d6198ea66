import Quorum.Json.Token

namespace Quorum

/-- A JSON document. Members keep their order and may repeat a name. -/
inductive Json where
  | null
  | bool (flag : Bool)
  | number (value : Json.Number)
  | text (written : Json.Written)
  | array (items : List Json)
  | object (members : List (Json.Written × Json))

namespace Json

mutual

/-- The tokens of a document. -/
def tokens : Json → List Token
  | .null => [.null]
  | .bool flag => [.bool flag]
  | .number value => [.number value]
  | .text written => [.text written]
  | .array items => .openArray :: itemTokens items
  | .object members => .openObject :: memberTokens members

/-- The items of an array, up to its end. -/
def itemTokens : List Json → List Token
  | [] => [.closeArray]
  | [item] => item.tokens ++ [.closeArray]
  | item :: rest => item.tokens ++ .comma :: itemTokens rest

/-- The members of an object, up to its end. -/
def memberTokens : List (Written × Json) → List Token
  | [] => [.closeObject]
  | [(name, content)] => .text name :: .colon :: content.tokens ++ [.closeObject]
  | (name, content) :: rest => .text name :: .colon :: content.tokens ++ .comma :: memberTokens rest

end

/-- A container part way through; what was read of it is kept last first. -/
inductive Frame where
  | array (items : List Json)
  | object (members : List (Written × Json)) (name : Written)

/-- What may come next. -/
inductive Expected where
  | value
  /-- The first item of an array, or its end. -/
  | firstItem
  /-- The first name of an object, or its end. -/
  | firstName
  | name
  /-- The colon after a name. -/
  | colon (name : Written)
  /-- A comma, or the end of the innermost container. -/
  | separator
  /-- Nothing: the document is complete. -/
  | nothing (document : Json)

/-- Where the reader of tokens stands. `members` holds what was read of the object whose next name
    is awaited. -/
structure Reading where
  frames : List Frame := []
  members : List (Written × Json) := []
  expected : Expected := .value

namespace Reading

/-- Gives a complete value to the innermost container. -/
def give (frames : List Frame) (value : Json) : Reading :=
  match frames with
  | [] => { expected := .nothing value }
  | .array items :: frames => { frames := .array (value :: items) :: frames, expected := .separator }
  | .object members name :: frames =>
    { frames := .object ((name, value) :: members) name :: frames, expected := .separator }

/-- Reads the first token of a value. -/
def beginValue? (frames : List Frame) : Token → Option Reading
  | .null => some (give frames .null)
  | .bool flag => some (give frames (.bool flag))
  | .number value => some (give frames (.number value))
  | .text written => some (give frames (.text written))
  | .openArray => some { frames := .array [] :: frames, expected := .firstItem }
  | .openObject => some { frames, expected := .firstName }
  | _ => none

def step? (reading : Reading) (token : Token) : Option Reading :=
  let { frames, members, expected } := reading
  match expected, token with
  | .value, _ => beginValue? frames token
  | .firstItem, .closeArray =>
    match frames with
    | .array _ :: frames => some (give frames (.array []))
    | _ => none
  | .firstItem, _ => beginValue? frames token
  | .firstName, .closeObject => some (give frames (.object []))
  | .firstName, .text name | .name, .text name =>
    some { frames, members, expected := .colon name }
  | .colon name, .colon => some { frames := .object members name :: frames, expected := .value }
  | .separator, .comma =>
    match frames with
    | .array _ :: _ => some { frames, expected := .value }
    | .object members _ :: frames => some { frames, members, expected := .name }
    | [] => none
  | .separator, .closeArray =>
    match frames with
    | .array items :: frames => some (give frames (.array items.reverse))
    | _ => none
  | .separator, .closeObject =>
    match frames with
    | .object members _ :: frames => some (give frames (.object members.reverse))
    | _ => none
  | _, _ => none

end Reading

/-- The document that a list of tokens makes up. -/
def ofTokens? (tokens : List Token) : Option Json := do
  match (← tokens.foldlM Reading.step? {}).expected with
  | .nothing document => some document
  | _ => none

/-- Reads a text that holds one document and nothing else. -/
def parse? (text : String) : Option Json := (tokens? text).bind ofTokens?

/-- Writes a document without any space. -/
def toText (document : Json) : String := String.ofList (document.tokens.flatMap Token.render)

end Json

end Quorum
