import Quorum.Json.Tree
import Quorum.SortedMap

namespace Quorum.Json

def ofString (text : String) : Json := .text (.ofString text)

def ofNat (n : Nat) : Json := .number (.whole false n)

def ofInt (n : Int) : Json := .number (.whole (decide (n < 0)) n.natAbs)

def ofUInt64 (n : UInt64) : Json := ofNat n.toNat

def ofOption {α : Type} (write : α → Json) : Option α → Json
  | some a => write a
  | none => .null

def ofList {α : Type} (write : α → Json) (items : List α) : Json := .array (items.map write)

/-- An object with the given members. -/
def record (members : List (String × Json)) : Json :=
  .object (members.map fun member => (.ofString member.1, member.2))

/-- An alternative with content. -/
def tagged (name : String) (content : Json) : Json := record [(name, content)]

def bool? : Json → Option Bool
  | .bool flag => some flag
  | _ => none

def string? : Json → Option String
  | .text written => written.toString?
  | _ => none

/-- A whole number below a bound, without sign. -/
def nat? (bound : Nat) : Json → Option Nat
  | .number (.whole false magnitude) => if magnitude < bound then some magnitude else none
  | _ => none

def uint64? (json : Json) : Option UInt64 := (json.nat? UInt64.size).map UInt64.ofNat

def uint32? (json : Json) : Option UInt32 := (json.nat? UInt32.size).map UInt32.ofNat

def uint8? (json : Json) : Option UInt8 := (json.nat? UInt8.size).map UInt8.ofNat

/-- A whole number of 64 bits with sign. A negative zero is no whole number. -/
def int64? : Json → Option Int64
  | .number (.whole false magnitude) =>
    if magnitude < Nat.pow 2 63 then some (magnitude : Int).toInt64 else none
  | .number (.whole true magnitude) =>
    if 0 < magnitude ∧ magnitude ≤ Nat.pow 2 63 then some (-(magnitude : Int)).toInt64 else none
  | _ => none

def option? {α : Type} (read? : Json → Option α) : Json → Option (Option α)
  | .null => some none
  | json => (read? json).map some

def list? {α : Type} (read? : Json → Option α) : Json → Option (List α)
  | .array items => items.mapM read?
  | _ => none

def pair? {α β : Type} (first? : Json → Option α) (second? : Json → Option β) :
    Json → Option (α × β)
  | .array [first, second] => do return (← first? first, ← second? second)
  | _ => none

/-- The content of a record's fields, in the order of their names; none where a field is missing. -/
abbrev Fields := List (Option Json)

/-- Sorts members by the fields they name. Other members are passed over; no field may be named
    twice, and every name must be readable. -/
def gather? (names : List String) : List (String × Json) → Option Fields
  | [] => some (names.map fun _ => none)
  | (name, content) :: rest => do
    let fields ← gather? names rest
    match names.idxOf? name with
    | none => return fields
    | some i =>
      match fields[i]? with
      | some none => return fields.set i (some content)
      | _ => none

/-- Reads the members' names. -/
def named? (members : List (Written × Json)) : Option (List (String × Json)) :=
  members.mapM fun member => do return (← member.1.toString?, member.2)

/-- The fields of a record; an array must hold all of them. -/
def fields? (names : List String) : Json → Option Fields
  | .object members => (named? members).bind (gather? names)
  | .array items => if items.length = names.length then some (items.map some) else none
  | _ => none

/-- The fields of a record whose fields all have defaults; an array may end early. -/
def fieldsWithDefaults? (names : List String) : Json → Option Fields
  | .array items =>
    if items.length ≤ names.length then
      some (items.map some ++ List.replicate (names.length - items.length) none)
    else none
  | json => fields? names json

/-- A field that must be there. -/
def required {α : Type} (read? : Json → Option α) (field : Option Json) : Option α :=
  field.bind read?

/-- An optional field; a missing one is as good as null. -/
def optional {α : Type} (read? : Json → Option α) : Option Json → Option (Option α)
  | none => some none
  | some json => option? read? json

/-- A field with a default. -/
def withDefault {α : Type} (read? : Json → Option α) (fallback : α) : Option Json → Option α
  | none => some fallback
  | some json => read? json

/-- The name of an alternative, and its content if there is one. -/
def alternative? : Json → Option (String × Option Json)
  | .text name => do return (← name.toString?, none)
  | .object [(name, content)] => do return (← name.toString?, some content)
  | _ => none

/-- Whether an alternative has no content: none is written, or null. -/
def isBare : Option Json → Bool
  | none | some .null => true
  | _ => false

/-- An alternative that has no content. -/
def bare {α : Type} (value : α) (content : Option Json) : Option α :=
  if isBare content then some value else none

/-- A map from names; of two members with one name the later counts. -/
def map? {ν : Type} (read? : Json → Option ν) : Json → Option (SortedMap String ν)
  | .object members => do
    let pairs ← members.mapM fun member => do return (← member.1.toString?, ← read? member.2)
    return SortedMap.ofList pairs
  | _ => none

/-- A map from numbers, which are written as names in plain digits. -/
def numberMap? {ν : Type} (read? : Json → Option ν) : Json → Option (SortedMap UInt64 ν)
  | .object members => do
    let pairs ← members.mapM fun member => do
      let key ← member.1.digits?
      if key < UInt64.size then return (UInt64.ofNat key, ← read? member.2) else none
    return SortedMap.ofList pairs
  | _ => none

def ofMap {ν : Type} (write : ν → Json) (map : SortedMap String ν) : Json :=
  record (map.entries.map fun entry => (entry.1, write entry.2))

def ofNumberMap {ν : Type} (write : ν → Json) (map : SortedMap UInt64 ν) : Json :=
  record (map.entries.map fun entry => (toString entry.1.toNat, write entry.2))

end Quorum.Json
