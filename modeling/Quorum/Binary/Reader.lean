namespace Quorum.Binary

/-- Why bytes are not the form of a value. -/
inductive DecodeError where
  | unexpectedEnd
  | invalidText
  /-- The byte before an optional value is neither zero nor one. -/
  | invalidTag (tag : UInt8)
  /-- There are only so many alternatives. -/
  | invalidVariant (index : Nat) (count : Nat)
  deriving DecidableEq

/-- What is wrong with the number of an alternative. -/
def DecodeError.variantDetail (index count : Nat) : String :=
  "invalid value: integer \x60" ++ toString index ++ "\x60, expected variant index 0 <= i < " ++
    toString count

/-- Takes a value from the front of the bytes that are left. -/
abbrev Reader (α : Type) := StateT (List UInt8) (Except DecodeError) α

/-- The lowest bytes of a number, least significant first. -/
def writeNat (width : Nat) (n : Nat) : List UInt8 :=
  match width with
  | 0 => []
  | width + 1 => UInt8.ofNat (n % 256) :: writeNat width (n / 256)

def readByte : Reader UInt8 := fun bytes =>
  match bytes with
  | [] => .error .unexpectedEnd
  | byte :: rest => .ok (byte, rest)

/-- A number of so many bytes. All of them must be there. -/
def readNat (width : Nat) : Reader Nat := fun bytes =>
  if width ≤ bytes.length then
    .ok ((bytes.take width).foldr (fun byte n => byte.toNat + 256 * n) 0, bytes.drop width)
  else .error .unexpectedEnd

def writeUInt32 (n : UInt32) : List UInt8 := writeNat 4 n.toNat

def readUInt32 : Reader UInt32 := do return UInt32.ofNat (← readNat 4)

def writeUInt64 (n : UInt64) : List UInt8 := writeNat 8 n.toNat

def readUInt64 : Reader UInt64 := do return UInt64.ofNat (← readNat 8)

def writeOption {α : Type} (write : α → List UInt8) : Option α → List UInt8
  | none => [0]
  | some a => 1 :: write a

def readOption {α : Type} (read : Reader α) : Reader (Option α) := do
  match ← readByte with
  | 0 => return none
  | 1 => return some (← read)
  | tag => throw (.invalidTag tag)

def writeList {α : Type} (write : α → List UInt8) (items : List α) : List UInt8 :=
  writeNat 8 items.length ++ items.flatMap write

/-- Reads so many items. -/
def readItems {α : Type} (read : Reader α) : Nat → Reader (List α)
  | 0 => return []
  | count + 1 => do
    let item ← read
    let items ← readItems read count
    return item :: items

def readList {α : Type} (read : Reader α) : Reader (List α) := do
  readItems read (← readNat 8)

def writeString (text : String) : List UInt8 :=
  let bytes := text.toUTF8.data.toList
  writeNat 8 bytes.length ++ bytes

/-- Takes so many bytes. All of them must be there. -/
def readBytes (count : Nat) : Reader (List UInt8) := fun bytes =>
  if count ≤ bytes.length then .ok (bytes.take count, bytes.drop count)
  else .error .unexpectedEnd

def readString : Reader String := do
  let bytes ← readBytes (← readNat 8)
  match String.fromUTF8? ⟨bytes.toArray⟩ with
  | some text => return text
  | none => throw .invalidText

/-- The number of an alternative. -/
def writeVariant (index : Nat) : List UInt8 := writeNat 4 index

/-- The number of one of so many alternatives. -/
def readVariant (count : Nat) : Reader (Fin count) := do
  let index ← readNat 4
  if h : index < count then return ⟨index, h⟩ else throw (.invalidVariant index count)

end Quorum.Binary
