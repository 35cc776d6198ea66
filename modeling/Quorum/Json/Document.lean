import Quorum.Json.Forms
import Quorum.Json.Tree

namespace Quorum

/-- A type whose values can be written as JSON and read back. -/
class JsonForm (α : Type) where
  write : α → Json
  read? : Json → Option α

instance : JsonForm AtomicRefOp := ⟨AtomicRefOp.toJson, AtomicRefOp.ofJson?⟩
instance : JsonForm SemaphoreOp := ⟨SemaphoreOp.toJson, SemaphoreOp.ofJson?⟩
instance : JsonForm LatchOp := ⟨LatchOp.toJson, LatchOp.ofJson?⟩
instance : JsonForm Operation := ⟨Operation.toJson, Operation.ofJson?⟩
instance : JsonForm Invocation := ⟨Invocation.toJson, Invocation.ofJson?⟩
instance : JsonForm GroupId := ⟨GroupId.toJson, GroupId.ofJson?⟩
instance : JsonForm Value := ⟨Value.toJson, Value.ofJson?⟩
instance : JsonForm Request := ⟨Request.toJson, Request.ofJson?⟩
instance : JsonForm Command := ⟨Command.toJson, Command.ofJson?⟩
instance : JsonForm Response := ⟨Response.toJson, Response.ofJson?⟩
instance : JsonForm QueryPolicy := ⟨QueryPolicy.toJson, QueryPolicy.ofJson?⟩
instance : JsonForm Config := ⟨Config.toJson, Config.ofJson?⟩
instance : JsonForm Session := ⟨Session.toJson, Session.ofJson?⟩
instance : JsonForm SessionRegistry := ⟨SessionRegistry.toJson, SessionRegistry.ofJson?⟩
instance : JsonForm Latches := ⟨Latches.toJson, Latches.ofJson?⟩
instance : JsonForm AtomicRefs := ⟨AtomicRefs.toJson, AtomicRefs.ofJson?⟩

namespace JsonForm

variable {α : Type} [JsonForm α]

/-- Writes a value as JSON text. -/
def toText (value : α) : String := (write value).toText

/-- Reads a value from JSON text. -/
def ofText? (text : String) : Option α := (Json.parse? text).bind read?

/-- Reads a text as a value, and writes the value. -/
def reformat? (α : Type) [JsonForm α] (text : String) : Option String :=
  (ofText? text : Option α).map toText

end JsonForm

end Quorum
