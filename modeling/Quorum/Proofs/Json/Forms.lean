import Quorum.Json.Document
import Quorum.Proofs.Json.Form

namespace Quorum

open Json

section Fields

variable {α : Type} (read? : Json → Option α) (json : Json)

@[simp] theorem Json.required_some : required read? (some json) = read? json := rfl

@[simp] theorem Json.optional_some : optional read? (some json) = option? read? json := rfl

@[simp] theorem Json.withDefault_some (fallback : α) :
    withDefault read? fallback (some json) = read? json := rfl

end Fields

@[simp] theorem Json.bare_none {α : Type} (value : α) : bare value none = some value := rfl

/-- A form with one field of its own is read back from an object with that field. -/
@[simp] theorem Json.single?_record (name : String) (content : Json) :
    single? name (some (record [(name, content)])) = some (some content) := by
  simp [single?, fields?_record]

/-- Optional numbers are written faithfully. -/
theorem Json.faithful_option_uint64 : Faithful (ofOption ofUInt64) (option? uint64?) :=
  faithful_uint64.option fun _ => nofun

/-- Optional texts are written faithfully. -/
theorem Json.faithful_option_string : Faithful (ofOption ofString) (option? string?) :=
  faithful_string.option fun _ => nofun

/-- Tokens are written faithfully, as numbers. -/
theorem InvocationUid.faithful : Faithful toJson ofJson? where
  writable _ := writable_number _
  read uid := by
    have hread : (Json.ofNat uid.toNat).nat? (Nat.pow 2 128) = some uid.toNat :=
      nat?_ofNat uid.bits.isLt
    have hvalue : InvocationUid.ofNat uid.toNat = uid :=
      toNat_inj.mp (Nat.mod_eq_of_lt uid.bits.isLt)
    rw [ofJson?, toJson, hread, Option.map_some, hvalue]

/-- Optional tokens are written faithfully. -/
theorem InvocationUid.faithful_option : Faithful (ofOption toJson) (option? ofJson?) :=
  faithful.option fun _ => nofun

/-- The identities of callers are written faithfully. -/
theorem Invocation.faithful : Faithful toJson ofJson? where
  writable invocation := by
    simp [toJson, faithful_option_uint64.writable, InvocationUid.faithful_option.writable]
  read invocation := by
    simp [toJson, ofJson?, fields?_record, faithful_option_uint64.read,
      InvocationUid.faithful_option.read]

/-- Group ids are written faithfully. -/
theorem GroupId.faithful : Faithful toJson ofJson? where
  writable group := by simp [toJson, faithful_uint64.writable]
  read group := by
    simp [toJson, ofJson?, fields?_record, faithful_string.read, faithful_uint64.read]

/-- Optional blobs are written faithfully. -/
theorem Blob.faithful_option : Faithful (ofOption toJson) (option? ofJson?) :=
  faithful_uint8.list.option fun _ => nofun

/-- Grants of sessions are written faithfully. -/
theorem SessionGrant.faithful : Faithful toJson ofJson? where
  writable grant := by simp [toJson, faithful_uint64.writable]
  read grant := by simp [toJson, ofJson?, fields?_record, faithful_uint64.read]

/-- Values are written faithfully. -/
theorem Value.faithful : Faithful toJson ofJson? where
  writable value := by
    cases value with
    | unit => exact writable_ofString _
    | bool flag => simp [toJson]
    | count n => simp [toJson, faithful_int64.writable]
    | blob content => simp [toJson, Blob.faithful_option.writable]
    | session grant => simp [toJson, SessionGrant.faithful.writable]
    | thread id => simp [toJson, faithful_uint64.writable]
  read value := by
    cases value with
    | unit => simp [toJson, ofJson?, alternative?_ofString]
    | bool flag => simp [toJson, ofJson?, alternative?_tagged, faithful_bool.read]
    | count n => simp [toJson, ofJson?, alternative?_tagged, faithful_int64.read]
    | blob content => simp [toJson, ofJson?, alternative?_tagged, Blob.faithful_option.read]
    | session grant => simp [toJson, ofJson?, alternative?_tagged, SessionGrant.faithful.read]
    | thread id => simp [toJson, ofJson?, alternative?_tagged, faithful_uint64.read]

/-- Optional values are written faithfully. -/
theorem Value.faithful_option : Faithful (ofOption toJson) (option? ofJson?) :=
  faithful.option fun value => by cases value <;> nofun

/-- Kinds of objects are written faithfully, by their names. -/
theorem ObjectKind.faithful : Faithful toJson ofJson? where
  writable kind := by cases kind <;> simp [toJson]
  read kind := by cases kind <;> simp [toJson, ofJson?, alternative?_ofString]

/-- Session operations are written faithfully. -/
theorem SessionOp.faithful : Faithful toJson ofJson? where
  writable op := by cases op <;> simp [toJson, faithful_uint64.writable]
  read op := by
    cases op <;> simp [toJson, ofJson?, alternative?_tagged, alternative?_ofString,
      faithful_string.read, faithful_uint64.read]

/-- Operations on references are written faithfully. -/
theorem AtomicRefOp.faithful : Faithful toJson ofJson? where
  writable op := by cases op <;> simp [toJson, Blob.faithful_option.writable]
  read op := by
    cases op <;> simp [toJson, ofJson?, alternative?_tagged, alternative?_ofString, fields?_record,
      Blob.faithful_option.read]

/-- Semaphore operations are written faithfully. -/
theorem SemaphoreOp.faithful : Faithful toJson ofJson? where
  writable op := by
    cases op <;> simp [toJson, faithful_uint32.writable, faithful_option_uint64.writable]
  read op := by
    cases op <;> simp [toJson, ofJson?, alternative?_tagged, alternative?_ofString, fields?_record,
      faithful_uint32.read, faithful_option_uint64.read]

/-- Latch operations are written faithfully. -/
theorem LatchOp.faithful : Faithful toJson ofJson? where
  writable op := by
    cases op <;> simp [toJson, faithful_uint32.writable, faithful_option_uint64.writable]
  read op := by
    cases op <;> simp [toJson, ofJson?, alternative?_tagged, alternative?_ofString,
      faithful_uint32.read, faithful_option_uint64.read]

/-- Operations are written faithfully. -/
theorem Operation.faithful : Faithful toJson ofJson? where
  writable operation := by
    cases operation with
    | session op => simp [toJson, SessionOp.faithful.writable]
    | atomicRef name op => simp [toJson, AtomicRefOp.faithful.writable]
    | semaphore name op => simp [toJson, SemaphoreOp.faithful.writable]
    | latch name op => simp [toJson, LatchOp.faithful.writable]
    | destroy kind name => simp [toJson, ObjectKind.faithful.writable]
    | expireSessions sessions =>
      simp [toJson, (faithful_uint64.pair faithful_uint64).list.writable]
    | expireWaitKeys keys => simp [toJson, InvocationUid.faithful.list.writable]
  read operation := by
    cases operation with
    | session op => simp [toJson, ofJson?, alternative?_tagged, SessionOp.faithful.read]
    | atomicRef name op =>
      simp [toJson, ofJson?, onObject?, alternative?_tagged, fields?_record, faithful_string.read,
        AtomicRefOp.faithful.read]
    | semaphore name op =>
      simp [toJson, ofJson?, onObject?, alternative?_tagged, fields?_record, faithful_string.read,
        SemaphoreOp.faithful.read]
    | latch name op =>
      simp [toJson, ofJson?, onObject?, alternative?_tagged, fields?_record, faithful_string.read,
        LatchOp.faithful.read]
    | destroy kind name =>
      simp [toJson, ofJson?, alternative?_tagged, fields?_record, faithful_string.read,
        ObjectKind.faithful.read]
    | expireSessions sessions =>
      simp [toJson, ofJson?, alternative?_tagged, (faithful_uint64.pair faithful_uint64).list.read]
    | expireWaitKeys keys =>
      simp [toJson, ofJson?, alternative?_tagged, InvocationUid.faithful.list.read]

/-- Requests are written faithfully. -/
theorem Request.faithful : Faithful toJson ofJson? where
  writable request := by
    simp [toJson, GroupId.faithful.writable, Invocation.faithful.writable,
      Operation.faithful.writable]
  read request := by
    simp [toJson, ofJson?, fields?_record, GroupId.faithful.read, Invocation.faithful.read,
      Operation.faithful.read]

/-- Commands are written faithfully. -/
theorem Command.faithful : Faithful toJson ofJson? where
  writable command := by
    simp [toJson, Invocation.faithful.writable, Operation.faithful.writable,
      faithful_uint64.writable]
  read command := by
    simp [toJson, ofJson?, fields?_record, Invocation.faithful.read, Operation.faithful.read,
      faithful_uint64.read]

/-- Status codes are written faithfully, by their names. -/
theorem Status.faithful : Faithful toJson ofJson? where
  writable status := by cases status <;> simp [toJson]
  read status := by cases status <;> simp [toJson, ofJson?, alternative?_ofString]

/-- Responses are written faithfully. -/
theorem Response.faithful : Faithful toJson ofJson? where
  writable response := by
    simp [toJson, Status.faithful.writable, Value.faithful_option.writable,
      faithful_option_uint64.writable, faithful_option_string.writable]
  read response := by
    simp [toJson, ofJson?, fields?_record, Status.faithful.read, Value.faithful_option.read,
      faithful_option_uint64.read, faithful_option_string.read]

/-- Settings are written faithfully, though each may be left out. -/
theorem Config.faithful : Faithful toJson ofJson? where
  writable config := by simp [toJson, faithful_uint64.writable]
  read config := by
    have hfields : config.toJson.fieldsWithDefaults? ["tick_interval_ms", "election_tick",
        "heartbeat_tick", "max_inflight_msgs", "session_ttl_ms", "expiry_check_interval_ms",
        "submit_timeout_ms", "dedup_capacity_per_session", "allow_negative_permits"] = _ :=
      fields?_record rfl (by decide)
    simp [ofJson?, hfields, faithful_uint64.read, faithful_bool.read]

/-- Sessions are written faithfully. -/
theorem Session.faithful : Faithful toJson ofJson? where
  writable session := by simp [toJson, faithful_uint64.writable]
  read session := by
    simp [toJson, ofJson?, fields?_record, faithful_uint64.read, faithful_string.read]

/-- Registries of sessions are written faithfully. -/
theorem SessionRegistry.faithful : Faithful toJson ofJson? where
  writable registry := by
    simp [toJson, Session.faithful.numberMap.writable, faithful_uint64.writable]
  read registry := by
    simp [toJson, ofJson?, fields?_record, Session.faithful.numberMap.read, faithful_uint64.read]

/-- Parked awaits are written faithfully. -/
theorem AwaitWaiter.faithful : Faithful toJson ofJson? where
  writable waiter := by
    simp [toJson, InvocationUid.faithful.writable, faithful_option_uint64.writable]
  read waiter := by
    simp [toJson, ofJson?, fields?_record, InvocationUid.faithful.read,
      faithful_option_uint64.read]

/-- Latches are written faithfully. -/
theorem Latch.faithful : Faithful toJson ofJson? where
  writable latch := by
    simp [toJson, faithful_uint32.writable, faithful_uint64.writable,
      faithful_option_uint64.writable, AwaitWaiter.faithful.list.writable]
  read latch := by
    simp [toJson, ofJson?, fields?_record, faithful_uint32.read, faithful_uint64.read,
      faithful_option_uint64.read, AwaitWaiter.faithful.list.read]

/-- The latches of a replica are written faithfully. -/
theorem Latches.faithful : Faithful toJson ofJson? where
  writable latches := by simp [toJson, Latch.faithful.map.writable]
  read latches := by simp [toJson, ofJson?, Latch.faithful.map.read]

/-- Slots are written faithfully. -/
theorem AtomicRef.faithful : Faithful toJson ofJson? where
  writable slot := by simp [toJson, Blob.faithful_option.writable]
  read slot := by simp [toJson, ofJson?, Blob.faithful_option.read]

/-- The references of a replica are written faithfully. -/
theorem AtomicRefs.faithful : Faithful toJson ofJson? where
  writable refs := by simp [toJson, AtomicRef.faithful.map.writable]
  read refs := by simp [toJson, ofJson?, AtomicRef.faithful.map.read]

/-- The text of a value in a faithful form is read as the value. -/
theorem JsonForm.ofText?_toText {α : Type} [JsonForm α] (h : Faithful (write : α → Json) read?)
    (value : α) : ofText? (toText value) = some value := by
  rw [ofText?, toText, parse?_toText (h.writable value), Option.bind_some, h.read]

/-- Every request, command, operation, caller, value, answer and setting is read back from its text,
    and so are the stored sessions, latches and references, whatever strings, numbers and maps they
    are made of. -/
theorem JsonForm.text_read_back :
    (∀ request : Request, ofText? (toText request) = some request) ∧
    (∀ command : Command, ofText? (toText command) = some command) ∧
    (∀ operation : Operation, ofText? (toText operation) = some operation) ∧
    (∀ invocation : Invocation, ofText? (toText invocation) = some invocation) ∧
    (∀ value : Value, ofText? (toText value) = some value) ∧
    (∀ response : Response, ofText? (toText response) = some response) ∧
    (∀ config : Config, ofText? (toText config) = some config) ∧
    (∀ registry : SessionRegistry, ofText? (toText registry) = some registry) ∧
    (∀ latches : Latches, ofText? (toText latches) = some latches) ∧
    ∀ refs : AtomicRefs, ofText? (toText refs) = some refs :=
  ⟨ofText?_toText Request.faithful, ofText?_toText Command.faithful,
    ofText?_toText Operation.faithful, ofText?_toText Invocation.faithful,
    ofText?_toText Value.faithful, ofText?_toText Response.faithful,
    ofText?_toText Config.faithful, ofText?_toText SessionRegistry.faithful,
    ofText?_toText Latches.faithful, ofText?_toText AtomicRefs.faithful⟩

end Quorum
