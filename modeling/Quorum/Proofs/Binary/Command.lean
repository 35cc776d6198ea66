import Quorum.Binary.Command
import Quorum.Proofs.Binary.Reader

namespace Quorum

open Binary

namespace InvocationUid

/-- A token takes sixteen bytes. -/
theorem codec : FixedCodec write read :=
  .of_nat (fun uid => uid.bits.isLt) (fun uid => congrArg mk (BitVec.ofNat_toNat 128 uid.bits))
    fun _ hlt => Nat.mod_eq_of_lt hlt

end InvocationUid

namespace Invocation

/-- The identity of a caller is read back from what was written. -/
theorem codec : FixedCodec write read := by
  intro bytes invocation rest
  have hnumber := uint64_codec.fixed_option
  have huid := InvocationUid.codec.fixed_option
  constructor
  · intro hread
    obtain ⟨session, left, -, rfl, hthread⟩ := hnumber.bind_eq_ok.mp hread
    obtain ⟨thread, left, -, rfl, hlast⟩ := hnumber.bind_eq_ok.mp hthread
    obtain ⟨uid, rfl, -, rfl⟩ := huid.map_eq_ok.mp hlast
    exact ⟨fits_nil, by simp only [write, List.append_assoc]⟩
  · rintro ⟨-, rfl⟩
    simp only [write, List.append_assoc]
    exact hnumber.bind_write fits_nil (hnumber.bind_write fits_nil (huid.map_write fits_nil))

end Invocation

namespace ObjectKind

/-- A kind of object is read back from what was written. -/
theorem codec : FixedCodec write read := by
  intro bytes kind rest
  rw [read, variant_bind_eq_ok (by decide)]
  constructor
  · rintro ⟨index, left, rfl, hread⟩
    match index, hread with
    | 0, hread | 1, hread | 2, hread =>
      obtain ⟨rfl, rfl⟩ := pure_eq_ok.mp hread
      exact ⟨fits_nil, rfl⟩
  · rintro ⟨-, rfl⟩
    cases kind with
    | atomicRef => exact ⟨0, rest, rfl, pure_eq_ok.mpr ⟨rfl, rfl⟩⟩
    | semaphore => exact ⟨1, rest, rfl, pure_eq_ok.mpr ⟨rfl, rfl⟩⟩
    | latch => exact ⟨2, rest, rfl, pure_eq_ok.mpr ⟨rfl, rfl⟩⟩

end ObjectKind

namespace SessionOp

def lengths : SessionOp → List Nat
  | .create endpoint => [endpoint.utf8ByteSize]
  | _ => []

/-- A session operation is read back from what was written, if its text is not too long. -/
theorem codec : Codec write read lengths := by
  intro bytes op rest
  rw [read, variant_bind_eq_ok (by decide)]
  constructor
  · rintro ⟨index, left, rfl, hread⟩
    match index, hread with
    | 0, hread =>
      obtain ⟨endpoint, rfl, hfits, rfl⟩ := text_codec.map_eq_ok.mp hread
      exact ⟨hfits, (List.append_assoc ..).symm⟩
    | 1, hread | 2, hread =>
      obtain ⟨session, rfl, -, rfl⟩ := uint64_codec.map_eq_ok.mp hread
      exact ⟨fits_nil, (List.append_assoc ..).symm⟩
    | 3, hread =>
      obtain ⟨rfl, rfl⟩ := pure_eq_ok.mp hread
      exact ⟨fits_nil, rfl⟩
  · rintro ⟨hfits, rfl⟩
    cases op with
    | create endpoint =>
      exact ⟨0, _, List.append_assoc .., text_codec.map_write hfits⟩
    | heartbeat session =>
      exact ⟨1, _, List.append_assoc .., uint64_codec.map_write fits_nil⟩
    | close session =>
      exact ⟨2, _, List.append_assoc .., uint64_codec.map_write fits_nil⟩
    | generateThreadId => exact ⟨3, rest, rfl, pure_eq_ok.mpr ⟨rfl, rfl⟩⟩

end SessionOp

/-- A blob is read back from what was written, if it is not too long. -/
theorem Blob.codec : Codec Blob.write Blob.read fun content => [content.length] :=
  byte_codec.list

namespace AtomicRefOp

/-- The lengths that stand in the form of an optional content. -/
def contentLengths (content : Option Blob) : List Nat := content.elim [] fun bytes => [bytes.length]

def lengths : AtomicRefOp → List Nat
  | .get => []
  | .set value | .getAndSet value | .contains value => contentLengths value
  | .compareAndSet expected new => contentLengths expected ++ contentLengths new

theorem content_codec :
    Codec (writeOption Blob.write) (readOption Blob.read) contentLengths :=
  Blob.codec.option

/-- An operation on a reference is read back from what was written, if its blobs are not too
    long. -/
theorem codec : Codec write read lengths := by
  intro bytes op rest
  rw [read, variant_bind_eq_ok (by decide)]
  constructor
  · rintro ⟨index, left, rfl, hread⟩
    match index, hread with
    | 0, hread =>
      obtain ⟨rfl, rfl⟩ := pure_eq_ok.mp hread
      exact ⟨fits_nil, rfl⟩
    | 1, hread | 2, hread | 4, hread =>
      obtain ⟨value, rfl, hfits, rfl⟩ := content_codec.map_eq_ok.mp hread
      exact ⟨hfits, (List.append_assoc ..).symm⟩
    | 3, hread =>
      obtain ⟨expected, left, hexpected, rfl, hnext⟩ := content_codec.bind_eq_ok.mp hread
      obtain ⟨new, rfl, hnew, rfl⟩ := content_codec.map_eq_ok.mp hnext
      exact ⟨fits_append.mpr ⟨hexpected, hnew⟩, by simp only [write, List.append_assoc]; rfl⟩
  · rintro ⟨hfits, rfl⟩
    cases op with
    | get => exact ⟨0, rest, rfl, pure_eq_ok.mpr ⟨rfl, rfl⟩⟩
    | set value =>
      exact ⟨1, _, List.append_assoc .., content_codec.map_write hfits⟩
    | getAndSet value =>
      exact ⟨2, _, List.append_assoc .., content_codec.map_write hfits⟩
    | compareAndSet expected new =>
      obtain ⟨hexpected, hnew⟩ := fits_append.mp hfits
      simp only [write, List.append_assoc]
      exact ⟨3, _, rfl, content_codec.bind_write hexpected (content_codec.map_write hnew)⟩
    | contains value =>
      exact ⟨4, _, List.append_assoc .., content_codec.map_write hfits⟩

end AtomicRefOp

namespace SemaphoreOp

/-- A semaphore operation is read back from what was written. -/
theorem codec : FixedCodec write read := by
  intro bytes op rest
  have htimeout := uint64_codec.fixed_option
  rw [read, variant_bind_eq_ok (by decide)]
  constructor
  · rintro ⟨index, left, rfl, hread⟩
    match index, hread with
    | 0, hread | 2, hread | 4, hread | 5, hread =>
      obtain ⟨permits, rfl, -, rfl⟩ := uint32_codec.map_eq_ok.mp hread
      exact ⟨fits_nil, (List.append_assoc ..).symm⟩
    | 1, hread =>
      obtain ⟨permits, left, -, rfl, hnext⟩ := uint32_codec.bind_eq_ok.mp hread
      obtain ⟨timeout, rfl, -, rfl⟩ := htimeout.map_eq_ok.mp hnext
      exact ⟨fits_nil, by simp only [write, List.append_assoc]; rfl⟩
    | 3, hread | 6, hread =>
      obtain ⟨rfl, rfl⟩ := pure_eq_ok.mp hread
      exact ⟨fits_nil, rfl⟩
  · rintro ⟨-, rfl⟩
    cases op with
    | init permits => exact ⟨0, _, List.append_assoc .., uint32_codec.map_write fits_nil⟩
    | acquire permits timeout =>
      simp only [write, List.append_assoc]
      exact ⟨1, _, rfl, uint32_codec.bind_write fits_nil (htimeout.map_write fits_nil)⟩
    | release permits => exact ⟨2, _, List.append_assoc .., uint32_codec.map_write fits_nil⟩
    | drain => exact ⟨3, rest, rfl, pure_eq_ok.mpr ⟨rfl, rfl⟩⟩
    | increase permits => exact ⟨4, _, List.append_assoc .., uint32_codec.map_write fits_nil⟩
    | reduce permits => exact ⟨5, _, List.append_assoc .., uint32_codec.map_write fits_nil⟩
    | availablePermits => exact ⟨6, rest, rfl, pure_eq_ok.mpr ⟨rfl, rfl⟩⟩

end SemaphoreOp

namespace LatchOp

/-- A latch operation is read back from what was written. -/
theorem codec : FixedCodec write read := by
  intro bytes op rest
  have htimeout := uint64_codec.fixed_option
  rw [read, variant_bind_eq_ok (by decide)]
  constructor
  · rintro ⟨index, left, rfl, hread⟩
    match index, hread with
    | 0, hread | 3, hread | 4, hread =>
      obtain ⟨rfl, rfl⟩ := pure_eq_ok.mp hread
      exact ⟨fits_nil, rfl⟩
    | 1, hread =>
      obtain ⟨count, rfl, -, rfl⟩ := uint32_codec.map_eq_ok.mp hread
      exact ⟨fits_nil, (List.append_assoc ..).symm⟩
    | 2, hread =>
      obtain ⟨timeout, rfl, -, rfl⟩ := htimeout.map_eq_ok.mp hread
      exact ⟨fits_nil, (List.append_assoc ..).symm⟩
  · rintro ⟨-, rfl⟩
    cases op with
    | countDown => exact ⟨0, rest, rfl, pure_eq_ok.mpr ⟨rfl, rfl⟩⟩
    | trySetCount count =>
      exact ⟨1, _, List.append_assoc .., uint32_codec.map_write fits_nil⟩
    | await timeout => exact ⟨2, _, List.append_assoc .., htimeout.map_write fits_nil⟩
    | getCount => exact ⟨3, rest, rfl, pure_eq_ok.mpr ⟨rfl, rfl⟩⟩
    | getRound => exact ⟨4, rest, rfl, pure_eq_ok.mpr ⟨rfl, rfl⟩⟩

end LatchOp

namespace Operation

/-- The lengths that stand in the form of an operation. -/
def lengths : Operation → List Nat
  | .session op => op.lengths
  | .atomicRef name op => [name.utf8ByteSize] ++ op.lengths
  | .semaphore name _ | .latch name _ | .destroy _ name => [name.utf8ByteSize]
  | .expireSessions sessions => [sessions.length]
  | .expireWaitKeys keys => [keys.length]

theorem pair_codec :
    FixedCodec (fun pair => writeUInt64 pair.1 ++ writeUInt64 pair.2) readPair := by
  intro bytes pair rest
  constructor
  · intro hread
    obtain ⟨session, left, -, rfl, hversion⟩ := uint64_codec.bind_eq_ok.mp hread
    obtain ⟨version, rfl, -, rfl⟩ := uint64_codec.map_eq_ok.mp hversion
    exact ⟨fits_nil, (List.append_assoc ..).symm⟩
  · rintro ⟨-, rfl⟩
    rw [List.append_assoc]
    exact uint64_codec.bind_write fits_nil (uint64_codec.map_write fits_nil)

/-- An operation is read back from what was written, if its texts, blobs and lists are not too
    long. -/
theorem codec : Codec write read lengths := by
  intro bytes operation rest
  have hpairs := pair_codec.list
  have hkeys := InvocationUid.codec.list
  rw [read, variant_bind_eq_ok (by decide)]
  constructor
  · rintro ⟨index, left, rfl, hread⟩
    match index, hread with
    | 0, hread =>
      obtain ⟨op, rfl, hfits, rfl⟩ := SessionOp.codec.map_eq_ok.mp hread
      exact ⟨hfits, (List.append_assoc ..).symm⟩
    | 1, hread =>
      obtain ⟨name, left, hname, rfl, hnext⟩ := text_codec.bind_eq_ok.mp hread
      obtain ⟨op, rfl, hfits, rfl⟩ := AtomicRefOp.codec.map_eq_ok.mp hnext
      exact ⟨fits_append.mpr ⟨hname, hfits⟩, by simp only [write, List.append_assoc]; rfl⟩
    | 2, hread =>
      obtain ⟨name, left, hname, rfl, hnext⟩ := text_codec.bind_eq_ok.mp hread
      obtain ⟨op, rfl, -, rfl⟩ := SemaphoreOp.codec.map_eq_ok.mp hnext
      exact ⟨hname, by simp only [write, List.append_assoc]; rfl⟩
    | 3, hread =>
      obtain ⟨name, left, hname, rfl, hnext⟩ := text_codec.bind_eq_ok.mp hread
      obtain ⟨op, rfl, -, rfl⟩ := LatchOp.codec.map_eq_ok.mp hnext
      exact ⟨hname, by simp only [write, List.append_assoc]; rfl⟩
    | 4, hread =>
      obtain ⟨kind, left, -, rfl, hnext⟩ := ObjectKind.codec.bind_eq_ok.mp hread
      obtain ⟨name, rfl, hname, rfl⟩ := text_codec.map_eq_ok.mp hnext
      exact ⟨hname, by simp only [write, List.append_assoc]; rfl⟩
    | 5, hread =>
      obtain ⟨sessions, rfl, hfits, rfl⟩ := hpairs.map_eq_ok.mp hread
      exact ⟨hfits, (List.append_assoc ..).symm⟩
    | 6, hread =>
      obtain ⟨keys, rfl, hfits, rfl⟩ := hkeys.map_eq_ok.mp hread
      exact ⟨hfits, (List.append_assoc ..).symm⟩
  · rintro ⟨hfits, rfl⟩
    cases operation with
    | session op => exact ⟨0, _, List.append_assoc .., SessionOp.codec.map_write hfits⟩
    | atomicRef name op =>
      obtain ⟨hname, hop⟩ := fits_append.mp hfits
      simp only [write, List.append_assoc]
      exact ⟨1, _, rfl, text_codec.bind_write hname (AtomicRefOp.codec.map_write hop)⟩
    | semaphore name op =>
      simp only [write, List.append_assoc]
      exact ⟨2, _, rfl, text_codec.bind_write hfits (SemaphoreOp.codec.map_write fits_nil)⟩
    | latch name op =>
      simp only [write, List.append_assoc]
      exact ⟨3, _, rfl, text_codec.bind_write hfits (LatchOp.codec.map_write fits_nil)⟩
    | destroy kind name =>
      simp only [write, List.append_assoc]
      exact ⟨4, _, rfl, ObjectKind.codec.bind_write fits_nil (text_codec.map_write hfits)⟩
    | expireSessions sessions => exact ⟨5, _, List.append_assoc .., hpairs.map_write hfits⟩
    | expireWaitKeys keys => exact ⟨6, _, List.append_assoc .., hkeys.map_write hfits⟩

end Operation

namespace Command

/-- All lengths that stand in the form of the command, of texts, contents and lists, fit their eight
    bytes. -/
def LengthsFit (command : Command) : Prop := Fits command.operation.lengths

instance (command : Command) : Decidable command.LengthsFit :=
  inferInstanceAs (Decidable (Fits _))

/-- A command is read back from what was written, if its lengths fit. -/
theorem codec : Codec encode read fun command => command.operation.lengths := by
  intro bytes command rest
  constructor
  · intro hread
    obtain ⟨invocation, left, -, rfl, hoperation⟩ := Invocation.codec.bind_eq_ok.mp hread
    obtain ⟨operation, left, hfits, rfl, hlast⟩ := Operation.codec.bind_eq_ok.mp hoperation
    obtain ⟨timestamp, rfl, -, rfl⟩ := uint64_codec.map_eq_ok.mp hlast
    exact ⟨hfits, by simp only [encode, List.append_assoc]⟩
  · rintro ⟨hfits, rfl⟩
    simp only [encode, List.append_assoc]
    exact Invocation.codec.bind_write fits_nil
      (Operation.codec.bind_write hfits (uint64_codec.map_write fits_nil))

/-- A command is decoded from its own bytes and whatever follows them, and from nothing else. -/
theorem decode_eq_ok {bytes : List UInt8} {command : Command} :
    decode bytes = .ok command ↔ command.LengthsFit ∧ command.encode <+: bytes := by
  have htaken : decode bytes = .ok command ↔ ∃ rest, read bytes = .ok (command, rest) := by
    rw [decode]
    cases read bytes with
    | error failure => exact ⟨fun h => (nomatch h), fun ⟨_, h⟩ => (nomatch h)⟩
    | ok taken =>
      constructor
      · rintro h
        cases h
        exact ⟨taken.2, rfl⟩
      · rintro ⟨rest, h⟩
        cases h
        rfl
  rw [htaken]
  constructor
  · rintro ⟨rest, hread⟩
    obtain ⟨hfits, rfl⟩ := (codec _ _ _).mp hread
    exact ⟨hfits, rest, rfl⟩
  · rintro ⟨hfits, rest, rfl⟩
    exact ⟨rest, (codec _ _ _).mpr ⟨hfits, rfl⟩⟩

/-- What a command is logged as reads back, whatever follows it, and whatever reads as the command
    starts with that. No other command is logged as a part of it from its start, in particular none
    as the same. Lengths take eight bytes, so this is about commands whose lengths fit there, and
    only these are ever read. -/
theorem decode_encode_append (command : Command) :
    (∀ rest, decode (command.encode ++ rest) = .ok command ↔ command.LengthsFit) ∧
      (∀ bytes, decode bytes = .ok command → command.LengthsFit ∧ command.encode <+: bytes) ∧
      ∀ other : Command, command.LengthsFit → other.LengthsFit →
        other.encode <+: command.encode → other = command := by
  refine ⟨fun rest => ?_, fun bytes => decode_eq_ok.mp, fun other hfits hother hprefix => ?_⟩
  · rw [decode_eq_ok]
    exact and_iff_left (List.prefix_append _ _)
  · have hown : decode command.encode = .ok command := decode_eq_ok.mpr ⟨hfits, List.prefix_rfl⟩
    have hsame : decode command.encode = .ok other := decode_eq_ok.mpr ⟨hother, hprefix⟩
    exact Except.ok.inj (hsame.symm.trans hown)

/-- A proposal to set a content only if there is none, and a byte behind it. -/
theorem decode_encode_append_compareAndSet :
    let command : Command :=
      { invocation := { session := some 5, uid := some (.ofNat (2 ^ 127)) }
        operation := .atomicRef "é" (.compareAndSet none (some [0, 255])), timestamp := 300 }
    decode (command.encode ++ [7]) = .ok command ∧
      command.operation.write =
        [1, 0, 0, 0, 2, 0, 0, 0, 0, 0, 0, 0, 195, 169, 3, 0, 0, 0, 0,
          1, 2, 0, 0, 0, 0, 0, 0, 0, 0, 255] ∧
      ∀ other : Command, other.LengthsFit → other.encode <+: command.encode → other = command := by
  intro command
  have hfits : command.LengthsFit := by decide +kernel
  obtain ⟨hreads, -, hothers⟩ := decode_encode_append command
  exact ⟨(hreads [7]).mpr hfits, by decide +kernel, fun other => hothers other hfits⟩

end Command

end Quorum
