import Quorum.Saturating
import Quorum.SortedMap

namespace Quorum

/-- Linearizable reads in flight at a leader. A read is queued until the leader can start a round of
    confirmation for it, then waits for the quorum under the context of that round, then for the
    applied index to reach the confirmed index. -/
structure ReadQueue (α : Type) where
  nextContext : UInt64 := 1
  queued : List α := []
  /-- Reads whose round has started, by its context. -/
  unconfirmed : SortedMap UInt64 α := ∅
  /-- Reads that wait for an index to be applied, in the order of confirmation. -/
  confirmed : SortedMap UInt64 (List α) := ∅

namespace ReadQueue

variable {α : Type}

instance : EmptyCollection (ReadQueue α) := ⟨{}⟩

instance : Inhabited (ReadQueue α) := ⟨∅⟩

/-- The context of a round as it travels: eight bytes, the most significant first. -/
def contextBytes (context : UInt64) : List UInt8 :=
  ([56, 48, 40, 32, 24, 16, 8, 0] : List UInt64).map fun shift => (context >>> shift).toUInt8

/-- The context that eight bytes stand for. -/
def contextOfBytes? (bytes : List UInt8) : Option UInt64 :=
  if bytes.length = 8 then
    some (bytes.foldl (fun context byte => (context <<< 8) ||| byte.toUInt64) 0)
  else none

def push (queue : ReadQueue α) (read : α) : ReadQueue α :=
  { queue with queued := queue.queued ++ [read] }

/-- Starts a round for one read. -/
def issueOne (queue : ReadQueue α) (read : α) : ReadQueue α :=
  { queue with
    nextContext := queue.nextContext + 1
    unconfirmed := queue.unconfirmed.insert queue.nextContext read }

/-- Gives each queued read a context of its own; the caller starts a round for each. -/
def issue (queue : ReadQueue α) : List UInt64 × ReadQueue α :=
  let contexts := (List.range queue.queued.length).map fun i =>
    queue.nextContext + UInt64.ofNat i
  (contexts, queue.queued.foldl issueOne { queue with queued := [] })

/-- Records the index that a quorum confirmed. Unknown contexts are ignored. -/
def confirm (queue : ReadQueue α) (context : List UInt8) (index : UInt64) : ReadQueue α :=
  match contextOfBytes? context with
  | none => queue
  | some context =>
    match queue.unconfirmed.get? context with
    | none => queue
    | some read => { queue with
        unconfirmed := queue.unconfirmed.erase context
        confirmed := queue.confirmed.insert index (queue.confirmed.getD index [] ++ [read]) }

/-- Takes the reads whose index has been applied, by index and then by confirmation. The confirmed
    reads are cut at the index after the applied one, and those from there on go on waiting. -/
def ready (queue : ReadQueue α) (applied : UInt64) : List α × ReadQueue α :=
  let (passed, pending) := queue.confirmed.splitOff (saturatingAdd applied 1)
  (passed.values.flatten, { queue with confirmed := pending })

/-- Takes every read, of all stages. -/
def drain (queue : ReadQueue α) : List α × ReadQueue α :=
  (queue.queued ++ queue.unconfirmed.values ++ queue.confirmed.values.flatten,
    { queue with queued := [], unconfirmed := ∅, confirmed := ∅ })

def size (queue : ReadQueue α) : Nat :=
  queue.queued.length + queue.unconfirmed.size +
    queue.confirmed.total fun _ reads => reads.length

def isEmpty (queue : ReadQueue α) : Bool := queue.size == 0

end ReadQueue

end Quorum
