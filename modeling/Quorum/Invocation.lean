import Quorum.SortedMap

namespace Quorum

abbrev SessionId := UInt64

abbrev ThreadId := UInt64

/-- A token chosen by the client that identifies one logical call across its retries. -/
structure InvocationUid where
  bits : BitVec 128
  deriving DecidableEq, Inhabited

namespace InvocationUid

def ofNat (n : Nat) : InvocationUid := ⟨BitVec.ofNat 128 n⟩

def toNat (uid : InvocationUid) : Nat := uid.bits.toNat

/-- Tokens with the same number are the same. -/
theorem toNat_inj {a b : InvocationUid} : a.toNat = b.toNat ↔ a = b := by
  cases a
  cases b
  simp [toNat, BitVec.toNat_inj]

instance : Key InvocationUid where
  before a b := decide (a.toNat < b.toNat)
  irrefl := by simp
  trans a b c := by simpa using Nat.lt_trans
  connected a b := by
    simpa using fun h h' => toNat_inj.mp (Nat.le_antisymm h' h)

/-- The written form: 32 lower-case hexadecimal digits. -/
def toText (uid : InvocationUid) : String :=
  let digits := Nat.toDigits 16 uid.toNat
  String.ofList (List.replicate (32 - digits.length) '0' ++ digits)

end InvocationUid

/-- Caller identity attached to an operation. -/
structure Invocation where
  session : Option SessionId := none
  thread : Option ThreadId := none
  uid : Option InvocationUid := none
  deriving DecidableEq, Inhabited

namespace Invocation

/-- A call under no session and with no token. -/
def anonymous : Invocation := {}

/-- Whether a retry is recognised as the same call: it names its session and its token. -/
def isRetrySafe (invocation : Invocation) : Bool :=
  invocation.session.isSome && invocation.uid.isSome

end Invocation

end Quorum
