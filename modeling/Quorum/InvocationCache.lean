import Quorum.Value

namespace Quorum

/-- A call within its session. -/
structure CallKey where
  kind : String
  uid : InvocationUid
  deriving DecidableEq

instance : Key CallKey where
  before a b := Key.before (a.kind, a.uid) (b.kind, b.uid)
  irrefl a := Key.irrefl (a.kind, a.uid)
  trans a b c := Key.trans (a.kind, a.uid) (b.kind, b.uid) (c.kind, c.uid)
  connected a b h h' := by
    have heq := Key.connected (a.kind, a.uid) (b.kind, b.uid) h h'
    cases a
    cases b
    simpa using heq

/-- The results kept for one session, and their calls in the order in which they came, the oldest
    first. -/
structure SessionResults where
  results : SortedMap CallKey Value := ∅
  order : List CallKey := []
  deriving DecidableEq

namespace SessionResults

instance : EmptyCollection SessionResults := ⟨{}⟩

def lookup (session : SessionResults) (key : CallKey) : Option Value := session.results.get? key

/-- Keeps a result. A call that has none yet comes last; one that has keeps its place. -/
def put (session : SessionResults) (key : CallKey) (value : Value) : SessionResults where
  results := session.results.insert key value
  order :=
    match session.results.get? key with
    | none => session.order ++ [key]
    | some _ => session.order

/-- Drops the oldest calls, each with its result, while there are more than the capacity. -/
def evict (capacity : Nat) (results : SortedMap CallKey Value) : List CallKey → SessionResults
  | [] => { results }
  | oldest :: order =>
    if capacity < (oldest :: order).length then evict capacity (results.erase oldest) order
    else { results, order := oldest :: order }

def trim (session : SessionResults) (capacity : Nat) : SessionResults :=
  evict capacity session.results session.order

end SessionResults

/-- Recorded results of applied calls. A retry of a call finds the result of its first application
    under its session, its kind and its token. Each session keeps a bounded number of results; the
    oldest leave first. -/
structure InvocationCache where
  sessions : SortedMap SessionId SessionResults := ∅
  capacity : Nat
  deriving DecidableEq

namespace InvocationCache

/-- A cache for so many results per session; zero counts as one. -/
def new (capacity : Nat) : InvocationCache := { capacity := max capacity 1 }

def ofSession (cache : InvocationCache) (session : SessionId) : SessionResults :=
  cache.sessions.getD session ∅

def lookup (cache : InvocationCache) (session : SessionId) (kind : String) (uid : InvocationUid) :
    Option Value :=
  (cache.ofSession session).lookup ⟨kind, uid⟩

def record (cache : InvocationCache) (session : SessionId) (kind : String) (uid : InvocationUid)
    (value : Value) : InvocationCache :=
  let results := ((cache.ofSession session).put ⟨kind, uid⟩ value).trim cache.capacity
  { cache with sessions := cache.sessions.insert session results }

/-- Forgets every result of a session. -/
def discard (cache : InvocationCache) (session : SessionId) : InvocationCache :=
  { cache with sessions := cache.sessions.erase session }

/-- The number of results kept for a session. -/
def sessionSize (cache : InvocationCache) (session : SessionId) : Nat :=
  (cache.ofSession session).results.size

end InvocationCache

end Quorum
