import Quorum.Consensus.StoredLog

namespace Quorum.Consensus

/-- Bytes that tell reads apart. -/
abbrev ReadContext := List UInt8

/-- A refusal of entries: where the logs may agree, and the term there. -/
structure Rejection where
  hint : Nat := 0
  term : Nat := 0
  deriving DecidableEq

inductive Body where
  /-- A reminder of the member's own clock, which is never sent. -/
  | reminder
  /-- Data for the leader to append to the log. -/
  | propose (entries : List (List UInt8))
  /-- Entries that follow the place at `index`, whose term is `term`. -/
  | append (index term commit : Nat) (entries : List Entry)
  | appendResponse (index commit : Nat) (rejection : Option Rejection)
  /-- Asks for a vote, or with `ahead` whether one would be given. The log of the candidate ends
      at `index` with `term`; `transfer` if the leader asked it to take over. -/
  | voteRequest (ahead : Bool) (index term : Nat) (commit : Nat × Nat) (transfer : Bool)
  | voteResponse (ahead : Bool) (granted : Bool) (commit : Nat × Nat)
  | snapshot (snapshot : Snapshot)
  | heartbeat (commit : Nat) (context : Option ReadContext)
  | heartbeatResponse (commit : Nat) (context : Option ReadContext)
  /-- The source wants to take over. -/
  | transferLeader
  /-- The leader tells the target to campaign at once. -/
  | timeoutNow
  | readIndex (contexts : List ReadContext)
  | readIndexResponse (index : Nat) (contexts : List ReadContext)
  deriving DecidableEq

structure Message where
  source : Option MemberId
  target : Option MemberId
  /-- The sender's term; zero on what is handed on to the leader. -/
  term : Nat
  body : Body
  deriving DecidableEq

namespace Body

/-- Whether this answers something that the receiver must have sent within its group. -/
def isResponse : Body → Bool
  | .appendResponse .. | .voteResponse .. | .heartbeatResponse .. => true
  | _ => false

/-- Whether only a leader sends this. -/
def isFromLeader : Body → Bool
  | .append .. | .heartbeat .. | .snapshot _ => true
  | _ => false

/-- Whether this is part of asking ahead for votes, whose term is not the sender's. -/
def isAhead : Body → Bool
  | .voteRequest true .. => true
  | .voteResponse true true _ => true
  | _ => false

/-- Whether this keeps term zero on its way to the leader. -/
def isTermless : Body → Bool
  | .propose _ | .readIndex _ => true
  | _ => false

end Body

end Quorum.Consensus
