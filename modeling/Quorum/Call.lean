import Quorum.Manager

namespace Quorum

/-- What a caller wants. -/
inductive Demand where
  | submit (invocation : Invocation) (operation : Operation)
  | query (operation : Operation) (policy : QueryPolicy)
  deriving DecidableEq

/-- Whether the demand may be made again if its outcome is not known. -/
def Demand.isRetryable : Demand → Bool
  | .submit invocation operation => Quorum.isRetryable invocation operation
  | .query _ _ => true

/-- Whom a caller asks. -/
inductive Route where
  | worker (inbox : InboxId)
  | member (member : MemberId)
  /-- Member after member, as hints and failures suggest, until a deadline. -/
  | leader (member : MemberId) (deadline : Nat)

/-- How far a call is. -/
inductive CallState where
  | waiting (ticket : Ticket) (deadline : Nat)
  /-- The call is committed and waits in a replica's queue, without a deadline. -/
  | parked (ticket : Ticket)
  /-- The caller waits before it asks the next member. -/
  | pausing (wake : Nat)
  | done (outcome : Outcome)
  | failed (error : ClusterError)
  deriving DecidableEq

/-- A request of a caller. It asks one worker, or follows the hints of the members it asks until one
    of them leads. It is made again only where that is safe: if it was refused before it reached the
    log, or if a repetition would be recognised as the same call. -/
structure Call where
  group : GroupId
  demand : Demand
  route : Route
  state : CallState

/-- How long a caller waits before it asks another member, or looks for a leader again. -/
def pollInterval : Nat := 20

/-- The member after a given one, in a circle. One that is not among them counts as the first. -/
def nextMember (members : List MemberId) (member : MemberId) : Option MemberId :=
  members[((members.idxOf? member).getD 0 + 1) % members.length]?

/-- Whom to ask next after an outcome, if asking again is safe and may help. -/
def retryTarget (members : List MemberId) (asked : MemberId) : Outcome → Option MemberId
  | .failed (.notLeader (some leader)) => some leader
  | .failed .noLeaderElected => nextMember members asked
  | .indeterminate true => some asked
  | _ => none

namespace Call

/-- Whether a call waits for a ticket. -/
def holds (call : Call) (ticket : Ticket) : Bool :=
  match call.state with
  | .waiting held _ | .parked held => held = ticket
  | _ => false

/-- How a call goes on after the outcome of a request. -/
def conclude (call : Call) (members : List MemberId) (clock : Nat) (outcome : Outcome) : Call :=
  match call.route with
  | .leader asked deadline =>
    match retryTarget members asked outcome with
    | some next =>
      if clock < deadline then
        { call with route := .leader next deadline, state := .pausing (clock + pollInterval) }
      else { call with state := .done outcome }
    | none => { call with state := .done outcome }
  | _ => { call with state := .done outcome }

/-- How a call goes on if nothing was heard of a request. -/
def giveUp (call : Call) (members : List MemberId) (clock : Nat) : Call :=
  call.conclude members clock (.indeterminate call.demand.isRetryable)

/-- How a call goes on after a receipt. -/
def note (call : Call) (members : List MemberId) (clock : Nat) : Receipt → Call
  | .outcome outcome => call.conclude members clock outcome
  | .parked =>
    match call.state with
    | .waiting ticket _ => { call with state := .parked ticket }
    | _ => call
  | .abandoned => call.giveUp members clock

/-- What a call came to, if it has ended. -/
def result? (call : Call) : Option (Except ClusterError Outcome) :=
  match call.state with
  | .done outcome => some (.ok outcome)
  | .failed error => some (.error error)
  | _ => none

/-- Whether a call waits in a replica's queue. -/
def isParked (call : Call) : Bool :=
  match call.state with
  | .parked _ => true
  | _ => false

/-- When a call acts by itself. -/
def timer? (call : Call) : Option Nat :=
  match call.state with
  | .waiting _ time | .pausing time => some time
  | _ => none

end Call

end Quorum
