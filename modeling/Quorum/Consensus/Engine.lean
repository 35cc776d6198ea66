import Quorum.SortedMap
import Quorum.Consensus.Log
import Quorum.Consensus.Message
import Quorum.Consensus.Progress

namespace Quorum.Consensus

inductive Role where
  | follower
  | preCandidate
  | candidate
  | leader
  deriving DecidableEq

def Role.toText : Role → String
  | .follower => "Follower"
  | .preCandidate => "PreCandidate"
  | .candidate => "Candidate"
  | .leader => "Leader"

/-- A read that waits for a quorum to confirm its index. -/
structure PendingRead where
  context : ReadContext
  /-- The member that asked; none if that is this one. -/
  source : Option MemberId
  index : Nat
  acks : List MemberId
  deriving DecidableEq

/-- A read whose index a quorum has confirmed. -/
structure ReadState where
  context : ReadContext
  index : Nat
  deriving DecidableEq

/-- The state of one member of a consensus group. A member follows, campaigns or leads; each term
    has at most one leader. A campaign starts by asking ahead whether votes would be given, so that
    a member that cannot win does not raise the term. -/
structure Engine where
  settings : Settings
  role : Role := .follower
  term : Nat := 0
  vote : Option MemberId := none
  leader : Option MemberId := none
  log : Log
  /-- The voters of the group, this member included, and what is known of their logs. -/
  peers : SortedMap MemberId Progress
  /-- The votes of the present campaign. -/
  votes : SortedMap MemberId Bool := ∅
  /-- The member that this leader hands its role to. -/
  transferee : Option MemberId := none
  /-- Ticks since the last sign of a leader, or of a leader's last check of its quorum. -/
  electionElapsed : Nat := 0
  heartbeatElapsed : Nat := 0
  /-- Reads that wait for their quorum, oldest first. -/
  reads : List PendingRead := []
  confirmed : List ReadState := []
  outbox : List Message := []
  /-- The role and the leader that were last handed out. -/
  announced : Role × Option MemberId := (.follower, none)
  /-- The hard state that was last handed out. -/
  saved : HardState := {}
  /-- The index up to which decided entries were handed out. -/
  handed : Nat := 0
  deriving DecidableEq

/-- A step of the engine. -/
abbrev Action := StateT Engine Option

/-- The majority of a number of members. -/
def majority (members : Nat) : Nat := members / 2 + 1

/-- How a campaign stands. -/
inductive Tally where
  | won
  | lost
  | open
  deriving DecidableEq

/-- Counts votes. A group of nobody has no quorum to miss. -/
def Tally.of (voters : List MemberId) (vote : MemberId → Option Bool) : Tally :=
  let granted := voters.countP (fun voter => vote voter = some true)
  let missing := voters.countP (fun voter => (vote voter).isNone)
  if voters = [] ∨ majority voters.length ≤ granted then .won
  else if majority voters.length ≤ granted + missing then .open
  else .lost

namespace Engine

def id (engine : Engine) : MemberId := engine.settings.id

def voters (engine : Engine) : List MemberId := engine.peers.keys

def isLeader (engine : Engine) : Bool := engine.role = .leader

/-- Whether the member may campaign on its own. -/
def isPromotable (engine : Engine) : Bool := engine.voters.contains engine.id

def hardState (engine : Engine) : HardState where
  term := engine.term
  vote := engine.vote
  commit := engine.log.committed

def maxInflight (engine : Engine) : Nat := engine.settings.maxInflight.toNat

/-- What is known of members whose logs were not heard of. -/
def freshPeers (voters : List MemberId) (next : Nat) : SortedMap MemberId Progress :=
  SortedMap.ofList (voters.map fun voter => (voter, { next }))

/-- The engine of a member that starts with what it has stored. An id of zero names nobody. -/
def new (settings : Settings) (stored : StoredLog) : Option (Except Refusal Engine) := do
  guard (settings.id ≠ 0)
  match settings.validate with
  | .error error => return .error (.settings error)
  | .ok () =>
    if stored.base.voters.head? = some 0 then return .error .noVoters
    guard (0 ∉ stored.base.voters)
    let log := Log.ofStored stored
    let peers := (freshPeers stored.base.voters (log.lastIndex + 1)).mapValues fun voter progress =>
      if voter = settings.id then { progress with matched := log.persisted } else progress
    return .ok { settings, log, peers }

/-- Ticks without a leader after which a follower campaigns, between one election time and two. The
    last voters wait the shortest. Two members that wait equally long at one term differ at another,
    so that not every campaign of the one meets a campaign of the other. -/
def patience (engine : Engine) : Nat :=
  let base := engine.settings.electionTicks.toNat
  let rank := engine.voters.length - 1 - engine.voters.idxOf engine.id
  let digits := (Nat.toDigits base (engine.voters.length - 1)).length
  base + rank / base.pow (engine.term % digits) % base

/-- Whether the member heard of a leader within the last election time. -/
def inLease (engine : Engine) : Bool :=
  engine.settings.checkQuorum && engine.leader.isSome &&
    engine.electionElapsed < engine.settings.electionTicks.toNat

/-- Starts afresh at a term. The vote holds for its term. -/
def reset (engine : Engine) (term : Nat) : Engine :=
  { engine with
    term
    vote := if engine.term = term then engine.vote else none
    leader := none
    electionElapsed := 0
    heartbeatElapsed := 0
    transferee := none
    votes := ∅
    reads := []
    peers := engine.peers.mapValues fun peer _ =>
      { matched := if peer = engine.id then engine.log.persisted else 0
        next := engine.log.lastIndex + 1 } }

def becomeFollower (engine : Engine) (term : Nat) (leader : Option MemberId) : Engine :=
  { engine.reset term with role := .follower, leader }

/-- Campaigns at the next term, and votes for itself. -/
def becomeCandidate (engine : Engine) : Engine :=
  { engine.reset (engine.term + 1) with role := .candidate, vote := some engine.id }

/-- Asks ahead. Neither term nor vote change. -/
def becomePreCandidate (engine : Engine) : Engine :=
  { engine with role := .preCandidate, votes := ∅, leader := none }

/-- Puts a message into the outbox. -/
def post (engine : Engine) (message : Message) : Engine :=
  { engine with outbox := engine.outbox ++ [message] }

/-- Sends a message at the member's own term. -/
def send (engine : Engine) (target : Option MemberId) (body : Body) : Engine :=
  engine.post { source := some engine.id, target, term := engine.term, body }

/-- Sends a message on votes, which needs a term. -/
def sendVote (engine : Engine) (target : Option MemberId) (term : Nat) (body : Body) :
    Option Engine := do
  guard (term ≠ 0)
  return engine.post { source := some engine.id, target, term, body }

/-- Hands a message on to the leader. It must not bear a term. -/
def forward (engine : Engine) (message : Message) : Option Engine := do
  guard (message.term = 0)
  return engine.post { message with
    source := message.source.or (some engine.id)
    target := engine.leader
    term := if message.body.isTermless then 0 else engine.term }

end Engine

/-- Applies a change that always succeeds. -/
def change (f : Engine → Engine) : Action Unit := modify f

/-- Applies a change that may meet a broken assumption. -/
def attempt (f : Engine → Option Engine) : Action Unit := do set (← f (← get))

/-- Does something for each of the other members. -/
def forOthers (f : MemberId → Action Unit) : Action Unit := do
  let engine ← get
  (engine.voters.filter (· ≠ engine.id)).forM f

end Quorum.Consensus
