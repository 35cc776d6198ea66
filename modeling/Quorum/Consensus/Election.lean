import Quorum.Consensus.Replication

namespace Quorum.Consensus

/-- Takes the lead, and appends an entry without data: committing it commits all before it. -/
def becomeLeader : Action Unit := do
  change fun engine => { engine.reset engine.term with role := .leader, leader := some engine.id }
  let engine ← get
  guard (engine.log.lastIndex = engine.log.persisted)
  let own ← engine.peers.get? engine.id
  set { engine with peers := engine.peers.insert engine.id own.becomeReplicate }
  appendData [[]]

/-- Counts a vote; the first one of a member holds. -/
def countVote (voter : MemberId) (granted : Bool) : Action Tally := do
  let engine ← get
  let votes :=
    if engine.votes.contains voter then engine.votes else engine.votes.insert voter granted
  set { engine with votes }
  return Tally.of engine.voters votes.get?

/-- Asks the others for their votes. -/
def requestVotes (ahead transfer : Bool) (term : Nat) : Action Unit := forOthers fun peer => do
  let engine ← get
  let request :=
    .voteRequest ahead engine.log.lastIndex (← engine.log.lastTerm) (← engine.log.commitMark) transfer
  set (← engine.sendVote peer term request)

/-- Ends a campaign that is won or lost. -/
def closeElection : Tally → Action Unit
  | .won => do
    becomeLeader
    broadcastAppend
  | .lost => change fun engine => engine.becomeFollower engine.term none
  | .open => pure ()

/-- Campaigns for the next term; `transfer` if the leader asked for it. -/
def campaign (transfer : Bool) : Action Unit := do
  change Engine.becomeCandidate
  let engine ← get
  let tally ← countVote engine.id true
  closeElection tally
  unless tally = .won do requestVotes false transfer engine.term

/-- Ends the asking ahead: a member that would win campaigns. -/
def closeCanvass : Tally → Action Unit
  | .won => campaign false
  | .lost => change fun engine => engine.becomeFollower engine.term none
  | .open => pure ()

/-- Asks ahead for the votes of the next term. -/
def canvass : Action Unit := do
  change Engine.becomePreCandidate
  let engine ← get
  let tally ← countVote engine.id true
  closeCanvass tally
  unless tally = .won do requestVotes true false (engine.term + 1)

/-- Tries to become the leader. A leader need not. -/
def seekElection (transfer : Bool) : Action Unit := do
  let engine ← get
  if engine.isLeader then return
  if transfer then campaign true
  else if engine.settings.preVote then canvass
  else campaign false

/-- Commits what the sender of a message on votes has seen committed. -/
def commitByVote (commit : Nat × Nat) : Action Unit := do
  let engine ← get
  if commit.1 = 0 ∨ commit.2 = 0 ∨ engine.isLeader then return
  let (log, _) ← engine.log.tryCommit commit.1 commit.2
  set { engine with log }

/-- Whether a vote is free for a candidate: it is a repetition, or nothing is decided at this term,
    or it is about a later term. -/
def Engine.isVoteFree (engine : Engine) (candidate : Option MemberId) (term : Nat) (ahead : Bool) :
    Bool :=
  engine.vote = candidate || (engine.vote.isNone && engine.leader.isNone) ||
    (ahead && engine.term < term)

/-- Answers a candidate. A vote bears the term of the request, a refusal the member's own. -/
def answerVoteRequest (candidate : Option MemberId) (term : Nat) (ahead : Bool)
    (index lastTerm : Nat) (commit : Nat × Nat) : Action Unit := do
  let engine ← get
  if engine.isVoteFree candidate term ahead && (← engine.log.isCurrent index lastTerm) then
    let engine ← engine.sendVote candidate term (.voteResponse ahead true (0, 0))
    set (if ahead then engine else { engine with electionElapsed := 0, vote := candidate })
  else
    set (← engine.sendVote candidate engine.term
      (.voteResponse ahead false (← engine.log.commitMark)))
    commitByVote commit

/-- Counts the answer to a campaign, if it is an answer to the present one. -/
def noteVoteResponse (voter : MemberId) (ahead granted : Bool) (commit : Nat × Nat) :
    Action Unit := do
  let engine ← get
  match engine.role, ahead with
  | .preCandidate, true =>
    closeCanvass (← countVote voter granted)
    commitByVote commit
  | .candidate, false =>
    closeElection (← countVote voter granted)
    commitByVote commit
  | _, _ => pure ()

end Quorum.Consensus
