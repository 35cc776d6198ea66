import Quorum.Replica
import Quorum.Consensus.Batch

namespace Quorum

open Consensus

/-- Why a call of a member fails. -/
inductive NodeError where
  | construct (id : MemberId) (refusal : Refusal)
  | propose (refusal : Refusal)
  | step (refusal : Refusal)
  | install (error : StorageError)
  | decode (index : Nat) (error : Binary.DecodeError)
  deriving DecidableEq

namespace NodeError

/-- What the member was about to do. -/
def context : NodeError → String
  | .construct id _ => s!"failed to construct RawNode {id.toNat}"
  | .propose _ => "propose failed"
  | .step _ => "step failed"
  | .install _ => LogRequest.install.toText
  | .decode index _ => s!"decode entry {index}"

def cause : NodeError → String
  | .construct _ refusal | .propose refusal | .step refusal => refusal.message
  | .install error => error.message
  | .decode _ _ => Command.decodeFailure

def message (error : NodeError) : String := error.context ++ ": " ++ error.cause

end NodeError

/-- What a member hands out: messages to send, applied commands, and reads that a majority has
    confirmed. -/
structure Bundle where
  messages : List Message
  applied : List AppliedEntry
  reads : List ReadState

/-- One member of a group: a consensus engine with its log, and a replica of the state machine. It
    only acts when it is called: `tick`, `step` and `poll` are driven from outside. -/
structure Node where
  engine : Engine
  replica : Replica
  deriving DecidableEq

namespace Node

/-- A call that may fail. As in the consensus layer, `none` stands for a broken assumption. -/
abbrev Call := ExceptT NodeError Option

/-- A member of a new group. -/
def new (id : MemberId) (voters : List MemberId) (config : Config) : Call Node := do
  match ← (Engine.new (config.consensusSettings id) (.empty voters) : Option _) with
  | .ok engine => return { engine, replica := { machine := .new config.machineOptions } }
  | .error refusal => throw (.construct id refusal)

def id (node : Node) : MemberId := node.engine.id

def role (node : Node) : Role := node.engine.role

def isLeader (node : Node) : Bool := node.engine.isLeader

def leader? (node : Node) : Option MemberId := node.engine.leader

def term (node : Node) : Nat := node.engine.term

def commitIndex (node : Node) : Nat := node.engine.log.committed

def appliedIndex (node : Node) : Nat := node.replica.appliedIndex

def lastIndex (node : Node) : Nat := node.engine.log.lastIndex

def machine (node : Node) : Machine := node.replica.machine

/-- Whether a read that starts now would be answered. A new leader must commit an entry of its own
    term first. -/
def canServeReads (node : Node) : Bool :=
  node.isLeader && node.engine.hasCommittedTerm.getD false

/-- Lets the engine act. -/
def run {α : Type} (node : Node) (action : Action α) : Option (α × Node) := do
  let (answer, engine) ← action node.engine
  return (answer, { node with engine })

def tick (node : Node) : Option Node := do return (← node.run Consensus.tick).2

/-- Starts an election at once. -/
def campaign (node : Node) : Option Node := do return (← node.run (seekElection false)).2

/-- Starts the confirmation of a read. -/
def requestRead (node : Node) (context : ReadContext) : Option Node := do
  return (← node.run (Consensus.requestRead context)).2

/-- Takes a message. The engine may have moved on even if it refuses. -/
def step (node : Node) (message : Message) : Option (Except NodeError Unit × Node) := do
  let (taken, node) ← node.run (receive message)
  return (taken.mapError .step, node)

/-- Proposes a command. The answer is the end of this member's log and its term, which is where the
    command stands if this member leads. -/
def propose (node : Node) (command : Command) :
    Option (Except NodeError (Nat × Nat) × Node) := do
  let (taken, node) ← node.run (Consensus.propose command.encode)
  return ((taken.mapError .propose).map fun _ => (node.lastIndex, node.term), node)

/-- Applies decided entries. -/
def apply (node : Node) (entries : List Entry) : Call (Node × List AppliedEntry) :=
  match node.replica.applyEntries entries with
  | .ok (replica, applied) => return ({ node with replica }, applied)
  | .error (index, error) => throw (.decode index error)

/-- Stores, applies and hands out all that the engine has ready. None of it is sent before it is
    stored. -/
def pollReady (node : Node) : Call (Bundle × Node) := do
  let (batch, node) ← (node.run takeBatch : Option _)
  let (stored, node) ← (node.run (store batch) : Option _)
  if let .error error := stored then throw (.install error)
  let (node, first) ← node.apply batch.decided
  let (sequel, node) ← (node.run (settle batch) : Option _)
  let (_, node) ← (node.run (sequel.commit.elim (pure ()) storeCommit) : Option _)
  let (node, later) ← node.apply sequel.decided
  let (_, node) ← (node.run noteApplied : Option _)
  return ({
    messages := batch.messages ++ sequel.messages
    applied := first ++ later
    reads := batch.reads }, node)

/-- Hands out what is ready, if anything is. -/
def poll (node : Node) : Call (Option Bundle × Node) :=
  if node.engine.hasBatch then do
    let (bundle, node) ← node.pollReady
    return (some bundle, node)
  else return (none, node)

end Node

end Quorum
