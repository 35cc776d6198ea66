import Quorum.Consensus.Replication

namespace Quorum.Consensus

/-- Hands a confirmed read to the member that asked for it. -/
def answerRead (source : Option MemberId) (index : Nat) (contexts : List ReadContext) :
    Action Unit := do
  let engine ← get
  if source.isNone || source = some engine.id then
    let context ← contexts.head?
    let read : ReadState := { context, index }
    set { engine with confirmed := engine.confirmed ++ [read] }
  else
    set (engine.send source (.readIndexResponse index contexts))

/-- Starts the confirmation of a read. A leader that has not committed anything yet in its term
    drops it, and a leader without others confirms it itself. -/
def startRead (source : Option MemberId) (contexts : List ReadContext) : Action Unit := do
  let engine ← get
  unless ← engine.hasCommittedTerm do return
  let index := engine.log.committed
  if engine.voters.length = 1 then
    answerRead source index contexts
  else
    let context ← contexts.head?
    unless engine.reads.any (·.context = context) do
      let read : PendingRead := { context, source, index, acks := [engine.id] }
      set { engine with reads := engine.reads ++ [read] }
    broadcastHeartbeat (some context)

/-- The newest read that waits for confirmation. -/
def Engine.lastRead (engine : Engine) : Option ReadContext :=
  engine.reads.getLast?.map (·.context)

/-- Counts the confirmation of a read. A majority confirms it and all reads before it. -/
def confirmRead (peer : MemberId) (context : ReadContext) : Action Unit := do
  let engine ← get
  let reads := engine.reads.map fun read =>
    if read.context = context ∧ peer ∉ read.acks then { read with acks := read.acks ++ [peer] }
    else read
  set { engine with reads }
  let some read := reads.find? (·.context = context) | return
  let acknowledged (voter : MemberId) := if voter ∈ read.acks then some true else none
  unless Tally.of engine.voters acknowledged = .won do return
  let earlier := reads.takeWhile (·.context ≠ context)
  set { engine with reads := reads.drop (earlier.length + 1) }
  (earlier ++ [read]).forM fun read => answerRead read.source read.index [read.context]

end Quorum.Consensus
