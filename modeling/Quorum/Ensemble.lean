import Quorum.Node

namespace Quorum

open Consensus

/-- Members of one group whose messages are carried by hand, in rounds. In a round every member
    hands out what it has ready, and then every message between members that are not isolated is
    taken by its target. -/
structure Ensemble where
  members : SortedMap MemberId Node
  /-- Members whose messages are lost, in either direction. -/
  isolated : List MemberId := []

namespace Ensemble

/-- What members handed out, in the order in which they did. -/
structure Delivery where
  applied : List (MemberId × AppliedEntry) := []
  reads : List (MemberId × ReadState) := []

/-- Members of one group, with the given voters. -/
def new (ids voters : List MemberId) (config : Config) : Node.Call Ensemble := do
  let members ← ids.mapM fun id => do return (id, ← Node.new id voters config)
  return { members := .ofList members }

def isolate (ensemble : Ensemble) (members : List MemberId) : Ensemble :=
  { ensemble with isolated := ensemble.isolated ++ members }

def heal (ensemble : Ensemble) : Ensemble := { ensemble with isolated := [] }

def put (ensemble : Ensemble) (node : Node) : Ensemble :=
  { ensemble with members := ensemble.members.insert node.id node }

/-- Whether an end of a message can be reached. -/
def isUp (ensemble : Ensemble) (member : Option MemberId) : Bool :=
  member.all fun member => !ensemble.isolated.contains member

/-- Lets a member hand out what it has ready. -/
def pollMember (polled : List (MemberId × Bundle) × Ensemble) (node : Node) :
    Node.Call (List (MemberId × Bundle) × Ensemble) := do
  let (bundles, ensemble) := polled
  let (bundle, node) ← node.poll
  return (bundles ++ (bundle.map (node.id, ·)).toList, ensemble.put node)

/-- Lets every member hand out what it has ready. -/
def pollAll (ensemble : Ensemble) : Node.Call (List (MemberId × Bundle) × Ensemble) :=
  ensemble.members.values.foldlM pollMember ([], ensemble)

/-- Hands a message to its target. -/
def carry (ensemble : Ensemble) (message : Message) : Option Ensemble := do
  let some node := message.target.bind ensemble.members.get? | return ensemble
  if ensemble.isUp message.source && ensemble.isUp message.target then
    let (_, node) ← node.step message
    return ensemble.put node
  else return ensemble

/-- Carries messages until the ensemble is quiet. `none` if it is not after so many rounds. -/
def deliverWithin (ensemble : Ensemble) (delivery : Delivery) :
    Nat → Node.Call (Delivery × Ensemble)
  | 0 => none
  | rounds + 1 => do
    let (bundles, ensemble) ← ensemble.pollAll
    if bundles.isEmpty then return (delivery, ensemble)
    let messages := bundles.flatMap (·.2.messages)
    let ensemble ← (messages.foldlM carry ensemble : Option Ensemble)
    let delivery := {
      applied := delivery.applied ++ bundles.flatMap fun (id, bundle) => bundle.applied.map (id, ·)
      reads := delivery.reads ++ bundles.flatMap fun (id, bundle) => bundle.reads.map (id, ·) }
    ensemble.deliverWithin delivery rounds

/-- Carries messages until the ensemble is quiet. Beyond the limit on rounds, members only exchange
    what could go on for ever. -/
def deliver (ensemble : Ensemble) : Node.Call (Delivery × Ensemble) :=
  ensemble.deliverWithin {} 1000000

end Ensemble

end Quorum
