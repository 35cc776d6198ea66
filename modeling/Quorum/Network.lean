import Quorum.Group

namespace Quorum

abbrev InboxId := Nat

/-- A network in one process. Each member of a group has at most one inbox at a time, and an inbox
    belongs to one member of one group for good. A message goes to the inbox that its target has at
    the moment of sending; it is lost if there is none, if the two members cannot reach each other,
    or if nobody reads the inbox any more. Reachability is symmetric, and a member always reaches
    itself. -/
structure Network (μ : Type) where
  /-- The number of inboxes that were ever opened, and the id of the next one. -/
  opened : Nat := 0
  /-- The present inbox of each member of each group. -/
  routes : SortedMap (GroupId × MemberId) InboxId := ∅
  /-- What waits in the inboxes that are read. -/
  inboxes : SortedMap InboxId (List μ) := ∅
  cut : List (MemberId × MemberId) := []
  isolated : List MemberId := []

namespace Network

variable {μ : Type}

instance : EmptyCollection (Network μ) := ⟨{}⟩

instance : Inhabited (Network μ) := ⟨∅⟩

/-- Opens an inbox for a member of a group, in the stead of an older one. -/
def attach (network : Network μ) (group : GroupId) (member : MemberId) : InboxId × Network μ :=
  (network.opened, { network with
    opened := network.opened + 1
    routes := network.routes.insert (group, member) network.opened
    inboxes := network.inboxes.insert network.opened [] })

/-- Leaves a member of a group without an inbox. -/
def detach (network : Network μ) (group : GroupId) (member : MemberId) : Network μ :=
  { network with routes := network.routes.erase (group, member) }

/-- Stops reading an inbox. What waits in it is lost. -/
def discard (network : Network μ) (inbox : InboxId) : Network μ :=
  { network with inboxes := network.inboxes.erase inbox }

/-- Cuts all links between two sides. -/
def partition (network : Network μ) (left right : List MemberId) : Network μ :=
  let links := left.flatMap fun a => right.flatMap fun b => [(a, b), (b, a)]
  { network with cut := network.cut ++ links }

/-- Cuts all links of a member. -/
def isolate (network : Network μ) (member : MemberId) : Network μ :=
  { network with isolated := network.isolated ++ [member] }

/-- Restores all links. -/
def heal (network : Network μ) : Network μ := { network with cut := [], isolated := [] }

def reaches (network : Network μ) (source target : MemberId) : Bool :=
  source = target || !(network.isolated.contains source || network.isolated.contains target ||
    network.cut.contains (source, target))

/-- The inbox that a message would go to. -/
def route? (network : Network μ) (group : GroupId) (source target : MemberId) : Option InboxId :=
  if network.reaches source target then network.routes.get? (group, target) else none

/-- Puts a message into an inbox, if it is read. -/
def put (network : Network μ) (inbox : InboxId) (message : μ) : Network μ :=
  match network.inboxes.get? inbox with
  | some waiting => { network with inboxes := network.inboxes.insert inbox (waiting ++ [message]) }
  | none => network

/-- Sends a message to a member of a group. -/
def send (network : Network μ) (group : GroupId) (source target : MemberId) (message : μ) :
    Network μ :=
  match network.route? group source target with
  | some inbox => network.put inbox message
  | none => network

/-- Takes all that waits in an inbox. -/
def receive (network : Network μ) (inbox : InboxId) : List μ × Network μ :=
  match network.inboxes.get? inbox with
  | some waiting => (waiting, { network with inboxes := network.inboxes.insert inbox [] })
  | none => ([], network)

/-- Whether no message can come to an inbox any more. -/
def isClosed (network : Network μ) (inbox : InboxId) : Bool :=
  !network.routes.values.contains inbox

end Network

end Quorum
