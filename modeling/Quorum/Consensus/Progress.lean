import Quorum.Consensus.StoredLog

namespace Quorum.Consensus

inductive Flow where
  /-- `waiting` for the answer to a probe. -/
  | probe (waiting : Bool)
  /-- The last indices of the messages that are not acknowledged, ascending. -/
  | replicate (inflight : List Nat)
  | snapshot (index : Nat)
  deriving DecidableEq

/-- What a leader knows of a member's log, and how it feeds entries to it. Where the logs agree is
    first probed by one message at a time. Once that is known, entries are sent ahead of their
    acknowledgement, up to a limit. A member that lacks entries that are gone from the leader's log
    is sent a snapshot, and nothing else until it has it. -/
structure Progress where
  /-- The log is known to agree up to here. -/
  matched : Nat := 0
  /-- The index of the next entry to send; never zero. -/
  next : Nat
  flow : Flow := .probe false
  /-- Whether the member was heard of since the last check of the quorum. -/
  active : Bool := false
  deriving DecidableEq

namespace Progress

/-- Whether nothing may be sent for now. -/
def isPaused (progress : Progress) (maxInflight : Nat) : Bool :=
  match progress.flow with
  | .probe waiting => waiting
  | .replicate inflight => maxInflight ≤ inflight.length
  | .snapshot _ => true

def becomeProbe (progress : Progress) : Progress :=
  let next := match progress.flow with
    | .snapshot index => max (progress.matched + 1) (index + 1)
    | _ => progress.matched + 1
  { progress with next, flow := .probe false }

def becomeReplicate (progress : Progress) : Progress :=
  { progress with next := progress.matched + 1, flow := .replicate [] }

/-- Ends the wait for the answer to a probe. -/
def resume (progress : Progress) : Progress :=
  match progress.flow with
  | .probe _ => { progress with flow := .probe false }
  | _ => progress

/-- Notes that the log agrees up to an index, and says whether that was not known. -/
def acknowledge (progress : Progress) (index : Nat) : Progress × Bool :=
  let next := max progress.next (index + 1)
  if progress.matched < index then
    ({ progress with matched := index, next }.resume, true)
  else ({ progress with next }, false)

/-- Changes the flow after new entries were acknowledged up to an index. -/
def advanceFlow (progress : Progress) (index : Nat) : Progress :=
  match progress.flow with
  | .probe _ => progress.becomeReplicate
  | .snapshot awaited => if awaited ≤ progress.matched then progress.becomeProbe else progress
  | .replicate inflight =>
    { progress with flow := .replicate (inflight.dropWhile (fun last => last ≤ index)) }

/-- Steps back after a refusal of entries after an index, to a place where the logs may agree. None
    if the refusal is stale. -/
def retreat (progress : Progress) (refused hint : Nat) : Option Progress :=
  match progress.flow with
  | .replicate _ => if refused ≤ progress.matched then none else some progress.becomeProbe
  | _ =>
    if progress.next ≠ refused + 1 then none
    else some { progress with next := max 1 (min refused (hint + 1)) }.resume

/-- Notes that entries up to an index are under way. -/
def noteSent (progress : Progress) (last : Nat) : Progress :=
  match progress.flow with
  | .probe _ => { progress with flow := .probe true }
  | .replicate inflight => { progress with next := last + 1, flow := .replicate (inflight ++ [last]) }
  | .snapshot _ => progress

/-- Notes a sign of life, which also frees a place for one message if there was none. -/
def noteAlive (progress : Progress) (maxInflight : Nat) : Progress :=
  let progress := { progress with active := true }.resume
  match progress.flow with
  | .replicate (_ :: rest) =>
    if progress.isPaused maxInflight then { progress with flow := .replicate rest } else progress
  | _ => progress

end Progress

end Quorum.Consensus
