import Quorum.Consensus.Settings

namespace Quorum.Consensus

/-- Why the stored log cannot serve a request. -/
inductive StorageError where
  /-- The entry was dropped in favour of a snapshot. -/
  | compacted
  /-- The entry is not there yet. -/
  | unavailable
  /-- The snapshot is older than the log. -/
  | outdated
  deriving DecidableEq

namespace StorageError

def toText : StorageError → String
  | .compacted => "log compacted"
  | .unavailable => "log unavailable"
  | .outdated => "snapshot out of date"

/-- The text of a storage error: the error, and the same once more as its cause. -/
def message (error : StorageError) : String := error.toText ++ ": " ++ error.toText

end StorageError

/-- What may be asked of the stored log. -/
inductive LogRequest where
  | term (index : Nat)
  | entries (low high : Nat)
  | install
  deriving DecidableEq

namespace LogRequest

def toText : LogRequest → String
  | .term index => s!"read term of entry {index}"
  | .entries low high => s!"read entries [{low}, {high})"
  | .install => "apply snapshot"

/-- The text of a failed request. -/
def failure (request : LogRequest) (error : StorageError) : String :=
  request.toText ++ ": " ++ error.message

end LogRequest

/-- An access to the log: it may fail, or meet a broken assumption. -/
abbrev Access := ExceptT StorageError Option

/-- Why the engine refuses a call. -/
inductive Refusal where
  | settings (error : SettingsError)
  /-- The group has nobody to vote. -/
  | noVoters
  | proposalDropped
  /-- A member's own reminder came from outside. -/
  | ownReminder
  /-- A response came from outside the group. -/
  | unknownPeer
  deriving DecidableEq

def Refusal.message : Refusal → String
  | .settings error => error.message
  | .noVoters => "removed all voters"
  | .proposalDropped => "raft: proposal dropped"
  | .ownReminder => "raft: cannot step raft local message"
  | .unknownPeer => "raft: cannot step as peer not found"

end Quorum.Consensus
