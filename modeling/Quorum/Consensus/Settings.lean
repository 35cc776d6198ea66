import Quorum.Config

namespace Quorum.Consensus

structure Settings where
  id : MemberId
  electionTicks : UInt64
  heartbeatTicks : UInt64
  maxInflight : UInt64
  /-- A leader that has not heard of a majority for a whole election time steps down. -/
  checkQuorum : Bool := true
  /-- A candidate asks before it raises its term. -/
  preVote : Bool := true
  deriving DecidableEq

/-- Why a node refuses its settings. -/
inductive SettingsError where
  | noId
  | noHeartbeat
  | electionTooShort
  | noInflight
  deriving DecidableEq

def SettingsError.message : SettingsError → String
  | .noId => "invalid node id"
  | .noHeartbeat => "heartbeat tick must greater than 0"
  | .electionTooShort => "election tick must be greater than heartbeat tick"
  | .noInflight => "max inflight messages must be greater than 0"

def Settings.validate (settings : Settings) : Except SettingsError Unit :=
  if settings.id = 0 then .error .noId
  else if settings.heartbeatTicks = 0 then .error .noHeartbeat
  else if settings.electionTicks ≤ settings.heartbeatTicks then .error .electionTooShort
  else if settings.maxInflight = 0 then .error .noInflight
  else .ok ()

end Consensus

/-- The settings of one member's consensus node. -/
def Config.consensusSettings (config : Config) (id : MemberId) : Consensus.Settings where
  id
  electionTicks := config.electionTicks
  heartbeatTicks := config.heartbeatTicks
  maxInflight := config.maxInflight

end Quorum
