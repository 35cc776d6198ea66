import Quorum.Machine

namespace Quorum

/-- The settings shared by every member. -/
structure Config where
  /-- The length of one tick of the consensus clock. -/
  tickInterval : Millis := 100
  /-- Ticks without a heartbeat before a follower campaigns. -/
  electionTicks : UInt64 := 10
  heartbeatTicks : UInt64 := 3
  /-- Append messages that a leader may have in flight to one follower. -/
  maxInflight : UInt64 := 256
  /-- The lease of a session without heartbeats. -/
  sessionTtl : Millis := 300000
  /-- How often the leader looks for expired sessions and parked calls. -/
  expiryInterval : Millis := 1000
  /-- How long a submission waits for its commit. -/
  submitTimeout : Millis := 60000
  dedupCapacity : UInt64 := 1024
  /-- Whether semaphores may be reduced below zero. -/
  overdraft : Bool := false
  deriving DecidableEq, Inhabited

/-- Why a configuration is refused. -/
inductive ConfigError where
  | notPositive (field : String)
  /-- The election time limit must exceed the heartbeat interval. -/
  | electionTooShort (electionTicks heartbeatTicks : UInt64)
  deriving DecidableEq

def ConfigError.message : ConfigError → String
  | .notPositive field => field ++ " must be positive"
  | .electionTooShort election heartbeat =>
    s!"election_tick ({election.toNat}) must exceed heartbeat_tick ({heartbeat.toNat})"

namespace Config

/-- Checks a configuration, and names its first fault. -/
def validate (config : Config) : Except ConfigError Unit := do
  let positive (field : String) (value : UInt64) : Except ConfigError Unit :=
    if 0 < value then .ok () else .error (.notPositive field)
  positive "tick_interval_ms" config.tickInterval
  positive "heartbeat_tick" config.heartbeatTicks
  unless config.heartbeatTicks < config.electionTicks do
    throw (.electionTooShort config.electionTicks config.heartbeatTicks)
  positive "session_ttl_ms" config.sessionTtl
  positive "expiry_check_interval_ms" config.expiryInterval
  positive "submit_timeout_ms" config.submitTimeout
  positive "dedup_capacity_per_session" config.dedupCapacity

def machineOptions (config : Config) : MachineOptions where
  sessionTtl := config.sessionTtl
  dedupCapacity := config.dedupCapacity.toNat
  overdraft := config.overdraft

end Config

end Quorum
