import Mathlib.Tactic.SplitIfs
import Quorum.Proofs.Node

namespace Quorum

open Consensus

theorem bind_unit_eq_ok_iff {ε : Type} {first rest : Except ε Unit} :
    (first >>= fun _ => rest) = .ok () ↔ first = .ok () ∧ rest = .ok () := by
  cases first with
  | error error => exact ⟨fun h => (nomatch h), fun h => (nomatch h.1)⟩
  | ok done => exact ⟨fun h => ⟨rfl, h⟩, fun h => h.2⟩

theorem ite_ok_eq_ok_iff {ε : Type} {p : Prop} [Decidable p] {error : ε} :
    (if p then .ok () else .error error : Except ε Unit) = .ok () ↔ p := by
  by_cases hp : p <;> simp [hp]

/-- What the check of a configuration demands. -/
theorem Config.validate_eq_ok_iff {config : Config} :
    config.validate = .ok () ↔
      0 < config.tickInterval ∧ 0 < config.heartbeatTicks ∧
        config.heartbeatTicks < config.electionTicks ∧ 0 < config.sessionTtl ∧
        0 < config.expiryInterval ∧ 0 < config.submitTimeout ∧ 0 < config.dedupCapacity := by
  unfold validate
  simp only [bind_unit_eq_ok_iff, ite_ok_eq_ok_iff]
  by_cases hticks : config.heartbeatTicks < config.electionTicks
  · simp only [hticks, if_true, true_and, bind_unit_eq_ok_iff, ite_ok_eq_ok_iff]
  · have hrefused {rest : PUnit → Except ConfigError Unit} :
        (throw (.electionTooShort config.electionTicks config.heartbeatTicks) >>= rest :
          Except ConfigError Unit) ≠ .ok () := fun h => by cases h
    simp only [hticks, if_false, false_and, and_false, hrefused]

/-- What the engine's check of its settings demands. -/
theorem Consensus.Settings.validate_eq_ok_iff {settings : Settings} :
    settings.validate = .ok () ↔
      settings.id ≠ 0 ∧ settings.heartbeatTicks ≠ 0 ∧
        settings.heartbeatTicks < settings.electionTicks ∧ settings.maxInflight ≠ 0 := by
  unfold validate
  split_ifs with hid hheartbeat helection hinflight
  · simp [hid]
  · simp [hheartbeat]
  · simp [UInt64.not_lt.mpr helection]
  · simp [hinflight]
  · simp [hid, hheartbeat, UInt64.not_le.mp helection, hinflight]

/-- The settings that a valid configuration gives a member are refused for the limit on append
    messages in flight, if at all. -/
theorem Config.validate_consensusSettings {config : Config} (h : config.validate = .ok ())
    {id : MemberId} (hid : id ≠ 0) :
    (config.consensusSettings id).validate =
      if config.maxInflight = 0 then .error .noInflight else .ok () := by
  obtain ⟨-, hheartbeat, hticks, -⟩ := validate_eq_ok_iff.mp h
  have hid : (config.consensusSettings id).id ≠ 0 := hid
  have hpositive : (config.consensusSettings id).heartbeatTicks ≠ 0 :=
    (UInt64.ne_of_lt hheartbeat).symm
  have hlonger : ¬ (config.consensusSettings id).electionTicks ≤
      (config.consensusSettings id).heartbeatTicks := UInt64.not_le.mpr hticks
  rw [Settings.validate, if_neg hid, if_neg hpositive, if_neg hlonger]
  rfl

namespace Consensus.Engine

variable {settings : Settings}

/-- Settings that are refused start no engine, and the refusal says why. -/
theorem new_of_refused (stored : StoredLog) {error : SettingsError} (hid : settings.id ≠ 0)
    (h : settings.validate = .error error) :
    new settings stored = some (.error (.settings error)) := by
  simp only [new, guard, if_pos hid, h]
  rfl

/-- An engine starts if its settings are valid and all voters have ids. -/
theorem exists_new_iff (settings : Settings) (stored : StoredLog) :
    (∃ engine, new settings stored = some (.ok engine)) ↔
      settings.validate = .ok () ∧ 0 ∉ stored.base.voters := by
  constructor
  · rintro ⟨engine, h⟩
    obtain ⟨_, -, hchecked⟩ := Option.bind_eq_some_iff.mp h
    cases hvalid : settings.validate with
    | error error =>
      rw [hvalid] at hchecked
      cases hchecked
    | ok done =>
      rw [hvalid] at hchecked
      refine ⟨rfl, fun hmem => ?_⟩
      by_cases hhead : stored.base.voters.head? = some 0
      · rw [if_pos hhead] at hchecked
        cases hchecked
      · rw [if_neg hhead] at hchecked
        obtain ⟨_, hguard, -⟩ := Option.bind_eq_some_iff.mp hchecked
        rw [guard, if_neg (not_not.mpr hmem)] at hguard
        cases hguard
  · rintro ⟨hvalid, hvoters⟩
    have hid : settings.id ≠ 0 := (Settings.validate_eq_ok_iff.mp hvalid).1
    have hhead : stored.base.voters.head? ≠ some 0 := fun hhead =>
      hvoters (List.mem_of_mem_head? hhead)
    simp only [new, guard, if_pos hid, hvalid, if_neg hhead, if_pos hvoters]
    exact ⟨_, rfl⟩

end Consensus.Engine

namespace Node

variable {id : MemberId} {voters : List MemberId} {config : Config}

/-- Settings that are refused start no node, and the error names the member. -/
theorem new_of_refused {error : SettingsError} (hid : id ≠ 0)
    (h : (config.consensusSettings id).validate = .error error) :
    (new id voters config).run = some (.error (.construct id (.settings error))) := by
  have hengine := Engine.new_of_refused (.empty voters) hid h
  rw [new, Call.lift_bind_of_some hengine]
  rfl

/-- A member starts if its settings are valid and all voters have ids. -/
theorem exists_new_iff :
    (∃ node, (new id voters config).run = some (.ok node)) ↔
      (config.consensusSettings id).validate = .ok () ∧ 0 ∉ voters := by
  have hengine := Engine.exists_new_iff (config.consensusSettings id) (.empty voters)
  constructor
  · rintro ⟨node, h⟩
    obtain ⟨result, hresult, hnode⟩ := Call.bind_eq_ok h
    cases result with
    | error refusal => cases hnode
    | ok engine => exact hengine.mp ⟨engine, Call.lift_eq_ok hresult⟩
  · intro h
    obtain ⟨engine, hnew⟩ := hengine.mpr h
    rw [new, Call.lift_bind_of_some hnew]
    exact ⟨_, rfl⟩

end Node

/-- A valid configuration starts every member of every group whose members have ids, if it lets
    append messages be in flight. If it does not, it starts none. -/
theorem validated_config_starts {config : Config} {topology : Topology} {id : MemberId}
    (hvalid : config.validate = .ok ()) (hids : ∀ member ∈ topology.members, member ≠ 0)
    (hmember : topology.contains id = true) :
    (config.maxInflight ≠ 0 →
      (config.consensusSettings id).validate = .ok () ∧
        ∃ node, (Node.new id topology.members config).run = some (.ok node)) ∧
    (config.maxInflight = 0 →
      (config.consensusSettings id).validate = .error .noInflight ∧
        (Node.new id topology.members config).run =
          some (.error (.construct id (.settings .noInflight)))) := by
  have hid : id ≠ 0 := hids id (List.contains_iff_mem.mp hmember)
  have hchecked := Config.validate_consensusSettings hvalid hid
  constructor
  · intro hinflight
    rw [if_neg hinflight] at hchecked
    exact ⟨hchecked, Node.exists_new_iff.mpr ⟨hchecked, fun hzero => hids 0 hzero rfl⟩⟩
  · intro hnone
    rw [if_pos hnone] at hchecked
    exact ⟨hchecked, Node.new_of_refused hid hchecked⟩

/-- The default configuration starts a member of a group of three. -/
theorem default_config_starts :
    let config : Config := {}
    let topology : Topology := ⟨[1, 2, 3], by decide, by decide⟩
    config.validate = .ok () ∧ (∀ member ∈ topology.members, member ≠ 0) ∧
      topology.contains 2 = true ∧ config.maxInflight ≠ 0 ∧
      ∃ node, (Node.new 2 topology.members config).run = some (.ok node) := by
  intro config topology
  have hvalid : config.validate = .ok () := by decide
  have hzero : 0 ∉ topology.members := by decide
  have hids : ∀ member ∈ topology.members, member ≠ 0 :=
    fun member hmember => ne_of_mem_of_not_mem hmember hzero
  have hmember : topology.contains 2 = true := by decide
  have hinflight : config.maxInflight ≠ 0 := by decide
  exact ⟨hvalid, hids, hmember, hinflight,
    ((validated_config_starts hvalid hids hmember).1 hinflight).2⟩

/-- A configuration without append messages in flight is valid and starts nobody. -/
theorem valid_config_refused :
    let config : Config := { maxInflight := 0 }
    let topology : Topology := ⟨[1, 2, 3], by decide, by decide⟩
    config.validate = .ok () ∧ (config.consensusSettings 1).validate = .error .noInflight ∧
      (Node.new 1 topology.members config).run =
        some (.error (.construct 1 (.settings .noInflight))) := by
  exact ⟨by decide, by decide, Node.new_of_refused (by decide) (by decide)⟩

end Quorum
