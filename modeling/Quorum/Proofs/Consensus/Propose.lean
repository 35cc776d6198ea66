import Quorum.Node

namespace Quorum

open Consensus

namespace Consensus

section Inversion

variable {α β : Type} {engine after : Engine}

/-- Two actions in a row succeed if the second one does on the engine that the first one leaves. -/
theorem bind_eq_some {action : Action α} {next : α → Action β} {answer : β}
    (h : (action >>= next) engine = some (answer, after)) :
    ∃ first between, action engine = some (first, between) ∧
      next first between = some (answer, after) := by
  obtain ⟨⟨first, between⟩, hfirst, hnext⟩ := Option.bind_eq_some_iff.mp h
  exact ⟨first, between, hfirst, hnext⟩

theorem get_bind_eq_some {next : Engine → Action β} {answer : β}
    (h : ((get : Action Engine) >>= next) engine = some (answer, after)) :
    next engine engine = some (answer, after) := h

theorem set_bind_eq_some {changed : Engine} {next : PUnit → Action β} {answer : β}
    (h : ((set changed : Action PUnit) >>= next) engine = some (answer, after)) :
    next ⟨⟩ changed = some (answer, after) := h

/-- An action that starts with an assumption succeeds only if that holds. -/
theorem lift_bind_eq_some {option : Option α} {next : α → Action β} {answer : β}
    (h : ((liftM option : Action α) >>= next) engine = some (answer, after)) :
    ∃ found, option = some found ∧ next found engine = some (answer, after) := by
  obtain ⟨first, between, hfirst, hnext⟩ := bind_eq_some h
  obtain ⟨found, hfound, hsame⟩ := Option.bind_eq_some_iff.mp hfirst
  cases hsame
  exact ⟨first, hfound, hnext⟩

theorem guard_bind_eq_some {p : Prop} [Decidable p] {next : Unit → Action β} {answer : β}
    (h : ((guard p : Action Unit) >>= next) engine = some (answer, after)) :
    p ∧ next () engine = some (answer, after) := by
  by_cases hp : p
  · have hguard : (guard p : Action Unit) = pure () := if_pos hp
    rw [hguard] at h
    exact ⟨hp, h⟩
  · have hguard : (guard p : Action Unit) = failure := if_neg hp
    rw [hguard] at h
    cases h

end Inversion

section Sending

variable {engine after : Engine}

/-- To send a snapshot does not touch the log. -/
theorem sendSnapshot_log {peer : MemberId} {progress : Progress} {sent : Bool}
    (h : sendSnapshot peer progress engine = some (sent, after)) : after.log = engine.log := by
  unfold sendSnapshot at h
  cases hactive : progress.active with
  | false =>
    rw [hactive] at h
    cases h
    rfl
  | true =>
    rw [hactive] at h
    obtain ⟨snapshot, -, hguarded⟩ := lift_bind_eq_some (get_bind_eq_some h)
    obtain ⟨-, hset⟩ := guard_bind_eq_some hguarded
    cases set_bind_eq_some hset
    rfl

/-- To send entries does not touch the log. -/
theorem sendAppend_log {peer : MemberId} {allowEmpty sent : Bool}
    (h : sendAppend peer allowEmpty engine = some (sent, after)) : after.log = engine.log := by
  obtain ⟨progress, -, hfound⟩ := lift_bind_eq_some (get_bind_eq_some h)
  split at hfound
  · cases hfound
    rfl
  · obtain ⟨entries, -, hentries⟩ := lift_bind_eq_some hfound
    obtain ⟨term, -, hterm⟩ := lift_bind_eq_some hentries
    split at hterm
    · simp only at hterm
      split at hterm
      · cases hterm
        rfl
      · cases set_bind_eq_some hterm
        rfl
    · split at hterm
      · exact sendSnapshot_log hterm
      · cases hterm
        rfl
    · split at hterm
      · cases hterm
        rfl
      · exact sendSnapshot_log hterm

/-- To send entries to all others does not touch the log. -/
theorem broadcastAppend_log {answer : Unit} (h : broadcastAppend engine = some (answer, after)) :
    after.log = engine.log := by
  have hall := get_bind_eq_some h
  clear h
  generalize engine.voters.filter (· ≠ engine.id) = peers at hall
  induction peers generalizing engine with
  | nil =>
    cases hall
    rfl
  | cons peer rest ih =>
    obtain ⟨first, between, hpeer, hrest⟩ := bind_eq_some hall
    obtain ⟨sent, told, hsent, hdone⟩ := bind_eq_some hpeer
    cases hdone
    exact (ih hrest).trans (sendAppend_log hsent)

end Sending

/-- A log that has entries of its own ends with them. -/
theorem Log.lastIndex_of_tail {log : Log} (h : log.tail ≠ []) :
    log.lastIndex + 1 = log.offset + log.tail.length := by
  unfold Log.lastIndex
  split
  · rename_i hnil _
    exact absurd hnil h
  · rename_i hnil _
    exact absurd hnil h
  · have hlength := List.length_pos_iff.mpr h
    omega

/-- An entry under the index after the last goes to the end of the tail. -/
theorem Log.append_last {log after : Log} {entry : Entry} (hindex : entry.index = log.lastIndex + 1)
    (h : log.append [entry] = some after) : after.tail = log.tail ++ [entry] := by
  simp only [Log.append] at h
  split at h
  · cases h
  by_cases htail : log.tail = []
  · rw [htail]
    split at h
    · cases h
      rfl
    · rename_i hbeyond
      rw [htail, List.length_nil, Nat.add_zero, if_neg hbeyond] at h
      cases h
  · have hlast := hindex.trans (Log.lastIndex_of_tail htail)
    have hlength := List.length_pos_iff.mpr htail
    rw [if_neg (by omega), if_pos (by omega)] at h
    cases h
    rw [List.take_of_length_le (by omega)]

/-- The engine of a leader takes a proposal at the end of its log, or refuses it and appends
    nothing. -/
theorem propose_log {engine after : Engine} {data : List UInt8} {taken : Taken}
    (hleads : engine.isLeader = true) (h : propose data engine = some (taken, after)) :
    (taken = .ok () ∧ after.log.tail = engine.log.tail ++
      [{ index := engine.log.lastIndex + 1, term := engine.term, data }]) ∨
    ∃ refusal, taken = .error refusal ∧ after.log = engine.log := by
  have hrole : engine.role = .leader := of_decide_eq_true hleads
  have hstep := get_bind_eq_some (get_bind_eq_some h)
  have hproposal := get_bind_eq_some hstep
  have hnow : ¬ engine.term < 0 := Nat.not_lt_zero _
  simp only [ne_eq, not_true_eq_false, false_and, if_false, if_neg hnow] at hproposal
  have hlead := get_bind_eq_some hproposal
  rw [hrole] at hlead
  obtain ⟨-, htake⟩ := guard_bind_eq_some (get_bind_eq_some hlead)
  split at htake
  · cases htake
    exact .inr ⟨_, rfl, rfl⟩
  · obtain ⟨appended, between, happend, hrest⟩ := bind_eq_some htake
    obtain ⟨told, last, hbroadcast, hdone⟩ := bind_eq_some hrest
    cases hdone
    obtain ⟨log, hlog, hset⟩ := lift_bind_eq_some (get_bind_eq_some happend)
    cases hset
    refine .inl ⟨rfl, ?_⟩
    rw [broadcastAppend_log hbroadcast]
    exact Log.append_last rfl hlog

end Consensus

namespace Node

/-- A proposal of a leader is put at the end of its log, or nothing is. -/
theorem propose_log {node after : Node} {command : Command}
    {proposed : Except NodeError (Nat × Nat)} (hleads : node.isLeader = true)
    (h : node.propose command = some (proposed, after)) :
    ((∃ place, proposed = .ok place) ∧ after.engine.log.tail = node.engine.log.tail ++
      [{ index := node.lastIndex + 1, term := node.term, data := command.encode }]) ∨
    ∃ error, proposed = .error error ∧ after.engine.log = node.engine.log := by
  obtain ⟨⟨taken, ran⟩, hrun, hrest⟩ := Option.bind_eq_some_iff.mp h
  obtain ⟨⟨answer, engine⟩, hengine, hsame⟩ := Option.bind_eq_some_iff.mp hrun
  cases hsame
  cases hrest
  rcases Consensus.propose_log hleads hengine with ⟨rfl, htail⟩ | ⟨refusal, rfl, hlog⟩
  · exact .inl ⟨⟨_, rfl⟩, htail⟩
  · exact .inr ⟨_, rfl, hlog⟩

end Node

end Quorum
