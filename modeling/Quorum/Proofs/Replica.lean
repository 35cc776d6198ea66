import Quorum.Proofs.Binary.Command
import Quorum.Proofs.Machine.Run
import Quorum.Replica

namespace Quorum

open Consensus

/-- The bytes of a command that can be read back are not empty, so its entry does not pass for one
    without data. -/
theorem Command.encode_ne_nil {command : Command} (hfits : command.LengthsFit) :
    command.encode ≠ [] := by
  intro hempty
  have hread : decode [] = .ok command := decode_eq_ok.mpr ⟨hfits, hempty ▸ List.prefix_rfl⟩
  cases hread

/-- What a group may decide on. -/
inductive Matter where
  /-- Nothing; a new leader starts with it. -/
  | nothing
  /-- A change of the members. -/
  | membership (change : List UInt8)
  /-- A command, with lengths that fit where they are written. -/
  | command (given : Command) (fits : given.LengthsFit)

/-- What a group decides on under one index of its log. -/
structure Decision where
  term : Nat
  matter : Matter

namespace Decision

def command? (decision : Decision) : Option Command :=
  match decision.matter with
  | .command given _ => some given
  | _ => none

/-- The log entry of a decision. -/
def entry (index : Nat) : Decision → Entry
  | { term, matter := .nothing } => { index, term }
  | { term, matter := .membership change } => { index, term, data := change, kind := .membership }
  | { term, matter := .command given _ } => { index, term, data := given.encode }

/-- The entries of decisions that follow an index one after the other. -/
def entries (index : Nat) : List Decision → List Entry
  | [] => []
  | decision :: rest => decision.entry (index + 1) :: entries (index + 1) rest

def commands (decisions : List Decision) : List Command := decisions.filterMap command?

/-- What a replica gives out for decisions that follow an index: for each command one record, with
    its own place in the log and what it brings about after all commands before it. -/
def records (machine : Machine) (index : Nat) : List Decision → List AppliedEntry
  | [] => []
  | decision :: rest =>
    match decision.command? with
    | none => records machine (index + 1) rest
    | some command =>
      let { answer, state, notes } := machine.apply command
      { index := index + 1, term := decision.term, invocation := command.invocation, answer, notes } ::
        records state (index + 1) rest

@[simp] theorem entry_index (index : Nat) (decision : Decision) :
    (decision.entry index).index = index := by
  cases decision with | mk term matter => cases matter <;> rfl

@[simp] theorem entry_term (index : Nat) (decision : Decision) :
    (decision.entry index).term = decision.term := by
  cases decision with | mk term matter => cases matter <;> rfl

/-- The command of a decision comes with the fact that its lengths fit. -/
theorem lengthsFit {decision : Decision} {command : Command} (h : decision.command? = some command) :
    command.LengthsFit := by
  obtain ⟨term, matter⟩ := decision
  cases matter with
  | command given fits => exact Option.some.inj h ▸ fits
  | _ => cases h

/-- A replica takes the commands, and nothing else, for commands. -/
theorem commandData_entry (index : Nat) (decision : Decision) :
    Replica.commandData (decision.entry index) = decision.command?.map Command.encode := by
  obtain ⟨term, matter⟩ := decision
  cases matter with
  | nothing => rfl
  | membership change => rfl
  | command given fits => exact if_pos ⟨rfl, Command.encode_ne_nil fits⟩

/-- The entries that carry data carry the commands among the decisions, in order. -/
theorem filterMap_commandData_entries (index : Nat) (decisions : List Decision) :
    (entries index decisions).filterMap Replica.commandData =
      (commands decisions).map Command.encode := by
  induction decisions generalizing index with
  | nil => rfl
  | cons decision rest ih =>
    rw [entries, List.filterMap_cons, commandData_entry, ih, commands, commands, List.filterMap_cons]
    cases decision.command? <;> rfl

end Decision

namespace Replica

/-- Applies lists of entries, one list after the other. -/
def applyBatches (replica : Replica) :
    List (List Entry) → Except (Nat × Binary.DecodeError) (Replica × List (List AppliedEntry))
  | [] => .ok (replica, [])
  | batch :: rest => do
    let (replica, applied) ← replica.applyEntries batch
    let (replica, later) ← replica.applyBatches rest
    return (replica, applied :: later)

section Applied

variable {replica after : Replica} {applied : List AppliedEntry}

/-- Entries are applied if the first one is and then the rest. -/
theorem applyEntries_cons_of_ok {between : Replica} {entry : Entry} {rest : List Entry}
    {first later : List AppliedEntry} (hfirst : replica.applyEntry entry = .ok (between, first))
    (hlater : between.applyEntries rest = .ok (after, later)) :
    replica.applyEntries (entry :: rest) = .ok (after, first ++ later) := by
  rw [applyEntries, hfirst]
  change (between.applyEntries rest >>= _) = _
  rw [hlater]
  rfl

/-- Entries that were applied were applied one after the other. -/
theorem applyEntries_cons_eq_ok {entry : Entry} {rest : List Entry}
    (h : replica.applyEntries (entry :: rest) = .ok (after, applied)) :
    ∃ between first later, replica.applyEntry entry = .ok (between, first) ∧
      between.applyEntries rest = .ok (after, later) ∧ applied = first ++ later := by
  rw [applyEntries] at h
  cases hfirst : replica.applyEntry entry with
  | error error =>
    rw [hfirst] at h
    cases h
  | ok taken =>
    obtain ⟨between, first⟩ := taken
    rw [hfirst] at h
    change (between.applyEntries rest >>= _) = _ at h
    cases hlater : between.applyEntries rest with
    | error error =>
      rw [hlater] at h
      cases h
    | ok last =>
      rw [hlater] at h
      cases h
      exact ⟨between, first, last.2, rfl, hlater, rfl⟩

/-- Entries that can be applied in one go can be applied in two. -/
theorem applyEntries_append_eq_ok {entries rest : List Entry}
    (h : replica.applyEntries (entries ++ rest) = .ok (after, applied)) :
    ∃ between first later, replica.applyEntries entries = .ok (between, first) ∧
      between.applyEntries rest = .ok (after, later) ∧ applied = first ++ later := by
  induction entries generalizing replica applied with
  | nil => exact ⟨replica, [], applied, rfl, h, rfl⟩
  | cons entry entries ih =>
    obtain ⟨next, own, others, hentry, hothers, rfl⟩ := applyEntries_cons_eq_ok h
    obtain ⟨between, first, later, hentries, hrest, rfl⟩ := ih hothers
    exact ⟨between, own ++ first, later, applyEntries_cons_of_ok hentry hentries, hrest,
      (List.append_assoc ..).symm⟩

/-- It does not matter how entries are cut into lists. -/
theorem applyBatches_of_flatten {batches : List (List Entry)}
    (h : replica.applyEntries batches.flatten = .ok (after, applied)) :
    ∃ parts, replica.applyBatches batches = .ok (after, parts) ∧ parts.flatten = applied := by
  induction batches generalizing replica applied with
  | nil =>
    cases h
    exact ⟨[], rfl, rfl⟩
  | cons batch rest ih =>
    obtain ⟨between, first, later, hbatch, hrest, rfl⟩ := applyEntries_append_eq_ok h
    obtain ⟨parts, hparts, rfl⟩ := ih hrest
    refine ⟨first :: parts, ?_, rfl⟩
    rw [applyBatches, hbatch]
    change (between.applyBatches rest >>= _) = _
    rw [hparts]
    rfl

end Applied

/-- An entry without a command only moves the index. -/
theorem applyEntry_of_none {entry : Entry} (h : commandData entry = none) (replica : Replica) :
    replica.applyEntry entry = .ok ({ replica with appliedIndex := entry.index }, []) := by
  rw [applyEntry, h]

/-- An entry with a command applies it, and is recorded with its answers. -/
theorem applyEntry_of_some {entry : Entry} {command : Command} (hfits : command.LengthsFit)
    (h : commandData entry = some command.encode) (replica : Replica) :
    let step := replica.machine.apply command
    replica.applyEntry entry = .ok ({ machine := step.state, appliedIndex := entry.index },
      [{ index := entry.index, term := entry.term, invocation := command.invocation,
         answer := step.answer, notes := step.notes }]) := by
  have hread : Command.decode command.encode = .ok command :=
    Command.decode_eq_ok.mpr ⟨hfits, List.prefix_rfl⟩
  rw [applyEntry, h]
  change (Command.decode command.encode >>= _) = _
  rw [hread]
  rfl

/-- The index up to which the log is applied once the given entries are. -/
def indexAfter (applied : Nat) (entries : List Entry) : Nat :=
  (entries.getLast?.map (·.index)).getD applied

/-- The index after some entries is that after the later ones. -/
theorem indexAfter_cons (applied : Nat) (entry : Entry) (rest : List Entry) :
    indexAfter applied (entry :: rest) = indexAfter entry.index rest := by
  rw [indexAfter, indexAfter, List.getLast?_cons]
  cases rest.getLast? <;> rfl

/-- The entries of decisions can be applied. They take the replica through the commands in their
    order, and give a record for each. -/
theorem applyEntries_entries (replica : Replica) (index : Nat) (decisions : List Decision) :
    replica.applyEntries (Decision.entries index decisions) = .ok (
      { machine := replica.machine.replay (Decision.commands decisions)
        appliedIndex := indexAfter replica.appliedIndex (Decision.entries index decisions) },
      Decision.records replica.machine index decisions) := by
  induction decisions generalizing replica index with
  | nil => rfl
  | cons decision rest ih =>
    have hdata := decision.commandData_entry (index + 1)
    rw [Decision.entries, Decision.commands, List.filterMap_cons, Decision.records]
    cases hcommand : decision.command? with
    | none =>
      rw [hcommand] at hdata
      rw [applyEntries_cons_of_ok (applyEntry_of_none hdata replica) (ih _ _),
        indexAfter_cons, Decision.commands, List.nil_append]
    | some command =>
      rw [hcommand] at hdata
      have hfirst := applyEntry_of_some (Decision.lengthsFit hcommand) hdata replica
      rw [applyEntries_cons_of_ok hfirst (ih _ _),
        indexAfter_cons, Decision.commands, Machine.replay_cons, Decision.entry_index,
        Decision.entry_term, List.singleton_append]

end Replica

end Quorum
