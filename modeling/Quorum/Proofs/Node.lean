import Quorum.Proofs.Replica
import Quorum.Proofs.Worker.Events

namespace Quorum

open Consensus

/-- What an engine does while a node hands out a bundle. -/
def Consensus.handOut : Action (Except StorageError (Batch × Sequel)) := do
  let batch ← takeBatch
  match ← store batch with
  | .error error => return .error error
  | .ok () =>
    let sequel ← settle batch
    sequel.commit.elim (pure ()) storeCommit
    noteApplied
    return .ok (batch, sequel)

/-- What is done with a node: its engine is called upon, in whatever way, or it is polled. -/
inductive NodeStep where
  | call (action : Action Unit)
  | poll

namespace Consensus.Engine

/-- The lists of decided entries that an engine hands out in a poll, if anything is ready. -/
def polled (engine : Engine) : Node.Call (List (List Entry) × Engine) :=
  if engine.hasBatch then do
    let (handed, engine) ← (handOut engine : Option _)
    match handed with
    | .error error => throw (.install error)
    | .ok (batch, sequel) => return ([batch.decided, sequel.decided], engine)
  else return ([], engine)

/-- The lists of decided entries that an engine hands out on its way. -/
def handedOut (engine : Engine) : List NodeStep → Node.Call (List (List Entry) × Engine)
  | [] => return ([], engine)
  | .call action :: rest => do
    let (_, engine) ← (action engine : Option _)
    engine.handedOut rest
  | .poll :: rest => do
    let (batches, engine) ← engine.polled
    let (later, engine) ← engine.handedOut rest
    return (batches ++ later, engine)

end Consensus.Engine

namespace Node

/-- The records that a node hands out on its way. -/
def follow (node : Node) : List NodeStep → Call (List AppliedEntry × Node)
  | [] => return ([], node)
  | .call action :: rest => do
    let (_, node) ← (node.run action : Option _)
    node.follow rest
  | .poll :: rest => do
    let (bundle?, node) ← node.poll
    let (later, node) ← node.follow rest
    return (bundle?.elim [] Bundle.applied ++ later, node)

namespace Call

variable {ε α β : Type}

theorem bind_of_ok {x : ExceptT ε Option α} {a : α} (h : x = some (.ok a))
    (f : α → ExceptT ε Option β) : x >>= f = f a := by
  subst h
  rfl

theorem lift_bind_of_some {x : Option α} {a : α} (h : x = some a) (f : α → ExceptT ε Option β) :
    (liftM x : ExceptT ε Option α) >>= f = f a := by
  subst h
  rfl

end Call

/-- A call of the engine leaves the replica as it is. -/
theorem run_of_some {α : Type} {action : Action α} {engine after : Engine} {answer : α}
    (h : action engine = some (answer, after)) (replica : Replica) :
    run { engine, replica } action = some (answer, { engine := after, replica }) := by
  rw [run, h]
  rfl

/-- Entries that the replica can apply are applied without touching the engine. -/
theorem apply_of_ok {replica after : Replica} {entries : List Entry} {applied : List AppliedEntry}
    (h : replica.applyEntries entries = .ok (after, applied)) (engine : Engine) :
    apply { engine, replica } entries =
      (some (.ok ({ engine, replica := after }, applied)) : Option _) := by
  rw [apply, h]
  rfl

end Node

/-- The calls of an engine that has handed out a batch and its sequel. -/
theorem Consensus.handOut_eq_ok {engine after : Engine} {batch : Batch} {sequel : Sequel}
    (h : handOut engine = some (.ok (batch, sequel), after)) :
    ∃ taken stored settled saved, takeBatch engine = some (batch, taken) ∧
      store batch taken = some (.ok (), stored) ∧ settle batch stored = some (sequel, settled) ∧
      sequel.commit.elim (pure ()) storeCommit settled = some ((), saved) ∧
      noteApplied saved = some ((), after) := by
  obtain ⟨taken, afterTake, htake, hrest⟩ := bind_eq_some h
  obtain ⟨stored, afterStore, hstore, hrest⟩ := bind_eq_some hrest
  cases stored with
  | error error => cases hrest
  | ok =>
    obtain ⟨found, settled, hsettle, hrest⟩ := bind_eq_some hrest
    obtain ⟨⟨⟩, saved, hsave, hrest⟩ := bind_eq_some hrest
    obtain ⟨⟨⟩, noted, hnote, hdone⟩ := bind_eq_some hrest
    cases hdone
    exact ⟨_, _, _, _, htake, hstore, hsettle, hsave, hnote⟩

namespace Node

/-- A node hands out a bundle if its engine does its part and its replica can apply both lists. -/
theorem pollReady_of_handOut {engine later : Engine} {batch : Batch} {sequel : Sequel}
    (h : handOut engine = some (.ok (batch, sequel), later))
    {replica between after : Replica} {first second : List AppliedEntry}
    (hfirst : replica.applyEntries batch.decided = .ok (between, first))
    (hsecond : between.applyEntries sequel.decided = .ok (after, second)) :
    ∃ bundle, pollReady { engine, replica } =
        some (.ok (bundle, { engine := later, replica := after })) ∧
      bundle.applied = first ++ second := by
  obtain ⟨taken, stored, settled, saved, htake, hstore, hsettle, hsave, hnote⟩ := handOut_eq_ok h
  refine ⟨{ messages := batch.messages ++ sequel.messages, applied := first ++ second
            reads := batch.reads }, ?_, rfl⟩
  refine (Call.lift_bind_of_some (run_of_some htake replica) _).trans ?_
  refine (Call.lift_bind_of_some (run_of_some hstore replica) _).trans ?_
  refine (Call.bind_of_ok (apply_of_ok hfirst stored) _).trans ?_
  refine (Call.lift_bind_of_some (run_of_some hsettle between) _).trans ?_
  refine (Call.lift_bind_of_some (run_of_some hsave between) _).trans ?_
  refine (Call.bind_of_ok (apply_of_ok hsecond saved) _).trans ?_
  exact Call.lift_bind_of_some (run_of_some hnote after) _

variable {engine later : Engine} {replica after : Replica} {batches : List (List Entry)}
  {applied : List AppliedEntry}

/-- A poll succeeds if the engine does its part and the replica can apply what is handed out. -/
theorem poll_of_polled (h : engine.polled = some (.ok (batches, later)))
    (happlied : replica.applyEntries batches.flatten = .ok (after, applied)) :
    ∃ bundle?, poll { engine, replica } =
        some (.ok (bundle?, { engine := later, replica := after })) ∧
      bundle?.elim [] Bundle.applied = applied := by
  unfold Engine.polled at h
  unfold poll
  split at h
  · rename_i hready
    rw [if_pos hready]
    obtain ⟨⟨handed, last⟩, hhanded, hrest⟩ := Call.bind_eq_ok h
    have hout := Call.lift_eq_ok hhanded
    cases handed with
    | error error => cases hrest
    | ok parts =>
      obtain ⟨batch, sequel⟩ := parts
      cases hrest
      rw [List.flatten_cons, List.flatten_singleton] at happlied
      obtain ⟨between, first, second, hfirst, hsecond, rfl⟩ :=
        Replica.applyEntries_append_eq_ok happlied
      obtain ⟨bundle, hbundle, hrecords⟩ := pollReady_of_handOut hout hfirst hsecond
      exact ⟨some bundle, Call.bind_of_ok hbundle _, hrecords⟩
  · rename_i hready
    rw [if_neg hready]
    cases h
    cases happlied
    exact ⟨none, rfl, rfl⟩

/-- A node goes as far as its engine does, if its replica can apply what is handed out on the
    way. -/
theorem follow_of_handedOut {steps : List NodeStep}
    (h : engine.handedOut steps = some (.ok (batches, later)))
    (happlied : replica.applyEntries batches.flatten = .ok (after, applied)) :
    follow { engine, replica } steps =
      some (.ok (applied, { engine := later, replica := after })) := by
  -- Each poll takes its own lists off the front; the replica starts the rest from where they led.
  induction steps generalizing engine replica batches applied with
  | nil =>
    cases h
    cases happlied
    rfl
  | cons step rest ih =>
    cases step with
    | call action =>
      obtain ⟨⟨⟨⟩, next⟩, hcall, hrest⟩ := Call.bind_eq_ok h
      have hrun := run_of_some (Call.lift_eq_ok hcall) replica
      exact (Call.lift_bind_of_some hrun _).trans (ih hrest happlied)
    | poll =>
      obtain ⟨⟨first, next⟩, hpolled, hrest⟩ := Call.bind_eq_ok h
      obtain ⟨⟨others, last⟩, hothers, hdone⟩ := Call.bind_eq_ok hrest
      cases hdone
      rw [List.flatten_append] at happlied
      obtain ⟨between, own, records, hown, hrecords, rfl⟩ :=
        Replica.applyEntries_append_eq_ok happlied
      obtain ⟨bundle?, hpoll, rfl⟩ := poll_of_polled hpolled hown
      exact (Call.bind_of_ok hpoll _).trans (Call.bind_of_ok (ih hothers hrecords) _)

/-- A member's state is the fold of what its group decides, in whatever lists the entries come. The
    lists can be applied one after the other. Then the replica has applied the commands among the
    decisions in their order, and the log up to the last entry, and it has given out one record for
    each command, with its own place, term, caller and answers; each command was taken for the one
    that was logged, and nothing else for a command. A node whose engine hands out these lists, two
    in a poll and with other calls in between, gets there and gives out these records. -/
theorem fold_of_decisions (index : Nat) (decisions : List Decision) {batches : List (List Entry)}
    (h : batches.flatten = Decision.entries index decisions) (replica : Replica) :
    let after : Replica :=
      { machine := replica.machine.replay (Decision.commands decisions)
        appliedIndex := Replica.indexAfter replica.appliedIndex batches.flatten }
    let records := Decision.records replica.machine index decisions
    (∃ applied, replica.applyBatches batches = .ok (after, applied) ∧ applied.flatten = records) ∧
      batches.flatten.filterMap Replica.commandData =
        (Decision.commands decisions).map Command.encode ∧
      ∀ (engine later : Engine) (steps : List NodeStep),
        engine.handedOut steps = some (.ok (batches, later)) →
        follow { engine, replica } steps =
          some (.ok (records, { engine := later, replica := after })) := by
  intro after records
  have happlied : replica.applyEntries batches.flatten = .ok (after, records) := by
    simp only [after, h]
    exact replica.applyEntries_entries index decisions
  refine ⟨Replica.applyBatches_of_flatten happlied, ?_, fun engine later steps hsteps =>
    follow_of_handedOut hsteps happlied⟩
  rw [h]
  exact Decision.filterMap_commandData_entries index decisions

/-- A leader's start, a change of the members and two commands. -/
def fourDecisions : List Decision :=
  [⟨1, .nothing⟩, ⟨1, .membership [7]⟩,
    ⟨1, .command { operation := .session (.create "a") } (by decide +kernel)⟩,
    ⟨1, .command { operation := .semaphore "permit" (.init 3) } (by decide +kernel)⟩]

/-- A follower hears of three decisions and then of the fourth, and bit by bit that they are
    committed. -/
def hearFour : List NodeStep :=
  let entries := Decision.entries 0 fourDecisions
  let hear (body : Body) : NodeStep :=
    .call (do let _ ← receive { source := some 1, target := some 2, term := 1, body })
  [hear (.append 0 0 1 (entries.take 3)), .poll, hear (.append 3 1 2 (entries.drop 3)), .poll,
    hear (.heartbeat 4 none), .poll]

/-- A follower applies the first entry after its batch is settled and the others before. -/
theorem follower_folds_decisions :
    let entries := Decision.entries 0 fourDecisions
    let batches := [[], entries.take 1, (entries.drop 1).take 1, [], entries.drop 2, []]
    ∃ node after records, Node.new 2 [1, 2] {} = some (.ok node) ∧
      node.engine.handedOut hearFour = some (.ok (batches, after.engine)) ∧
      node.follow hearFour = some (.ok (records, after)) ∧
      after.replica.machine =
        .run ({} : Config).machineOptions (Decision.commands fourDecisions) ∧
      after.replica.appliedIndex = 4 ∧
      records.map (fun record => (record.index, record.answer)) =
        [(3, .ok (.session ⟨1, 300000⟩)), (4, .ok (.bool true))] := by
  intro entries batches
  let fresh : Replica := { machine := .new ({} : Config).machineOptions }
  let played : Call (List (List Entry) × Replica) := do
    let node ← Node.new 2 [1, 2] {}
    let (handed, _) ← node.engine.handedOut hearFour
    return (handed, node.replica)
  have hplayed : played.run.bind Except.toOption = some (batches, fresh) := by decide +kernel
  obtain ⟨result, hresult, hsame⟩ := Option.bind_eq_some_iff.mp hplayed
  cases result with
  | error error => cases hsame
  | ok view =>
    cases hsame
    obtain ⟨⟨engine, replica⟩, hnew, hrest⟩ := Call.bind_eq_ok hresult
    obtain ⟨⟨handed, later⟩, hhanded, hdone⟩ := Call.bind_eq_ok hrest
    obtain ⟨hbatches, hreplica⟩ := Prod.mk.inj (Except.ok.inj (Option.some.inj hdone))
    change replica = fresh at hreplica
    rw [hbatches] at hhanded
    rw [hreplica] at hnew
    have hflatten : batches.flatten = entries := by decide +kernel
    obtain ⟨-, -, hfollow⟩ := fold_of_decisions 0 fourDecisions hflatten fresh
    exact ⟨_, { engine := later, replica := _ }, _, hnew, hhanded, hfollow _ _ _ hhanded, rfl,
      rfl, by decide +kernel⟩

end Node

end Quorum
