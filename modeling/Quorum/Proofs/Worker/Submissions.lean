import Quorum.Proofs.SortedMap
import Quorum.Worker

namespace Quorum

/-- A submission that was accepted, with the place and the term of its entry. -/
structure Submission where
  index : Nat
  term : Nat
  invocation : Invocation
  operation : Operation
  ticket : Ticket

/-- What settles submissions. -/
inductive SubmissionEvent where
  | accepted (submission : Submission)
  | applied (entry : AppliedEntry)
  /-- All places up to one have been applied. -/
  | passed (index : Nat)
  /-- The member is seen to lead no longer. -/
  | deposed

namespace Submission

/-- What a worker keeps of a submission. -/
def proposal (submission : Submission) : PendingProposal where
  term := submission.term
  retryable := isRetryable submission.invocation submission.operation
  ticket := submission.ticket

/-- What its caller is told if its fate is not known. -/
def unknown (submission : Submission) : Receipt :=
  .outcome (.indeterminate (isRetryable submission.invocation submission.operation))

/-- What its caller is told when an entry is applied at its place. -/
def replyTo (submission : Submission) (entry : AppliedEntry) : Receipt :=
  if submission.term ≠ entry.term then submission.unknown
  else
    match entry.answer, entry.invocation.uid with
    | .done result, _ => .outcome (.ofResult result)
    | .waiting, some _ => .parked
    | .waiting, none => submission.unknown

/-- What its caller is told at an event that settles it. -/
def reply? (submission : Submission) : SubmissionEvent → Option Receipt
  | .accepted other => if other.index = submission.index then some .abandoned else none
  | .applied entry =>
    if entry.index = submission.index then some (submission.replyTo entry) else none
  | .passed index => if submission.index ≤ index then some submission.unknown else none
  | .deposed => some submission.unknown

end Submission

namespace Worker

/-- What a ticket's caller has been told, in order. -/
def receiptsOf (worker : Worker) (ticket : Ticket) : List Receipt :=
  (worker.receipts.filter fun receipt => receipt.1 = ticket).map (·.2)

theorem receiptsOf_tell (worker : Worker) (other : Ticket) (receipt : Receipt) (ticket : Ticket) :
    (worker.tell other receipt).receiptsOf ticket =
      worker.receiptsOf ticket ++ if other = ticket then [receipt] else [] := by
  rw [receiptsOf, tell, List.filter_append, List.map_append, receiptsOf]
  congr 1
  by_cases hsame : other = ticket <;> simp [hsame]

theorem receiptsOf_forsakeAll (worker : Worker) (given : List PendingProposal) (ticket : Ticket) :
    (given.foldl forsake worker).receiptsOf ticket = worker.receiptsOf ticket ++
      (given.filter fun proposal => proposal.ticket = ticket).map fun proposal =>
        Receipt.outcome (.indeterminate proposal.retryable) := by
  induction given generalizing worker with
  | nil => exact (List.append_nil _).symm
  | cons proposal rest ih =>
    rw [List.foldl_cons, ih, forsake, answer, receiptsOf_tell]
    by_cases hsame : proposal.ticket = ticket
    · simp [hsame]
    · simp [hsame]

/-- The ticket is kept where it was, and its caller is told nothing. -/
structure Spares (worker after : Worker) (ticket : Ticket) : Prop where
  proposals : ∀ index proposal, proposal.ticket = ticket →
    (after.proposals.get? index = some proposal ↔ worker.proposals.get? index = some proposal)
  parked : ∀ uid, after.parked.get? uid = some ticket ↔ worker.parked.get? uid = some ticket
  receipts : after.receiptsOf ticket = worker.receiptsOf ticket

/-- Where the ticket of a submission is found, by the first receipt that its caller was told, if it
    was told any. -/
inductive Fate (worker : Worker) (submission : Submission) : Option Receipt → Prop
  | pending
    (hproposals : ∀ index proposal, worker.proposals.get? index = some proposal ∧
      proposal.ticket = submission.ticket ↔
        index = submission.index ∧ proposal = submission.proposal)
    (hparked : ∀ uid, worker.parked.get? uid ≠ some submission.ticket)
    (htold : worker.receiptsOf submission.ticket = []) : Fate worker submission none
  /-- Its call waits in a replica's queue. -/
  | parked (uid : InvocationUid)
    (hproposals : ∀ index proposal, worker.proposals.get? index = some proposal →
      proposal.ticket ≠ submission.ticket)
    (hparked : ∀ other, worker.parked.get? other = some submission.ticket ↔ other = uid)
    (htold : worker.receiptsOf submission.ticket = [.parked]) :
    Fate worker submission (some .parked)
  | answered {reply : Receipt}
    (hproposals : ∀ index proposal, worker.proposals.get? index = some proposal →
      proposal.ticket ≠ submission.ticket)
    (hparked : ∀ uid, worker.parked.get? uid ≠ some submission.ticket)
    (htold : worker.receiptsOf submission.ticket = [reply]) : Fate worker submission (some reply)
  /-- Its call waited in a replica's queue, and that is over. -/
  | released (last : Receipt)
    (hproposals : ∀ index proposal, worker.proposals.get? index = some proposal →
      proposal.ticket ≠ submission.ticket)
    (hparked : ∀ uid, worker.parked.get? uid ≠ some submission.ticket)
    (htold : worker.receiptsOf submission.ticket = [.parked, last]) :
    Fate worker submission (some .parked)

namespace Fate

variable {worker after : Worker} {submission : Submission} {reply : Option Receipt}

/-- What spares a ticket leaves its submission's fate. -/
theorem spared (h : Fate worker submission reply) (hspares : Spares worker after submission.ticket) :
    Fate after submission reply := by
  have hgone : (∀ index proposal, worker.proposals.get? index = some proposal →
      proposal.ticket ≠ submission.ticket) → ∀ index proposal,
      after.proposals.get? index = some proposal → proposal.ticket ≠ submission.ticket := by
    intro hproposals index proposal hget hsame
    exact hproposals index proposal ((hspares.proposals index proposal hsame).mp hget) hsame
  cases h with
  | pending hproposals hparked htold =>
    refine .pending (fun index proposal => ?_) (fun uid hget => hparked uid ?_) ?_
    · rw [← hproposals index proposal]
      exact and_congr_left fun hsame => hspares.proposals index proposal hsame
    · exact (hspares.parked uid).mp hget
    · exact hspares.receipts.trans htold
  | parked uid hproposals hparked htold =>
    exact .parked uid (hgone hproposals) (fun other => (hspares.parked other).trans (hparked other))
      (hspares.receipts.trans htold)
  | answered hproposals hparked htold =>
    exact .answered (hgone hproposals)
      (fun uid hget => hparked uid ((hspares.parked uid).mp hget)) (hspares.receipts.trans htold)
  | released last hproposals hparked htold =>
    exact .released last (hgone hproposals)
      (fun uid hget => hparked uid ((hspares.parked uid).mp hget)) (hspares.receipts.trans htold)

/-- Only a submission whose caller was told nothing is kept as a proposal. -/
theorem own_of_get? (h : Fate worker submission reply) {index : Nat} {proposal : PendingProposal}
    (hget : worker.proposals.get? index = some proposal)
    (hsame : proposal.ticket = submission.ticket) :
    reply = none ∧ index = submission.index ∧ proposal = submission.proposal := by
  cases h with
  | pending hproposals hparked htold =>
    exact ⟨rfl, (hproposals index proposal).mp ⟨hget, hsame⟩⟩
  | parked _ hproposals | answered hproposals | released _ hproposals =>
    exact absurd hsame (hproposals index proposal hget)

/-- A submission is tracked exactly while it is unanswered. -/
theorem get?_eq_some_iff (h : Fate worker submission reply) :
    worker.proposals.get? submission.index = some submission.proposal ↔ reply = none := by
  constructor
  · intro hget
    exact (h.own_of_get? hget rfl).1
  · rintro rfl
    cases h with
    | pending hproposals hparked htold =>
      exact ((hproposals submission.index submission.proposal).mpr ⟨rfl, rfl⟩).1

/-- A caller is told one receipt, or a second one if it was parked by the first. -/
theorem receiptsOf_eq (h : Fate worker submission reply) :
    worker.receiptsOf submission.ticket = reply.toList ∨
      reply = some .parked ∧ ∃ last, worker.receiptsOf submission.ticket = [.parked, last] := by
  cases h with
  | pending _ _ htold | parked _ _ _ htold | answered _ _ htold => exact .inl htold
  | released last _ _ htold => exact .inr ⟨rfl, last, htold⟩

end Fate

/-- The ticket is kept nowhere, and its caller was told nothing yet. -/
structure Untold (worker : Worker) (ticket : Ticket) : Prop where
  proposals : ∀ index proposal, worker.proposals.get? index = some proposal →
    proposal.ticket ≠ ticket
  parked : ∀ uid, worker.parked.get? uid ≠ some ticket
  receipts : worker.receiptsOf ticket = []

theorem receiptsOf_tell_self (worker : Worker) (ticket : Ticket) (receipt : Receipt) :
    (worker.tell ticket receipt).receiptsOf ticket = worker.receiptsOf ticket ++ [receipt] := by
  rw [receiptsOf_tell, if_pos rfl]

theorem receiptsOf_tell_of_ne (worker : Worker) {other ticket : Ticket} (h : other ≠ ticket)
    (receipt : Receipt) :
    (worker.tell other receipt).receiptsOf ticket = worker.receiptsOf ticket := by
  rw [receiptsOf_tell, if_neg h, List.append_nil]

theorem spares_tell (worker : Worker) {other ticket : Ticket} (h : other ≠ ticket)
    (receipt : Receipt) : Spares worker (worker.tell other receipt) ticket :=
  ⟨fun _ _ _ => .rfl, fun _ => .rfl, receiptsOf_tell_of_ne worker h receipt⟩

section Steps

variable {worker : Worker} {submission : Submission} {reply : Option Receipt}

/-- The first receipt of a submission is its reply. -/
theorem Untold.tell (h : Untold worker submission.ticket) (receipt : Receipt) :
    Fate (worker.tell submission.ticket receipt) submission (some receipt) := by
  refine .answered h.proposals h.parked ?_
  rw [receiptsOf_tell_self, h.receipts, List.nil_append]

/-- A submission that parks is answered so. -/
theorem Untold.park (h : Untold worker submission.ticket) (uid : InvocationUid) :
    Fate (worker.park uid submission.ticket) submission (some .parked) := by
  have hinsert : ∀ between : Worker, Untold between submission.ticket →
      Fate ({ between with parked := between.parked.insert uid submission.ticket }.tell
        submission.ticket .parked) submission (some .parked) := by
    intro between hbetween
    refine .parked uid hbetween.proposals (fun other => ?_) ?_
    · change (between.parked.insert uid submission.ticket).get? other = _ ↔ _
      rw [SortedMap.get?_insert]
      split
      · rename_i hsame
        exact iff_of_true rfl hsame.symm
      · rename_i hother
        exact iff_of_false (hbetween.parked other) fun hsame => hother hsame.symm
    · rw [receiptsOf_tell_self]
      exact congrArg (· ++ [Receipt.parked]) hbetween.receipts
  unfold Worker.park
  cases hget : worker.parked.get? uid with
  | none => exact hinsert worker h
  | some older =>
    have hother : older ≠ submission.ticket := fun hsame => h.parked uid (hsame ▸ hget)
    refine hinsert _ ⟨h.proposals, h.parked, ?_⟩
    rw [receiptsOf_tell_of_ne _ hother]
    exact h.receipts

namespace Fate

/-- The answer to a parked call ends the wait of the caller that is kept under its token. -/
theorem notify (h : Fate worker submission reply) (note : Notification) :
    Fate (worker.notify note) submission reply := by
  unfold Worker.notify
  cases hget : worker.parked.get? note.uid with
  | none => exact h
  | some ticket =>
    have herased (uid : InvocationUid) : (worker.parked.erase note.uid).get? uid =
        if note.uid = uid then none else worker.parked.get? uid := SortedMap.get?_erase _ _ _
    by_cases hown : ticket = submission.ticket
    · subst hown
      cases h with
      | pending _ hparked | answered _ hparked | released _ _ hparked =>
        exact absurd hget (hparked note.uid)
      | parked uid hproposals hparked htold =>
        obtain rfl := (hparked note.uid).mp hget
        refine .released (.outcome (.ofResult note.result)) hproposals (fun uid hkept => ?_) ?_
        · change (worker.parked.erase note.uid).get? uid = _ at hkept
          rw [herased] at hkept
          split at hkept
          · cases hkept
          · rename_i hother
            exact hother ((hparked uid).mp hkept).symm
        · refine (receiptsOf_tell_self _ submission.ticket _).trans ?_
          exact congrArg (· ++ [_]) htold
    · refine h.spared ⟨fun _ _ _ => .rfl, fun uid => ?_, receiptsOf_tell_of_ne _ hown _⟩
      change (worker.parked.erase note.uid).get? uid = _ ↔ _
      rw [herased]
      split
      · rename_i hsame
        rw [← hsame, hget]
        exact iff_of_false (by simp) fun heq => hown (Option.some.inj heq)
      · rfl

theorem notifyAll (h : Fate worker submission reply) (notes : List Notification) :
    Fate (notes.foldl Worker.notify worker) submission reply := by
  induction notes generalizing worker with
  | nil => exact h
  | cons note rest ih => exact ih (h.notify note)

/-- A caller that is parked takes the place of the one that was kept under its token. -/
theorem park (h : Fate worker submission reply) {ticket : Ticket}
    (hother : ticket ≠ submission.ticket)
    (uid : InvocationUid) : Fate (worker.park uid ticket) submission reply := by
  have hinserted (between : Worker) (other : InvocationUid) :
      (between.parked.insert uid ticket).get? other =
        if uid = other then some ticket else between.parked.get? other :=
    SortedMap.get?_insert _ _ _ _
  have hinsert : ∀ between : Worker, Fate between submission reply →
      between.parked.get? uid ≠ some submission.ticket →
      Fate ({ between with parked := between.parked.insert uid ticket }.tell ticket .parked)
        submission reply := by
    intro between hbetween hfree
    refine hbetween.spared ⟨fun _ _ _ => .rfl, fun other => ?_, receiptsOf_tell_of_ne _ hother _⟩
    change (between.parked.insert uid ticket).get? other = _ ↔ _
    rw [hinserted]
    split
    · rename_i hsame
      rw [← hsame]
      exact iff_of_false (fun heq => hother (Option.some.inj heq)) hfree
    · rfl
  unfold Worker.park
  cases hget : worker.parked.get? uid with
  | none => exact hinsert worker h (by simp [hget])
  | some older =>
    by_cases hown : older = submission.ticket
    · subst hown
      cases h with
      | pending _ hparked | answered _ hparked | released _ _ hparked =>
        exact absurd hget (hparked uid)
      | parked kept hproposals hparked htold =>
        obtain rfl := (hparked uid).mp hget
        refine .released .abandoned hproposals (fun other hkept => ?_) ?_
        · change (worker.parked.insert uid ticket).get? other = _ at hkept
          rw [hinserted] at hkept
          split at hkept
          · exact hother (Option.some.inj hkept)
          · rename_i hne
            exact hne ((hparked other).mp hkept).symm
        · rw [receiptsOf_tell_of_ne _ hother]
          change (worker.tell submission.ticket .abandoned).receiptsOf submission.ticket = _
          rw [receiptsOf_tell_self, htold]
          rfl
    · refine hinsert _ (h.spared (spares_tell worker hown _)) ?_
      change worker.parked.get? uid ≠ _
      rw [hget]
      exact fun heq => hown (Option.some.inj heq)

end Fate

/-- The entry of an unanswered submission settles its reply. -/
theorem Untold.answerProposal (h : Untold worker submission.ticket) (entry : AppliedEntry) :
    Fate (worker.answerProposal submission.proposal entry) submission
      (some (submission.replyTo entry)) := by
  unfold Worker.answerProposal
  by_cases hterm : submission.proposal.term ≠ entry.term
  · have hreply : submission.replyTo entry = submission.unknown := if_pos hterm
    rw [if_pos hterm, hreply]
    exact h.tell _
  · have hreply : submission.replyTo entry = _ := if_neg hterm
    rw [if_neg hterm, hreply]
    cases entry.answer with
    | done result => exact h.tell _
    | waiting =>
      cases entry.invocation.uid with
      | none => exact h.tell _
      | some uid => exact h.park uid

/-- The entry of another submission leaves this one's fate. -/
theorem Fate.answerProposal (h : Fate worker submission reply) {proposal : PendingProposal}
    (hother : proposal.ticket ≠ submission.ticket) (entry : AppliedEntry) :
    Fate (worker.answerProposal proposal entry) submission reply := by
  have htold (outcome : Outcome) : Fate (worker.answer proposal.ticket outcome) submission reply :=
    h.spared (spares_tell worker hother _)
  unfold Worker.answerProposal
  split
  · exact htold _
  · split
    · exact htold _
    · exact h.park hother _
    · exact htold _

/-- A submission whose caller was told nothing is nowhere once its proposal is taken out. -/
theorem Fate.untold (h : Fate worker submission none) {proposals : SortedMap Nat PendingProposal}
    (hproposals : ∀ index proposal, proposals.get? index = some proposal →
      worker.proposals.get? index = some proposal ∧ index ≠ submission.index) :
    Untold { worker with proposals } submission.ticket := by
  cases h with
  | pending hkept hparked htold =>
    refine ⟨fun index proposal hget hsame => ?_, hparked, htold⟩
    obtain ⟨hbefore, hother⟩ := hproposals index proposal hget
    exact hother ((hkept index proposal).mp ⟨hbefore, hsame⟩).1

/-- Taking out proposals of other submissions changes nothing for this one. -/
theorem Fate.withProposals (h : Fate worker submission reply)
    {proposals : SortedMap Nat PendingProposal}
    (hproposals : ∀ index proposal, proposal.ticket = submission.ticket →
      (proposals.get? index = some proposal ↔ worker.proposals.get? index = some proposal)) :
    Fate { worker with proposals } submission reply :=
  h.spared ⟨hproposals, fun _ => .rfl, rfl⟩

/-- An applied entry settles the fate of its own submission and of no other. -/
theorem Fate.noteApplied (h : Fate worker submission reply) (entry : AppliedEntry) :
    Fate (worker.noteApplied entry) submission
      (reply.or (submission.reply? (.applied entry))) := by
  have hnotified := h.notifyAll entry.notes
  unfold Worker.noteApplied
  generalize entry.notes.foldl Worker.notify worker = notified at hnotified
  simp only
  have herased (index : Nat) : (notified.proposals.erase entry.index).get? index =
      if entry.index = index then none else notified.proposals.get? index :=
    SortedMap.get?_erase _ _ _
  cases hget : notified.proposals.get? entry.index with
  | none =>
    have hunsettled : reply.or (submission.reply? (.applied entry)) = reply := by
      cases reply with
      | some receipt => rfl
      | none =>
        refine if_neg fun hsame => ?_
        rw [hsame, hnotified.get?_eq_some_iff.mpr rfl] at hget
        cases hget
    rw [hunsettled]
    exact hnotified
  | some proposal =>
    -- The proposal at the index is that of the submission or that of another one.
    by_cases hown : proposal.ticket = submission.ticket
    · obtain ⟨rfl, hindex, rfl⟩ := hnotified.own_of_get? hget hown
      rw [Option.none_or, Submission.reply?, if_pos hindex]
      refine (hnotified.untold fun index proposal hfound => ?_).answerProposal entry
      rw [herased] at hfound
      split at hfound
      · cases hfound
      · rename_i hne
        exact ⟨hfound, fun hsame => hne (hindex.trans hsame.symm)⟩
    · have hunsettled : reply.or (submission.reply? (.applied entry)) = reply := by
        cases reply with
        | some receipt => rfl
        | none =>
          refine if_neg fun hsame => hown ?_
          rw [hsame, hnotified.get?_eq_some_iff.mpr rfl] at hget
          rw [← Option.some.inj hget]
          rfl
      rw [hunsettled]
      refine (hnotified.withProposals fun index found hsame => ?_).answerProposal hown entry
      rw [herased]
      split
      · rename_i hindex
        rw [← hindex, hget]
        refine iff_of_false (by simp) fun heq => hown ?_
        rw [Option.some.inj heq]
        exact hsame
      · rfl

/-- A submission at the place of another one is kept in its stead. -/
theorem Fate.track (h : Fate worker submission reply) {other : Submission}
    (hother : other.ticket ≠ submission.ticket) :
    Fate (worker.track other.index other.proposal) submission
      (reply.or (submission.reply? (.accepted other))) := by
  have hinserted (index : Nat) :
      (worker.proposals.insert other.index other.proposal).get? index =
        if other.index = index then some other.proposal else worker.proposals.get? index :=
    SortedMap.get?_insert _ _ _ _
  -- Only an unanswered submission can lose its place, and only to one at its own index.
  by_cases hsettles : reply = none ∧ other.index = submission.index
  · obtain ⟨rfl, hindex⟩ := hsettles
    have hget := h.get?_eq_some_iff.mpr rfl
    have huntold : Untold { worker with
        proposals := worker.proposals.insert other.index other.proposal } submission.ticket := by
      cases h with
      | pending hproposals hparked htold =>
        refine ⟨fun index proposal hkept hsame => ?_, hparked, htold⟩
        change (worker.proposals.insert other.index other.proposal).get? index = _ at hkept
        rw [hinserted] at hkept
        split at hkept
        · rw [← Option.some.inj hkept] at hsame
          exact hother hsame
        · rename_i hne
          exact hne (hindex.trans ((hproposals index proposal).mp ⟨hkept, hsame⟩).1.symm)
    rw [Option.none_or, Submission.reply?, if_pos hindex]
    unfold Worker.track
    rw [hindex, hget, ← hindex]
    exact huntold.tell _
  · have hunsettled : reply.or (submission.reply? (.accepted other)) = reply := by
      cases reply with
      | some receipt => rfl
      | none => exact if_neg fun hindex => hsettles ⟨rfl, hindex⟩
    have hfree (proposal : PendingProposal)
        (hget : worker.proposals.get? other.index = some proposal) :
        proposal.ticket ≠ submission.ticket := by
      intro hsame
      obtain ⟨hreply, hindex, -⟩ := h.own_of_get? hget hsame
      exact hsettles ⟨hreply, hindex⟩
    have htracked : Fate { worker with
        proposals := worker.proposals.insert other.index other.proposal } submission reply := by
      refine h.withProposals fun index proposal hsame => ?_
      rw [hinserted]
      split
      · rename_i hindex
        rw [← hindex]
        refine iff_of_false (fun heq => hother ?_) fun hget => hfree proposal hget hsame
        rw [← Option.some.inj heq] at hsame
        exact hsame
      · rfl
    rw [hunsettled]
    unfold Worker.track
    cases hget : worker.proposals.get? other.index with
    | none => exact htracked
    | some older => exact htracked.spared (spares_tell _ (hfree older hget) _)

theorem forsakeAll_kept (worker : Worker) (given : List PendingProposal) :
    (given.foldl forsake worker).proposals = worker.proposals ∧
      (given.foldl forsake worker).parked = worker.parked ∧
      (given.foldl forsake worker).node = worker.node := by
  induction given generalizing worker with
  | nil => exact ⟨rfl, rfl, rfl⟩
  | cons proposal rest ih => exact ih _

/-- Proposals of other submissions are given up without a trace. -/
theorem Fate.forsakeAll (h : Fate worker submission reply) {given : List PendingProposal}
    (hothers : ∀ proposal ∈ given, proposal.ticket ≠ submission.ticket) :
    Fate (given.foldl Worker.forsake worker) submission reply := by
  induction given generalizing worker with
  | nil => exact h
  | cons proposal rest ih =>
    obtain ⟨hproposal, hrest⟩ := List.forall_mem_cons.mp hothers
    exact ih (h.spared (spares_tell worker hproposal _)) hrest

theorem Untold.forsakeAll (h : Untold worker submission.ticket) {given : List PendingProposal}
    (hown : given.filter (fun proposal => proposal.ticket = submission.ticket) =
      [submission.proposal]) :
    Fate (given.foldl Worker.forsake worker) submission (some submission.unknown) := by
  obtain ⟨hproposals, hparked, -⟩ := forsakeAll_kept worker given
  refine .answered ?_ ?_ ?_
  · rw [hproposals]
    exact h.proposals
  · rw [hparked]
    exact h.parked
  · rw [receiptsOf_forsakeAll, h.receipts, hown]
    rfl

/-- Gives up the proposals for some places. -/
def giveUp (worker : Worker) (given : Nat → Bool) : Worker :=
  (worker.proposals.filter fun index _ => given index).values.foldl forsake
    { worker with proposals := worker.proposals.filter fun index _ => !given index }

/-- A submission is given up with its index, unless it is answered. -/
theorem Fate.giveUp (h : Fate worker submission reply) (given : Nat → Bool) :
    Fate (worker.giveUp given) submission
      (reply.or (if given submission.index then some submission.unknown else none)) := by
  have hget (keep : Nat → Bool) (index : Nat) (proposal : PendingProposal) :
      (worker.proposals.filter fun index _ => keep index).get? index = some proposal ↔
        worker.proposals.get? index = some proposal ∧ keep index = true := by
    rw [SortedMap.get?_filter, Option.filter_eq_some_iff]
  -- An answered submission is not tracked any more, so it is not among the given up.
  by_cases hsettles : reply = none ∧ given submission.index = true
  · obtain ⟨rfl, hgiven⟩ := hsettles
    rw [Option.none_or, if_pos hgiven]
    have huntold : Untold { worker with
        proposals := worker.proposals.filter fun index _ => !given index } submission.ticket := by
      refine h.untold fun index proposal hkept => ?_
      obtain ⟨hbefore, hkeep⟩ := (hget (fun index => !given index) index proposal).mp hkept
      refine ⟨hbefore, ?_⟩
      rintro rfl
      rw [hgiven] at hkeep
      cases hkeep
    have hown : ∀ index proposal,
        (worker.proposals.filter fun index _ => given index).get? index = some proposal ∧
          decide (proposal.ticket = submission.ticket) = true ↔
            index = submission.index ∧ proposal = submission.proposal := by
      intro index proposal
      rw [hget given, decide_eq_true_eq]
      constructor
      · rintro ⟨⟨hbefore, -⟩, hsame⟩
        exact (h.own_of_get? hbefore hsame).2
      · rintro ⟨rfl, rfl⟩
        exact ⟨⟨h.get?_eq_some_iff.mpr rfl, hgiven⟩, rfl⟩
    exact huntold.forsakeAll (SortedMap.filter_values_eq_singleton hown)
  · have hunsettled : reply.or (if given submission.index then some submission.unknown else none) =
        reply := by
      cases reply with
      | some receipt => rfl
      | none => exact if_neg fun hgiven => hsettles ⟨rfl, hgiven⟩
    have hspared (index : Nat) (proposal : PendingProposal)
        (hbefore : worker.proposals.get? index = some proposal)
        (hsame : proposal.ticket = submission.ticket) : given index = false := by
      obtain ⟨hreply, rfl, -⟩ := h.own_of_get? hbefore hsame
      exact Bool.eq_false_iff.mpr fun hgiven => hsettles ⟨hreply, hgiven⟩
    rw [hunsettled]
    refine (h.withProposals fun index proposal hsame => ?_).forsakeAll fun proposal hmem => ?_
    · rw [hget fun index => !given index]
      exact and_iff_left_of_imp fun hbefore => by rw [hspared index proposal hbefore hsame]; rfl
    · obtain ⟨index, hfound⟩ := SortedMap.mem_values.mp hmem
      obtain ⟨hbefore, hgiven⟩ := (hget given index proposal).mp hfound
      intro hsame
      rw [hspared index proposal hbefore hsame] at hgiven
      cases hgiven

/-- A submission whose index has passed is given up, unless it is answered. -/
theorem Fate.resolveStale (h : Fate worker submission reply) :
    Fate worker.resolveStale submission
      (reply.or (submission.reply? (.passed worker.node.appliedIndex))) := by
  have hgiven := h.giveUp fun index => index ≤ worker.node.appliedIndex
  simp only [decide_eq_true_eq] at hgiven
  exact hgiven

/-- Telling the callers of others anything. -/
theorem Fate.foldl_answer {α : Type} {ticket : α → Ticket} {outcome : Worker → α → Outcome}
    (h : Fate worker submission reply) {items : List α}
    (hothers : ∀ item ∈ items, ticket item ≠ submission.ticket) :
    Fate (items.foldl (fun worker item => worker.answer (ticket item) (outcome worker item)) worker)
      submission reply := by
  induction items generalizing worker with
  | nil => exact h
  | cons item rest ih =>
    obtain ⟨hitem, hrest⟩ := List.forall_mem_cons.mp hothers
    exact ih (h.spared (spares_tell worker hitem _)) hrest

/-- Once the lead is seen to be lost, all proposals are given up. -/
theorem Fate.abandonLeadership (h : Fate worker submission reply)
    (hreads : ∀ read ∈ worker.reads.drain.1, read.ticket ≠ submission.ticket) :
    Fate worker.abandonLeadership submission (reply.or (submission.reply? .deposed)) := by
  let drained : Worker := { worker with reads := worker.reads.drain.2 }
  have hdrained : Fate drained submission reply :=
    h.spared ⟨fun _ _ _ => .rfl, fun _ => .rfl, rfl⟩
  have hforsaken := hdrained.giveUp fun _ => true
  have hall : worker.proposals.filter (fun _ _ => true) = worker.proposals :=
    SortedMap.ext_get? fun index => by
      rw [SortedMap.get?_filter]
      cases worker.proposals.get? index <;> rfl
  have hnone : worker.proposals.filter (fun _ _ => !true) = ∅ :=
    SortedMap.ext_get? fun index => by
      rw [SortedMap.get?_filter]
      exact Option.filter_eq_none_iff.mpr fun _ _ => Bool.false_ne_true
  have hgiven : drained.giveUp (fun _ => true) = worker.proposals.values.foldl Worker.forsake
      { worker with proposals := ∅, reads := worker.reads.drain.2 } := by
    simp only [Worker.giveUp, drained, hall, hnone]
  rw [hgiven] at hforsaken
  exact hforsaken.foldl_answer hreads

end Steps

end Worker

end Quorum
