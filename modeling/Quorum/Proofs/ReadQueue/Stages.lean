import Quorum.Proofs.Counter
import Quorum.Proofs.ReadQueue
import Quorum.Proofs.ReadQueue.Context

namespace Quorum

/-- A call of a read queue. -/
inductive ReadEvent (α : Type) where
  | push (read : α)
  | issue
  | confirm (context : List UInt8) (index : UInt64)
  | ready (applied : UInt64)
  | drain

namespace ReadEvent

variable {α β : Type}

/-- The read that a call hands over. -/
def pushed : ReadEvent α → List α
  | .push read => [read]
  | _ => []

def map (f : α → β) : ReadEvent α → ReadEvent β
  | .push read => .push (f read)
  | .issue => .issue
  | .confirm context index => .confirm context index
  | .ready applied => .ready applied
  | .drain => .drain

theorem pushed_map (f : α → β) (event : ReadEvent α) :
    (event.map f).pushed = event.pushed.map f := by
  cases event <;> rfl

end ReadEvent

namespace ReadQueue

variable {α β : Type}

/-- The queue after a call. -/
def follow (queue : ReadQueue α) : ReadEvent α → ReadQueue α
  | .push read => queue.push read
  | .issue => queue.issue.2
  | .confirm context index => queue.confirm context index
  | .ready applied => (queue.ready applied).2
  | .drain => queue.drain.2

/-- The reads that a call gives back. -/
def returned (queue : ReadQueue α) : ReadEvent α → List α
  | .ready applied => (queue.ready applied).1
  | .drain => queue.drain.1
  | _ => []

/-- The contexts under which a call starts rounds. -/
def issued (queue : ReadQueue α) : ReadEvent α → List UInt64
  | .issue => queue.issue.1
  | _ => []

/-- The reads in the queue, of all stages. -/
def waiting (queue : ReadQueue α) : List α :=
  queue.queued ++ queue.unconfirmed.values ++ queue.confirmed.values.flatten

/-- The size of the queue is the number of reads in its three stages. -/
theorem size_eq_length_waiting (queue : ReadQueue α) : queue.size = queue.waiting.length := by
  have hunconfirmed : queue.unconfirmed.size = queue.unconfirmed.values.length :=
    (List.length_map _).symm
  rw [size, hunconfirmed, SortedMap.total_length, waiting, List.length_append, List.length_append]

/-- The counter has handed out so many contexts, and reads wait under some of them. -/
structure Counted (queue : ReadQueue α) (count : Nat) : Prop where
  next_eq : queue.nextContext = .ofNat (count + 1)
  context_le : ∀ context read, queue.unconfirmed.get? context = some read → context.toNat ≤ count

/-- A new queue has issued nothing. -/
theorem counted_empty : (∅ : ReadQueue α).Counted 0 where
  next_eq := rfl
  context_le context read hget := by cases hget

theorem issue_contexts (queue : ReadQueue α) :
    queue.issue.1 = Counter.idsFrom queue.nextContext queue.queued.length := rfl

/-- Every queued read is issued one context. -/
theorem length_issued_issue (queue : ReadQueue α) :
    (queue.issued .issue).length = queue.queued.length := by
  rw [issued, issue_contexts, Counter.idsFrom, List.length_map, List.length_range]

theorem foldl_issueOne_queued (reads : List α) (queue : ReadQueue α) :
    (reads.foldl issueOne queue).queued = queue.queued := by
  induction reads generalizing queue with
  | nil => rfl
  | cons read rest ih => exact ih (queue.issueOne read)

theorem foldl_issueOne_confirmed (reads : List α) (queue : ReadQueue α) :
    (reads.foldl issueOne queue).confirmed = queue.confirmed := by
  induction reads generalizing queue with
  | nil => rfl
  | cons read rest ih => exact ih (queue.issueOne read)

namespace Counted

variable {queue : ReadQueue α} {count : Nat}

theorem cleared (h : queue.Counted count) : Counted { queue with queued := [] } count :=
  ⟨h.next_eq, h.context_le⟩

/-- The next context is free while the counter has not come round. -/
theorem fresh (h : queue.Counted count) (hfits : count + 1 < UInt64.size) :
    queue.unconfirmed.get? queue.nextContext = none := by
  refine Option.eq_none_iff_forall_ne_some.mpr fun read hget => ?_
  have hle := h.context_le _ read hget
  rw [h.next_eq, UInt64.toNat_ofNat_of_lt' hfits] at hle
  omega

/-- Issuing one read uses up one context. -/
theorem issueOne (h : queue.Counted count) (hfits : count + 1 < UInt64.size) (read : α) :
    (queue.issueOne read).Counted (count + 1) where
  next_eq := by
    change queue.nextContext + 1 = _
    rw [h.next_eq, UInt64.ofNat_add (count + 1)]
    rfl
  context_le context found hget := by
    change (queue.unconfirmed.insert queue.nextContext read).get? context = some found at hget
    rw [SortedMap.get?_insert] at hget
    split at hget
    · rename_i heq
      rw [← heq, h.next_eq, UInt64.toNat_ofNat_of_lt' hfits]
    · exact Nat.le_succ_of_le (h.context_le context found hget)

/-- Issuing reads uses up as many contexts, by induction on the reads. -/
theorem foldl_issueOne {reads : List α} (h : queue.Counted count)
    (hfits : count + reads.length < UInt64.size) :
    (reads.foldl ReadQueue.issueOne queue).Counted (count + reads.length) := by
  induction reads generalizing queue count with
  | nil => exact h
  | cons read rest ih =>
    rw [List.length_cons] at hfits ⊢
    have hrest := ih (h.issueOne (by omega) read) (by omega)
    rwa [Nat.add_right_comm] at hrest

/-- After rounds were started, a read waits under the context of its round, or it did before. -/
theorem get?_foldl_issueOne {reads : List α} (h : queue.Counted count)
    (hfits : count + reads.length < UInt64.size) {context : UInt64} {read : α} :
    (reads.foldl ReadQueue.issueOne queue).unconfirmed.get? context = some read ↔
      (context, read) ∈ (Counter.idsFrom queue.nextContext reads.length).zip reads ∨
        queue.unconfirmed.get? context = some read := by
  induction reads generalizing queue count with
  | nil => exact ⟨.inr, fun hboth => hboth.resolve_left List.not_mem_nil⟩
  | cons first rest ih =>
    rw [List.length_cons] at hfits
    have hfresh := h.fresh (by omega)
    have hfirst : (queue.issueOne first).unconfirmed.get? context = some read ↔
        (context, read) = (queue.nextContext, first) ∨
          queue.unconfirmed.get? context = some read := by
      change (queue.unconfirmed.insert queue.nextContext first).get? context = some read ↔ _
      rw [SortedMap.get?_insert, Prod.mk.injEq]
      by_cases heq : queue.nextContext = context
      · rw [if_pos heq, ← heq, hfresh]
        simp [eq_comm]
      · simp [heq, Ne.symm heq]
    have hnext : (queue.issueOne first).nextContext = queue.nextContext + 1 := rfl
    rw [List.foldl_cons, ih (h.issueOne (by omega) first) (by omega), hfirst, hnext,
      List.length_cons, Counter.idsFrom_succ, List.zip_cons_cons, List.mem_cons]
    exact or_left_comm.trans or_assoc.symm

/-- The issued reads join those that await confirmation. -/
theorem values_foldl_issueOne {reads : List α} (h : queue.Counted count)
    (hfits : count + reads.length < UInt64.size) :
    (reads.foldl ReadQueue.issueOne queue).unconfirmed.values.Perm
      (reads ++ queue.unconfirmed.values) := by
  induction reads generalizing queue count with
  | nil => exact List.Perm.refl _
  | cons read rest ih =>
    rw [List.length_cons] at hfits
    have hinsert := (SortedMap.perm_entries_insert queue.unconfirmed queue.nextContext read).map
      Prod.snd
    rw [SortedMap.erase_of_get?_none (h.fresh (by omega))] at hinsert
    exact (ih (h.issueOne (by omega) read) (by omega)).trans
      ((hinsert.append_left rest).trans List.perm_middle)

/-- A call that starts rounds leaves nothing queued. Each of the reads waits under the context of
    its round. -/
theorem get?_issue (h : queue.Counted count) (hfits : count + queue.queued.length < UInt64.size)
    {context : UInt64} {read : α} :
    queue.issue.2.unconfirmed.get? context = some read ↔
      (context, read) ∈ queue.issue.1.zip queue.queued ∨
        queue.unconfirmed.get? context = some read :=
  h.cleared.get?_foldl_issueOne hfits

end Counted

/-- A confirmation moves the read that waits under a context behind those that were confirmed at the
    index, and it moves nothing else. -/
structure Moved (queue after : ReadQueue α) (context index : UInt64) (read : α) : Prop where
  queued_eq : after.queued = queue.queued
  found : queue.unconfirmed.get? context = some read
  unconfirmed_eq : ∀ other, after.unconfirmed.get? other =
    if context = other then none else queue.unconfirmed.get? other
  confirmed_eq : ∀ other, after.confirmed.getD other [] =
    if index = other then queue.confirmed.getD index [] ++ [read]
    else queue.confirmed.getD other []

/-- Bytes that are no waiting context confirm nothing. -/
theorem confirm_of_not_waiting {queue : ReadQueue α} {bytes : List UInt8}
    (h : ∀ context, bytes = contextBytes context → queue.unconfirmed.get? context = none)
    (index : UInt64) : queue.confirm bytes index = queue := by
  unfold confirm
  cases hbytes : contextOfBytes? bytes with
  | none => rfl
  | some context => simp only [h context (contextOfBytes?_eq_some_iff.mp hbytes)]

/-- Confirming a waiting context files its read under the index. -/
theorem confirm_of_waiting {queue : ReadQueue α} {context : UInt64} {read : α}
    (h : queue.unconfirmed.get? context = some read) (index : UInt64) :
    queue.confirm (contextBytes context) index = { queue with
      unconfirmed := queue.unconfirmed.erase context
      confirmed := queue.confirmed.insert index (queue.confirmed.getD index [] ++ [read]) } := by
  simp only [confirm, contextOfBytes?_contextBytes, h]

/-- The ends of a confirmation. -/
theorem confirm_cases (queue : ReadQueue α) (bytes : List UInt8) (index : UInt64) :
    (∃ context read, bytes = contextBytes context ∧
      queue.unconfirmed.get? context = some read) ∨
    (∀ context, bytes = contextBytes context → queue.unconfirmed.get? context = none) ∧
      queue.confirm bytes index = queue := by
  by_cases hfound : ∃ context read, bytes = contextBytes context ∧
      queue.unconfirmed.get? context = some read
  · exact .inl hfound
  · have hnone : ∀ context, bytes = contextBytes context →
        queue.unconfirmed.get? context = none := by
      intro context hbytes
      refine Option.eq_none_iff_forall_ne_some.mpr fun read hget => ?_
      exact hfound ⟨context, read, hbytes, hget⟩
    exact .inr ⟨hnone, confirm_of_not_waiting hnone index⟩

theorem moved_of_confirm {queue : ReadQueue α} {context : UInt64} {read : α}
    (h : queue.unconfirmed.get? context = some read) (index : UInt64) :
    queue.Moved (queue.confirm (contextBytes context) index) context index read := by
  rw [confirm_of_waiting h]
  exact ⟨rfl, h, fun other => SortedMap.get?_erase _ _ _,
    fun other => SortedMap.getD_insert _ _ _ _ _⟩

/-- Confirmation moves a read between stages and neither loses nor adds any. -/
theorem waiting_confirm (queue : ReadQueue α) (bytes : List UInt8) (index : UInt64) :
    (queue.confirm bytes index).waiting.Perm queue.waiting := by
  rcases queue.confirm_cases bytes index with ⟨context, read, rfl, hget⟩ | ⟨-, hsame⟩
  · rw [confirm_of_waiting hget]
    let others := (queue.unconfirmed.erase context).values
    have hunconfirmed : queue.unconfirmed.values.Perm (read :: others) :=
      (SortedMap.perm_entries_of_get? hget).map Prod.snd
    have hconfirmed : (queue.confirmed.insert index
        (queue.confirmed.getD index [] ++ [read])).values.flatten.Perm
          (read :: queue.confirmed.values.flatten) := by
      refine ((SortedMap.perm_entries_insert queue.confirmed index _).map Prod.snd).flatten.trans ?_
      refine List.Perm.trans ?_ ((queue.confirmed.perm_flatten_values index).symm.cons read)
      rw [List.map_cons, List.flatten_cons, List.append_assoc, List.singleton_append]
      exact List.perm_middle
    have hmoved : (queue.queued ++ others ++ read :: queue.confirmed.values.flatten).Perm
        (queue.queued ++ read :: others ++ queue.confirmed.values.flatten) := by
      rw [List.append_assoc, List.append_assoc, List.cons_append]
      exact List.perm_middle.append_left _
    exact (hconfirmed.append_left _).trans
      (hmoved.trans ((hunconfirmed.symm.append_left _).append_right _))
  · rw [hsame]

/-- A call keeps the reads that wait and the one that it pushes, or it gives them back. -/
theorem Counted.waiting_follow {queue : ReadQueue α} {count : Nat} (h : queue.Counted count)
    (event : ReadEvent α) (hfits : count + (queue.issued event).length < UInt64.size) :
    ((queue.follow event).waiting ++ queue.returned event).Perm
      (queue.waiting ++ event.pushed) := by
  cases event with
  | push read =>
    change (queue.queued ++ [read] ++ queue.unconfirmed.values ++
      queue.confirmed.values.flatten ++ []).Perm _
    simp only [waiting, ReadEvent.pushed, List.append_assoc, List.append_nil]
    refine List.Perm.append_left _ ?_
    exact List.perm_append_comm.trans (List.Perm.of_eq (List.append_assoc _ _ _))
  | issue =>
    rw [length_issued_issue] at hfits
    have hvalues := h.cleared.values_foldl_issueOne hfits
    change ((queue.queued.foldl ReadQueue.issueOne { queue with queued := [] }).waiting ++ []).Perm
      (queue.waiting ++ [])
    rw [List.append_nil, List.append_nil, waiting, foldl_issueOne_queued,
      foldl_issueOne_confirmed, List.nil_append]
    exact hvalues.append_right _
  | confirm context index =>
    exact ((queue.waiting_confirm context index).append_right _)
  | ready applied =>
    have hsplit := (queue.confirmed.perm_values_filter
      fun index _ => isPassed applied index).flatten
    rw [List.flatten_append] at hsplit
    change (_ ++ (queue.ready applied).1).Perm (queue.waiting ++ [])
    rw [ReadQueue.follow, ready_eq, List.append_nil, waiting, List.append_assoc]
    exact (List.perm_append_comm.trans hsplit).append_left _
  | drain => exact List.Perm.of_eq (List.append_nil _).symm

/-- One event advances the counter by the contexts it issues. -/
theorem Counted.follow {queue : ReadQueue α} {count : Nat} (h : queue.Counted count)
    (event : ReadEvent α) (hfits : count + (queue.issued event).length < UInt64.size) :
    (queue.follow event).Counted (count + (queue.issued event).length) := by
  cases event with
  | push read => exact ⟨h.next_eq, h.context_le⟩
  | issue =>
    rw [length_issued_issue] at hfits ⊢
    exact h.cleared.foldl_issueOne hfits
  | confirm bytes index =>
    rcases queue.confirm_cases bytes index with ⟨context, read, rfl, hget⟩ | ⟨-, hsame⟩
    · refine ⟨?_, fun other found hother => ?_⟩
      · rw [ReadQueue.follow, confirm_of_waiting hget]
        exact h.next_eq
      · rw [ReadQueue.follow, (moved_of_confirm hget index).unconfirmed_eq] at hother
        split at hother
        · cases hother
        · exact h.context_le other found hother
    · rw [ReadQueue.follow, hsame]
      exact h
  | ready applied => exact ⟨h.next_eq, h.context_le⟩
  | drain => exact ⟨h.next_eq, fun context read hget => by cases hget⟩

/-- The queue with its reads changed. -/
def map (f : α → β) (queue : ReadQueue α) : ReadQueue β where
  nextContext := queue.nextContext
  queued := queue.queued.map f
  unconfirmed := queue.unconfirmed.mapValues fun _ => f
  confirmed := queue.confirmed.mapValues fun _ => List.map f

variable (f : α → β)

theorem map_foldl_issueOne (reads : List α) (queue : ReadQueue α) :
    (reads.map f).foldl issueOne (queue.map f) = (reads.foldl issueOne queue).map f := by
  induction reads generalizing queue with
  | nil => rfl
  | cons read rest ih =>
    have hfirst : (queue.map f).issueOne (f read) = (queue.issueOne read).map f := by
      simp only [issueOne, map, SortedMap.mapValues_insert]
    rw [List.map_cons, List.foldl_cons, hfirst, ih, List.foldl_cons]

theorem map_confirm (queue : ReadQueue α) (bytes : List UInt8) (index : UInt64) :
    (queue.map f).confirm bytes index = (queue.confirm bytes index).map f := by
  have hget (context : UInt64) : (queue.map f).unconfirmed.get? context =
      (queue.unconfirmed.get? context).map f := SortedMap.get?_mapValues _ _ context
  rcases queue.confirm_cases bytes index with ⟨context, read, rfl, hfound⟩ | ⟨hnone, hsame⟩
  · have hmapped : (queue.map f).unconfirmed.get? context = some (f read) := by
      rw [hget, hfound]
      rfl
    have hearlier : (queue.map f).confirmed.getD index [] =
        (queue.confirmed.getD index []).map f := by
      rw [SortedMap.getD, map, SortedMap.get?_mapValues, SortedMap.getD]
      cases queue.confirmed.get? index <;> rfl
    rw [confirm_of_waiting hmapped, confirm_of_waiting hfound, hearlier]
    simp only [map, SortedMap.mapValues_insert, List.map_append, List.map_singleton]
    congr 1
    exact (SortedMap.mapValues_filter _ _ _).symm
  · rw [hsame]
    refine confirm_of_not_waiting (fun context hbytes => ?_) index
    rw [hget, hnone context hbytes]
    rfl

/-- Renaming reads commutes with every event. -/
theorem map_follow (queue : ReadQueue α) (event : ReadEvent α) :
    (queue.map f).follow (event.map f) = (queue.follow event).map f := by
  cases event with
  | push read =>
    change ReadQueue.mk _ (queue.queued.map f ++ [f read]) _ _ =
      ReadQueue.mk _ ((queue.queued ++ [read]).map f) _ _
    rw [List.map_append]
    rfl
  | issue => exact map_foldl_issueOne f queue.queued { queue with queued := [] }
  | confirm context index => exact map_confirm f queue context index
  | ready applied =>
    have hkept := SortedMap.mapValues_filter queue.confirmed (fun _ => List.map f)
      fun index => !isPassed applied index
    rw [ReadEvent.map, follow, follow, ready_eq, ready_eq]
    exact congrArg (fun confirmed => { queue.map f with confirmed }) hkept.symm
  | drain => rfl

theorem flatten_values_map (confirmed : SortedMap UInt64 (List α)) :
    (confirmed.mapValues fun _ => List.map f).values.flatten = confirmed.values.flatten.map f := by
  rw [SortedMap.values_mapValues, List.map_flatten]

/-- Renaming reads renames what an event returns. -/
theorem map_returned (queue : ReadQueue α) (event : ReadEvent α) :
    (queue.map f).returned (event.map f) = (queue.returned event).map f := by
  cases event with
  | ready applied =>
    have hpassed := SortedMap.mapValues_filter queue.confirmed (fun _ => List.map f)
      fun index => isPassed applied index
    rw [ReadEvent.map, returned, returned, ready_eq, ready_eq]
    exact (congrArg (fun confirmed => confirmed.values.flatten) hpassed.symm).trans
      (flatten_values_map f _)
  | drain =>
    change queue.queued.map f ++ (queue.unconfirmed.mapValues _).values ++
      (queue.confirmed.mapValues _).values.flatten = (queue.drain.1).map f
    rw [SortedMap.values_mapValues, flatten_values_map, drain, List.map_append, List.map_append]
  | _ => rfl

theorem map_issued (queue : ReadQueue α) (event : ReadEvent α) :
    (queue.map f).issued (event.map f) = queue.issued event := by
  cases event with
  | issue =>
    change Counter.idsFrom _ (queue.queued.map f).length = Counter.idsFrom _ queue.queued.length
    rw [List.length_map]
    rfl
  | _ => rfl

end ReadQueue

end Quorum
