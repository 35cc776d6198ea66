import Quorum.ReadQueue
import Quorum.Proofs.SortedMap

namespace Quorum

namespace ReadQueue

variable {α : Type}

/-- Every read in the queue, of all stages. -/
def All (queue : ReadQueue α) (P : α → Prop) : Prop :=
  (∀ read ∈ queue.queued, P read) ∧
    (∀ context read, queue.unconfirmed.get? context = some read → P read) ∧
    ∀ index reads, queue.confirmed.get? index = some reads → ∀ read ∈ reads, P read

variable {queue : ReadQueue α} {P : α → Prop}

theorem all_empty : (∅ : ReadQueue α).All P := by
  refine ⟨fun read hmem => absurd hmem List.not_mem_nil, fun context read hget => ?_,
    fun index reads hget => ?_⟩
  · cases hget
  · cases hget

theorem all_true (queue : ReadQueue α) : queue.All fun _ => True :=
  ⟨fun _ _ => trivial, fun _ _ _ => trivial, fun _ _ _ _ _ => trivial⟩

/-- What follows from a property holds of every read that has it. -/
theorem All.mono (h : queue.All P) {Q : α → Prop} (hall : ∀ read, P read → Q read) : queue.All Q :=
  ⟨fun read hmem => hall read (h.1 read hmem),
    fun context read hget => hall read (h.2.1 context read hget),
    fun index reads hget read hmem => hall read (h.2.2 index reads hget read hmem)⟩

/-- A read that is pushed counts among those of the queue. -/
theorem All.push (h : queue.All P) {read : α} (hread : P read) : (queue.push read).All P := by
  refine ⟨fun other hmem => ?_, h.2⟩
  rcases List.mem_append.mp hmem with hold | hnew
  · exact h.1 other hold
  · rw [List.mem_singleton.mp hnew]
    exact hread

theorem All.issueOne (h : queue.All P) {read : α} (hread : P read) :
    (queue.issueOne read).All P :=
  ⟨h.1, SortedMap.forall_insert h.2.1 hread, h.2.2⟩

/-- Starting rounds moves reads and brings none. -/
theorem All.issue (h : queue.All P) : queue.issue.2.All P := by
  have hfold : ∀ (reads : List α) (later : ReadQueue α), later.All P → (∀ read ∈ reads, P read) →
      (reads.foldl ReadQueue.issueOne later).All P := by
    intro reads
    induction reads with
    | nil => exact fun later hlater _ => hlater
    | cons read rest ih =>
      intro later hlater hreads
      obtain ⟨hread, hrest⟩ := List.forall_mem_cons.mp hreads
      exact ih _ (hlater.issueOne hread) hrest
  exact hfold _ _ ⟨fun read hmem => absurd hmem List.not_mem_nil, h.2⟩ h.1

/-- A confirmation moves a read and brings none. -/
theorem All.confirm (h : queue.All P) (context : List UInt8) (index : UInt64) :
    (queue.confirm context index).All P := by
  unfold ReadQueue.confirm
  split
  · exact h
  · rename_i known _
    cases hget : queue.unconfirmed.get? known with
    | none => exact h
    | some read =>
      refine ⟨h.1, SortedMap.forall_erase h.2.1 known,
        SortedMap.forall_insert h.2.2 fun found hmem => ?_⟩
      rcases List.mem_append.mp hmem with hold | hnew
      · rw [SortedMap.getD] at hold
        cases hconfirmed : queue.confirmed.get? index with
        | none =>
          rw [hconfirmed] at hold
          cases hold
        | some earlier =>
          rw [hconfirmed] at hold
          exact h.2.2 index earlier hconfirmed found hold
      · rw [List.mem_singleton.mp hnew]
        exact h.2.1 known read hget

/-- The last index of the range. -/
def lastIndex : UInt64 := .ofNat (UInt64.size - 1)

/-- Whether an index lies before the cut at an applied one. -/
def isPassed (applied index : UInt64) : Bool := Key.before index (saturatingAdd applied 1)

/-- Before the cut at an applied index lie the indices up to it, less the last one, since the index
    after it stays within the range. -/
theorem isPassed_iff {applied index : UInt64} :
    isPassed applied index = true ↔ index ≤ applied ∧ index < lastIndex := by
  have hcut : isPassed applied index = true ↔ index.toNat < (saturatingAdd applied 1).toNat := by
    rw [isPassed, ← UInt64.lt_iff_toNat_lt]
    exact decide_eq_true_iff
  have hone : (1 : UInt64).toNat = 1 := rfl
  have hlast : lastIndex.toNat = UInt64.size - 1 := rfl
  rw [hcut, toNat_saturatingAdd, hone, UInt64.le_iff_toNat_le, UInt64.lt_iff_toNat_lt, hlast,
    Nat.lt_min, Nat.lt_succ_iff]

/-- The confirmed reads before the cut are ready, and the others stay. -/
theorem ready_eq (queue : ReadQueue α) (applied : UInt64) :
    queue.ready applied =
      ((queue.confirmed.filter fun index _ => isPassed applied index).values.flatten, { queue with
        confirmed := queue.confirmed.filter fun index _ => !isPassed applied index }) := by
  rw [ready, SortedMap.splitOff_eq]
  rfl

/-- What is ready was in the queue, and so was what stays. -/
theorem All.ready (h : queue.All P) (applied : UInt64) :
    (∀ read ∈ (queue.ready applied).1, P read) ∧ (queue.ready applied).2.All P := by
  rw [ready_eq]
  constructor
  · intro read hmem
    obtain ⟨reads, hreads, hmem⟩ := List.mem_flatten.mp hmem
    obtain ⟨index, hget⟩ := SortedMap.mem_values.mp hreads
    exact SortedMap.forall_filter h.2.2 _ index reads hget read hmem
  · exact ⟨h.1, h.2.1, SortedMap.forall_filter h.2.2 _⟩

/-- What is drained was in the queue, and nothing stays. -/
theorem All.drain (h : queue.All P) :
    (∀ read ∈ queue.drain.1, P read) ∧ queue.drain.2.All P := by
  constructor
  · intro read hmem
    rcases List.mem_append.mp hmem with hearly | hconfirmed
    · rcases List.mem_append.mp hearly with hqueued | hunconfirmed
      · exact h.1 read hqueued
      · obtain ⟨context, hget⟩ := SortedMap.mem_values.mp hunconfirmed
        exact h.2.1 context read hget
    · obtain ⟨reads, hreads, hmem⟩ := List.mem_flatten.mp hconfirmed
      obtain ⟨index, hget⟩ := SortedMap.mem_values.mp hreads
      exact h.2.2 index reads hget read hmem
  · exact ⟨fun read hmem => absurd hmem List.not_mem_nil, fun _ _ hget => (nomatch hget),
      fun _ _ hget => (nomatch hget)⟩

end ReadQueue

end Quorum
