import Quorum.Proofs.ReadQueue.History

namespace Quorum.ReadQueue

variable {α : Type}

section ByIndex

/-- The order of reads by their indices. -/
def indexLe (a b : UInt64 × α) : Bool := a.1 ≤ b.1

theorem indexLe_trans (a b c : UInt64 × α) (hab : indexLe a b = true) (hbc : indexLe b c = true) :
    indexLe a c = true :=
  decide_eq_true (UInt64.le_trans (of_decide_eq_true hab) (of_decide_eq_true hbc))

theorem indexLe_total (a b : UInt64 × α) : (indexLe a b || indexLe b a) = true := by
  simpa [indexLe] using UInt64.le_total a.1 b.1

/-- Reads with their indices, in the order of these. Those of one index keep their order. -/
def byIndex (reads : List (UInt64 × α)) : List (UInt64 × α) := reads.mergeSort indexLe

variable {xs ys : List (UInt64 × α)}

/-- Reads put by index are in the order of their indices. -/
theorem pairwise_byIndex (reads : List (UInt64 × α)) :
    (byIndex reads).Pairwise fun a b => a.1 ≤ b.1 :=
  (List.pairwise_mergeSort indexLe_trans indexLe_total reads).imp of_decide_eq_true

/-- Reads of one index keep the order they were confirmed in. -/
theorem filter_byIndex (reads : List (UInt64 × α)) (index : UInt64) :
    (byIndex reads).filter (·.1 = index) = reads.filter (·.1 = index) := by
  have hperm := (List.mergeSort_perm reads indexLe).filter (·.1 = index)
  have hequal : (reads.filter (·.1 = index)).Pairwise fun a b => indexLe a b = true := by
    refine List.pairwise_of_forall_mem_list fun a ha b hb => ?_
    have hsame : a.1 = b.1 := (of_decide_eq_true (List.mem_filter.mp ha).2).trans
      (of_decide_eq_true (List.mem_filter.mp hb).2).symm
    exact decide_eq_true (hsame ▸ UInt64.le_refl _)
  -- The sort is stable: what is in order before it is a sublist of what comes out.
  have hsub : (reads.filter (·.1 = index)).Sublist (byIndex reads) :=
    List.sublist_mergeSort indexLe_trans indexLe_total hequal List.filter_sublist
  have hkept := hsub.filter (·.1 = index)
  rw [List.filter_filter] at hkept
  simp only [Bool.and_self] at hkept
  exact (hkept.eq_of_length hperm.length_eq.symm).symm

/-- Reads in the order of their indices are known by those at each index. -/
theorem eq_of_filter_index (hxs : xs.Pairwise fun a b => a.1 ≤ b.1)
    (hys : ys.Pairwise fun a b => a.1 ≤ b.1)
    (h : ∀ index, xs.filter (·.1 = index) = ys.filter (·.1 = index)) : xs = ys := by
  have hmem (read : UInt64 × α) : read ∈ xs ↔ read ∈ ys := by
    simpa using congrArg (read ∈ ·) (h read.1)
  induction xs generalizing ys with
  | nil => exact (List.eq_nil_iff_forall_not_mem.mpr fun read => by simp [← hmem]).symm
  | cons x xs ih =>
    cases ys with
    | nil => simpa using (hmem x).mp List.mem_cons_self
    | cons y ys =>
      obtain ⟨hx, hxrest⟩ := List.pairwise_cons.mp hxs
      obtain ⟨hy, hyrest⟩ := List.pairwise_cons.mp hys
      have hle : x.1 ≤ y.1 := by
        rcases List.mem_cons.mp ((hmem y).mpr List.mem_cons_self) with rfl | hlater
        · exact UInt64.le_refl _
        · exact hx y hlater
      have hge : y.1 ≤ x.1 := by
        rcases List.mem_cons.mp ((hmem x).mp List.mem_cons_self) with rfl | hlater
        · exact UInt64.le_refl _
        · exact hy x hlater
      have hindex : x.1 = y.1 := UInt64.le_antisymm hle hge
      have hfirst := h x.1
      rw [List.filter_cons_of_pos (by simp), List.filter_cons_of_pos (by simp [hindex])] at hfirst
      obtain rfl := (List.cons.inj hfirst).1
      have hrest (index : UInt64) : xs.filter (·.1 = index) = ys.filter (·.1 = index) := by
        have hat := h index
        by_cases heq : x.1 = index <;> simpa [List.filter_cons, heq] using hat
      exact congrArg (x :: ·) (ih hxrest hyrest hrest fun read => by
        simpa using congrArg (read ∈ ·) (hrest read.1))

/-- Of reads that are kept by their indices, those of one index are kept or dropped together. -/
theorem filter_filter_index (keep : UInt64 → Bool) (reads : List (UInt64 × α)) (index : UInt64) :
    (reads.filter fun read => keep read.1).filter (·.1 = index) =
      if keep index then reads.filter (·.1 = index) else [] := by
  rw [List.filter_filter]
  cases hkeep : keep index with
  | true =>
    refine List.filter_congr fun read _ => ?_
    by_cases heq : read.1 = index <;> simp [heq, hkeep]
  | false =>
    refine List.filter_eq_nil_iff.mpr fun read _ => ?_
    by_cases heq : read.1 = index <;> simp [heq, hkeep]

end ByIndex

/-- Confirmed reads as a queue keeps them, with their indices. -/
def indexed (confirmed : SortedMap UInt64 (List α)) : List (UInt64 × α) :=
  confirmed.entries.flatMap fun entry => entry.2.map (entry.1, ·)

/-- The reads with their indices are those the map holds. -/
theorem map_indexed (confirmed : SortedMap UInt64 (List α)) :
    (indexed confirmed).map Prod.snd = confirmed.values.flatten := by
  simp [indexed, SortedMap.values, List.flatMap_def, Function.comp_def]

theorem pairwise_indexed (confirmed : SortedMap UInt64 (List α)) :
    (indexed confirmed).Pairwise fun a b => a.1 ≤ b.1 := by
  refine List.pairwise_flatMap.mpr ⟨fun entry _ => ?_, confirmed.ascending.imp ?_⟩
  · exact List.pairwise_map.mpr (List.pairwise_of_forall fun _ _ => UInt64.le_refl _)
  · intro first second hbefore a ha b hb
    obtain ⟨_, -, rfl⟩ := List.mem_map.mp ha
    obtain ⟨_, -, rfl⟩ := List.mem_map.mp hb
    exact UInt64.le_of_lt (of_decide_eq_true hbefore)

/-- Under one index stand the reads confirmed there, in their order. -/
theorem filter_indexed (confirmed : SortedMap UInt64 (List α)) (index : UInt64) :
    (indexed confirmed).filter (·.1 = index) = (confirmed.getD index []).map (index, ·) := by
  obtain ⟨entries, hascending⟩ := confirmed
  simp only [indexed, SortedMap.getD, SortedMap.get?]
  induction entries with
  | nil => rfl
  | cons entry rest ih =>
    obtain ⟨hentry, hrest⟩ := List.pairwise_cons.mp hascending
    rw [List.flatMap_cons, List.filter_append, ih hrest]
    by_cases hindex : entry.1 = index
    · have hnone : rest.find? (fun other => other.1 = index) = none := by
        refine List.find?_eq_none.mpr fun other hother => ?_
        simpa [← hindex] using (Key.ne_of_before (hentry other hother)).symm
      simp [List.filter_map, Function.comp_def, hindex, hnone]
    · simp [List.filter_map, Function.comp_def, hindex]

theorem getD_filter_index (confirmed : SortedMap UInt64 (List α)) (keep : UInt64 → Bool)
    (index : UInt64) :
    (confirmed.filter fun other _ => keep other).getD index [] =
      if keep index then confirmed.getD index [] else [] := by
  cases hkeep : keep index with
  | true => exact SortedMap.getD_filter_of_keep (fun _ => hkeep) _
  | false => exact SortedMap.getD_filter_of_drop (fun _ => hkeep) _

/-- A queue that keeps the reads of a list by their indices, those of one index in the order of the
    list, has them in the order of their indices. -/
theorem flatten_values_eq {confirmed : SortedMap UInt64 (List α)} {reads : List (UInt64 × α)}
    (h : ∀ index, confirmed.getD index [] = (reads.filter (·.1 = index)).map Prod.snd) :
    confirmed.values.flatten = (byIndex reads).map Prod.snd := by
  have hsame : indexed confirmed = byIndex reads := by
    refine eq_of_filter_index (pairwise_indexed confirmed) (pairwise_byIndex reads) fun index => ?_
    have hback : ((reads.filter (·.1 = index)).map Prod.snd).map (index, ·) =
        reads.filter (·.1 = index) := by
      rw [List.map_map]
      refine (List.map_congr_left fun read hread => ?_).trans (List.map_id _)
      exact Prod.ext (of_decide_eq_true (List.mem_filter.mp hread).2).symm rfl
    rw [filter_indexed, h, hback, filter_byIndex]
  rw [← map_indexed, hsame]

end Quorum.ReadQueue

namespace Quorum.ReadEvent

variable {α : Type}

/-- Whether a call leaves the reads that were confirmed at an index where they are. -/
def leaves (index : UInt64) : ReadEvent α → Bool
  | .ready applied => !(index ≤ applied && index < ReadQueue.lastIndex)
  | .drain => false
  | _ => true

end Quorum.ReadEvent

namespace Quorum.ReadQueue

variable {α : Type}

/-- The read that a call confirms, with its index. -/
def confirmedBy (queue : ReadQueue α) : ReadEvent α → List (UInt64 × α)
  | .confirm bytes index =>
    (((contextOfBytes? bytes).bind queue.unconfirmed.get?).map (index, ·)).toList
  | _ => []

/-- The reads that calls confirm and all later calls leave, in the order of confirmation. -/
def awaitingFrom (queue : ReadQueue α) : List (ReadEvent α) → List (UInt64 × α)
  | [] => []
  | event :: rest =>
    (queue.confirmedBy event).filter (fun read => rest.all (·.leaves read.1)) ++
      awaitingFrom (queue.follow event) rest

/-- The reads that were confirmed in a history and neither served nor drained since, with their
    indices, in the order of confirmation. -/
def awaiting (history : List (ReadEvent α)) : List (UInt64 × α) := awaitingFrom ∅ history

/-- An event takes away the reads it serves and adds those it confirms. -/
theorem awaiting_concat (history : List (ReadEvent α)) (event : ReadEvent α) :
    awaiting (history ++ [event]) =
      (awaiting history).filter (fun read => event.leaves read.1) ++
        (run history).confirmedBy event := by
  have hfrom (queue : ReadQueue α) : awaitingFrom queue (history ++ [event]) =
      (awaitingFrom queue history).filter (fun read => event.leaves read.1) ++
        (history.foldl follow queue).confirmedBy event := by
    induction history generalizing queue with
    | nil => simp [awaitingFrom]
    | cons first rest ih =>
      simp [awaitingFrom, ih, List.filter_filter, Bool.and_comm]
  exact hfrom ∅

/-- What a call of `ready` leaves is what its applied index has not passed. -/
theorem leaves_ready (applied index : UInt64) :
    (ReadEvent.ready (α := α) applied).leaves index = !isPassed applied index := by
  rw [Bool.eq_iff_iff, ReadEvent.leaves, Bool.not_eq_true', Bool.not_eq_true', ← Bool.not_eq_true,
    ← Bool.not_eq_true, isPassed_iff, Bool.and_eq_true, decide_eq_true_eq, decide_eq_true_eq]

/-- A call leaves the reads of an index or takes them all, and puts what it confirms behind them. -/
theorem getD_confirmed_follow (queue : ReadQueue α) (event : ReadEvent α) (index : UInt64) :
    (queue.follow event).confirmed.getD index [] =
      (if event.leaves index then queue.confirmed.getD index [] else []) ++
        ((queue.confirmedBy event).filter (·.1 = index)).map Prod.snd := by
  cases event with
  | push read => exact (List.append_nil _).symm
  | issue =>
    rw [follow, issue, foldl_issueOne_confirmed]
    exact (List.append_nil _).symm
  | drain => rfl
  | ready applied =>
    simp only [leaves_ready, confirmedBy, List.filter_nil, List.map_nil, List.append_nil]
    rw [follow, ready_eq]
    exact getD_filter_index queue.confirmed (fun other => !isPassed applied other) index
  | confirm bytes target =>
    rcases queue.confirm_cases bytes target with ⟨context, read, rfl, hget⟩ | ⟨hnone, hsame⟩
    · rw [follow, (moved_of_confirm hget target).confirmed_eq, confirmedBy,
        contextOfBytes?_contextBytes, Option.bind_some, hget]
      by_cases heq : target = index <;> simp [ReadEvent.leaves, heq]
    · have hnobody : (contextOfBytes? bytes).bind queue.unconfirmed.get? = none := by
        rw [Option.bind_eq_none_iff]
        exact fun context hbytes => hnone context (contextOfBytes?_eq_some_iff.mp hbytes)
      rw [follow, hsame, confirmedBy, hnobody]
      exact (List.append_nil _).symm

/-- At each index, a queue keeps the reads that wait for it, in the order of confirmation. -/
theorem getD_confirmed_run (history : List (ReadEvent α)) (index : UInt64) :
    (run history).confirmed.getD index [] =
      ((awaiting history).filter (·.1 = index)).map Prod.snd := by
  induction history using List.reverseRecOn with
  | nil => rfl
  | append_singleton history event ih =>
    rw [run_concat, getD_confirmed_follow, ih, awaiting_concat, List.filter_append, List.map_append,
      filter_filter_index fun other => event.leaves other]
    cases event.leaves index <;> rfl

/-- Of the reads that wait, a queue keeps those of some indices as it keeps them all. -/
theorem getD_filter_run (history : List (ReadEvent α)) (keep : UInt64 → Bool) (index : UInt64) :
    ((run history).confirmed.filter fun other _ => keep other).getD index [] =
      (((awaiting history).filter fun read => keep read.1).filter (·.1 = index)).map Prod.snd := by
  rw [getD_filter_index, getD_confirmed_run, filter_filter_index]
  cases keep index <;> rfl

/-- Whether the reads up to an applied index all lie before the last one. -/
theorem upTo_eq_due_iff (reads : List (UInt64 × α)) (applied : UInt64) :
    (byIndex (reads.filter fun read => read.1 ≤ applied ∧ read.1 < lastIndex)).map Prod.snd =
        (byIndex (reads.filter fun read => read.1 ≤ applied)).map Prod.snd ↔
      (applied = lastIndex → ∀ read ∈ reads, read.1 ≠ lastIndex) := by
  have hdue : (reads.filter fun read => read.1 ≤ applied ∧ read.1 < lastIndex) =
      (reads.filter fun read => read.1 ≤ applied).filter fun read => read.1 < lastIndex := by
    rw [List.filter_filter]
    exact List.filter_congr fun read _ => by
      rw [Bool.decide_and, Bool.and_comm]
  have hrange (index : UInt64) : index ≤ lastIndex := by
    have hlast : lastIndex.toNat = UInt64.size - 1 := rfl
    have hsize := index.toNat_lt_size
    rw [UInt64.le_iff_toNat_le, hlast]
    omega
  rw [hdue]
  constructor
  · rintro h rfl read hmem hread
    -- Both lists are cut from the same reads, so they agree only if nothing more is cut.
    have hlength := congrArg List.length h
    rw [List.length_map, List.length_map, byIndex, byIndex, List.length_mergeSort,
      List.length_mergeSort, List.length_filter_eq_length_iff] at hlength
    have hbefore := hlength read (List.mem_filter.mpr ⟨hmem, decide_eq_true (hrange read.1)⟩)
    exact absurd hread (UInt64.ne_of_lt (of_decide_eq_true hbefore))
  · intro h
    refine congrArg (fun due => (byIndex due).map Prod.snd) (List.filter_eq_self.mpr ?_)
    intro read hmem
    obtain ⟨hread, hle⟩ := List.mem_filter.mp hmem
    refine decide_eq_true (UInt64.lt_of_le_of_ne (hrange read.1) fun hlast => ?_)
    have happlied : applied = lastIndex :=
      UInt64.le_antisymm (hrange applied) (hlast ▸ of_decide_eq_true hle)
    exact h happlied read hread hlast

/-- A call for what is ready, after any history. Of the reads that wait for their index it gives
    those up to the applied one, by index and then by confirmation, except those at the last index.
    It leaves the others at their indices, in their order, and touches no read of another stage. The
    exception is seen only if the last index is applied while a read waits there. -/
theorem ready_cuts_at_applied (history : List (ReadEvent α)) (applied : UInt64) :
    let queue := run history
    let isDue := fun read : UInt64 × α => decide (read.1 ≤ applied ∧ read.1 < lastIndex)
    let after := (queue.ready applied).2
    (queue.ready applied).1 = (byIndex ((awaiting history).filter isDue)).map Prod.snd ∧
      (∀ index, after.confirmed.getD index [] =
        (((awaiting history).filter (!isDue ·)).filter (·.1 = index)).map Prod.snd) ∧
      (after.unconfirmed = queue.unconfirmed ∧ after.queued = queue.queued ∧
        after.nextContext = queue.nextContext) ∧
      ((queue.ready applied).1 =
          (byIndex ((awaiting history).filter (·.1 ≤ applied))).map Prod.snd ↔
        (applied = lastIndex → ∀ read ∈ awaiting history, read.1 ≠ lastIndex)) := by
  intro queue isDue after
  have hserved := congrArg Prod.fst (queue.ready_eq applied)
  have hleft : after = { queue with
      confirmed := queue.confirmed.filter fun index _ => !isPassed applied index } :=
    congrArg Prod.snd (queue.ready_eq applied)
  have hdue : isDue = fun read => isPassed applied read.1 := by
    funext read
    rw [Bool.eq_iff_iff, isPassed_iff, decide_eq_true_eq]
  have hready : (queue.ready applied).1 =
      (byIndex ((awaiting history).filter isDue)).map Prod.snd := by
    rw [hserved, hdue]
    exact flatten_values_eq (getD_filter_run history (isPassed applied))
  refine ⟨hready, ?_, ?_, ?_⟩
  · rw [hleft, hdue]
    exact getD_filter_run history fun index => !isPassed applied index
  · rw [hleft]
    exact ⟨rfl, rfl, rfl⟩
  · rw [hready]
    exact upTo_eq_due_iff (awaiting history) applied

/-- A read that is confirmed at the last index stays in the queue when that index is applied. -/
theorem last_index_never_ready :
    let history : List (ReadEvent String) :=
      [.push "get", .issue, .confirm (contextBytes 1) lastIndex]
    awaiting history = [(lastIndex, "get")] ∧ ((run history).ready lastIndex).1 = [] ∧
      ((run history).ready lastIndex).2.confirmed.getD lastIndex [] = ["get"] := by
  decide +kernel

end Quorum.ReadQueue
