import Mathlib.Data.List.Induction
import Quorum.Proofs.ReadQueue.Stages

namespace Quorum.ReadQueue

variable {α β : Type}

/-- The queue that has taken a history of calls. -/
def run (history : List (ReadEvent α)) : ReadQueue α := history.foldl follow ∅

theorem run_concat (history : List (ReadEvent α)) (event : ReadEvent α) :
    run (history ++ [event]) = (run history).follow event := List.foldl_append

/-- What calls give, one after the other. -/
def collect {γ : Type} (f : ReadQueue α → ReadEvent α → List γ) (queue : ReadQueue α) :
    List (ReadEvent α) → List γ
  | [] => []
  | event :: rest => f queue event ++ collect f (queue.follow event) rest

theorem collect_concat {γ : Type} (f : ReadQueue α → ReadEvent α → List γ) (queue : ReadQueue α)
    (history : List (ReadEvent α)) (event : ReadEvent α) :
    collect f queue (history ++ [event]) =
      collect f queue history ++ f (history.foldl follow queue) event := by
  induction history generalizing queue with
  | nil => exact List.append_nil _
  | cons first rest ih => rw [List.cons_append, collect, ih, collect, List.append_assoc]; rfl

/-- The reads that a history hands over. -/
def pushedOver (history : List (ReadEvent α)) : List α := history.flatMap ReadEvent.pushed

/-- The reads that a history gives back. -/
def returnedOver (history : List (ReadEvent α)) : List α := collect returned ∅ history

/-- The contexts under which a history starts rounds. -/
def contextsOver (history : List (ReadEvent α)) : List UInt64 := collect issued ∅ history

theorem contextsOver_concat (history : List (ReadEvent α)) (event : ReadEvent α) :
    contextsOver (history ++ [event]) = contextsOver history ++ (run history).issued event :=
  collect_concat issued ∅ history event

theorem fits_of_concat {history : List (ReadEvent α)} {event : ReadEvent α}
    (h : (contextsOver (history ++ [event])).length < UInt64.size) :
    (contextsOver history).length + ((run history).issued event).length < UInt64.size := by
  rwa [contextsOver_concat, List.length_append] at h

theorem Counted.issued_eq {queue : ReadQueue α} {count : Nat} (h : queue.Counted count)
    (event : ReadEvent α) :
    queue.issued event = Counter.idsFrom (.ofNat (count + 1)) (queue.issued event).length := by
  cases event with
  | issue =>
    rw [length_issued_issue, ← h.next_eq]
    rfl
  | _ => rfl

/-- While the contexts fit in their type, they are 1, 2, 3 and so on, by induction on the
    history. -/
theorem counted_run (history : List (ReadEvent α))
    (hfits : (contextsOver history).length < UInt64.size) :
    (run history).Counted (contextsOver history).length ∧
      contextsOver history = Counter.ids (contextsOver history).length := by
  induction history using List.reverseRecOn with
  | nil => exact ⟨counted_empty, rfl⟩
  | append_singleton history event ih =>
    have hmore := fits_of_concat hfits
    obtain ⟨hcounted, hids⟩ := ih (by omega)
    rw [contextsOver_concat, List.length_append, run_concat]
    refine ⟨hcounted.follow event hmore, ?_⟩
    rw [Counter.ids_add, ← hids, ← hcounted.issued_eq event]

/-- No context is issued twice. -/
theorem nodup_contextsOver (history : List (ReadEvent α))
    (hfits : (contextsOver history).length < UInt64.size) : (contextsOver history).Nodup := by
  rw [(counted_run history hfits).2]
  exact Counter.nodup_ids hfits

/-- Every read pushed is waiting or has been returned, and none is both, by induction on the
    history. -/
theorem waiting_run (history : List (ReadEvent α))
    (hfits : (contextsOver history).length < UInt64.size) :
    ((run history).waiting ++ returnedOver history).Perm (pushedOver history) := by
  induction history using List.reverseRecOn with
  | nil => exact List.Perm.refl _
  | append_singleton history event ih =>
    have hmore := fits_of_concat hfits
    have hstep := (counted_run history (by omega)).1.waiting_follow event hmore
    have hbefore := ih (by omega)
    have hreturned : returnedOver (history ++ [event]) =
        returnedOver history ++ (run history).returned event :=
      collect_concat returned ∅ history event
    have hpushed : pushedOver (history ++ [event]) = pushedOver history ++ event.pushed := by
      rw [pushedOver, pushedOver, List.flatMap_append, List.flatMap_singleton]
    rw [run_concat, hreturned, hpushed]
    refine ((List.perm_append_comm.append_left _).trans ?_).trans (hbefore.append_right _)
    rw [← List.append_assoc, List.append_assoc _ _ event.pushed]
    refine (hstep.append_right _).trans ?_
    rw [List.append_assoc]
    exact List.perm_append_comm.append_left _

/-- A round was started for a read under a context, and since then neither was the context confirmed
    nor was the queue drained. -/
def Pending (history : List (ReadEvent α)) (context : UInt64) (read : α) : Prop :=
  ∃ earlier later, history = earlier ++ .issue :: later ∧
    (context, read) ∈ (run earlier).issue.1.zip (run earlier).queued ∧
    .drain ∉ later ∧ ∀ index, .confirm (contextBytes context) index ∉ later

/-- A read is under its context from the issue on, until that context is confirmed or the queue is
    drained. -/
theorem pending_concat {history : List (ReadEvent α)} {event : ReadEvent α} {context : UInt64}
    {read : α} :
    Pending (history ++ [event]) context read ↔
      event = .issue ∧ (context, read) ∈ (run history).issue.1.zip (run history).queued ∨
      Pending history context read ∧ event ≠ .drain ∧
        ∀ index, event ≠ .confirm (contextBytes context) index := by
  constructor
  · rintro ⟨earlier, later, hsplit, hmem, hdrain, hconfirm⟩
    rcases List.eq_nil_or_concat later with rfl | ⟨between, last, rfl⟩
    · obtain ⟨rfl, hevent⟩ := List.append_inj' hsplit rfl
      exact .inl ⟨List.singleton_inj.mp hevent, hmem⟩
    · rw [List.concat_eq_append] at hsplit hdrain
      simp only [List.concat_eq_append] at hconfirm
      rw [← List.cons_append, ← List.append_assoc] at hsplit
      obtain ⟨rfl, hevent⟩ := List.append_inj' hsplit rfl
      obtain rfl := List.singleton_inj.mp hevent
      simp only [List.mem_append, List.mem_singleton, not_or] at hdrain hconfirm
      exact .inr ⟨⟨earlier, between, rfl, hmem, hdrain.1, fun index => (hconfirm index).1⟩,
        fun heq => hdrain.2 heq.symm, fun index heq => (hconfirm index).2 heq.symm⟩
  · rintro (⟨rfl, hmem⟩ | ⟨⟨earlier, later, rfl, hmem, hdrain, hconfirm⟩, hundrained, hopen⟩)
    · exact ⟨history, [], rfl, hmem, List.not_mem_nil, fun _ => List.not_mem_nil⟩
    · refine ⟨earlier, later ++ [event], by simp, hmem, ?_, fun index => ?_⟩
      · simpa [hdrain] using fun heq => hundrained heq.symm
      · simpa [hconfirm index] using fun heq => hopen index heq.symm

theorem contextBytes_injective {context other : UInt64}
    (h : contextBytes context = contextBytes other) : context = other := by
  have hcontext := contextOfBytes?_contextBytes context
  rw [h, contextOfBytes?_contextBytes] at hcontext
  exact (Option.some.inj hcontext).symm

/-- A read waits for confirmation under a context exactly while its round is pending. -/
theorem get?_run_iff (history : List (ReadEvent α))
    (hfits : (contextsOver history).length < UInt64.size) (context : UInt64) (read : α) :
    (run history).unconfirmed.get? context = some read ↔ Pending history context read := by
  induction history using List.reverseRecOn with
  | nil =>
    refine ⟨fun hget => (nomatch hget), ?_⟩
    rintro ⟨earlier, later, hsplit, -⟩
    simp at hsplit
  | append_singleton history event ih =>
    have hmore := fits_of_concat hfits
    have hcounted := (counted_run history (by omega)).1
    rw [run_concat, pending_concat, ← ih (by omega)]
    cases event with
    | push pushed => simp [follow, push]
    | ready applied => simp [follow, ready]
    | drain => simp [follow, drain]
    | issue =>
      rw [length_issued_issue] at hmore
      rw [follow, hcounted.get?_issue hmore]
      simp
    | confirm bytes index =>
      rcases (run history).confirm_cases bytes index with
        ⟨moved, found, rfl, hget⟩ | ⟨hnone, hsame⟩
      · rw [follow, (moved_of_confirm hget index).unconfirmed_eq]
        by_cases heq : moved = context
        · simp [heq]
        · have hother : contextBytes moved ≠ contextBytes context :=
            fun hbytes => heq (contextBytes_injective hbytes)
          simp [heq, hother]
      · rw [follow, hsame]
        refine ⟨fun hget => .inr ⟨hget, by simp, fun other heq => ?_⟩, ?_⟩
        · cases heq
          rw [hnone context rfl] at hget
          cases hget
        · rintro (⟨hissue, -⟩ | ⟨hget, -⟩)
          · cases hissue
          · exact hget

/-- A call confirmed the pending round of a read at an index. -/
def ConfirmedAt (history : List (ReadEvent α)) (read : α) (index : UInt64) : Prop :=
  ∃ earlier later context, history = earlier ++ .confirm (contextBytes context) index :: later ∧
    Pending earlier context read

/-- A confirmed read stays confirmed at its index. -/
theorem ConfirmedAt.concat {history : List (ReadEvent α)} {read : α} {index : UInt64}
    (h : ConfirmedAt history read index) (event : ReadEvent α) :
    ConfirmedAt (history ++ [event]) read index := by
  obtain ⟨earlier, later, context, rfl, hpending⟩ := h
  exact ⟨earlier, later ++ [event], context, by simp, hpending⟩

/-- Whatever the confirmed map holds was confirmed at the index it is held under. -/
theorem confirmedAt_of_mem (history : List (ReadEvent α))
    (hfits : (contextsOver history).length < UInt64.size) {read : α} {index : UInt64}
    (h : read ∈ (run history).confirmed.getD index []) : ConfirmedAt history read index := by
  induction history using List.reverseRecOn with
  | nil => cases h
  | append_singleton history event ih =>
    have hmore := fits_of_concat hfits
    have hbefore (hmem : read ∈ (run history).confirmed.getD index []) :
        ConfirmedAt (history ++ [event]) read index := (ih (by omega) hmem).concat event
    rw [run_concat] at h
    cases event with
    | push pushed => exact hbefore h
    | issue =>
      rw [follow, issue, foldl_issueOne_confirmed] at h
      exact hbefore h
    | drain => cases h
    | ready applied =>
      cases hpassed : isPassed applied index with
      | false =>
        rw [follow, ready_eq, SortedMap.getD_filter_of_keep fun _ => by rw [hpassed]; rfl] at h
        exact hbefore h
      | true =>
        rw [follow, ready_eq, SortedMap.getD_filter_of_drop fun _ => by rw [hpassed]; rfl] at h
        cases h
    | confirm bytes at' =>
      rcases (run history).confirm_cases bytes at' with ⟨context, found, rfl, hget⟩ | ⟨-, hsame⟩
      · rw [follow, (moved_of_confirm hget at').confirmed_eq] at h
        split at h
        · rename_i heq
          subst heq
          rcases List.mem_append.mp h with hold | hnew
          · exact hbefore hold
          · obtain rfl := List.mem_singleton.mp hnew
            exact ⟨history, [], context, rfl, (get?_run_iff history (by omega) _ _).mp hget⟩
        · exact hbefore h
      · rw [follow, hsame] at h
        exact hbefore h

/-- A read that is returned was confirmed at an applied index. -/
theorem confirmedAt_of_ready (history : List (ReadEvent α))
    (hfits : (contextsOver history).length < UInt64.size) {applied : UInt64} {read : α}
    (h : read ∈ ((run history).ready applied).1) :
    ∃ index, index ≤ applied ∧ ConfirmedAt history read index := by
  rw [ready_eq] at h
  obtain ⟨reads, hreads, hmem⟩ := List.mem_flatten.mp h
  obtain ⟨index, hget⟩ := SortedMap.mem_values.mp hreads
  rw [SortedMap.get?_filter, Option.filter_eq_some_iff] at hget
  obtain ⟨hfound, hpassed⟩ := hget
  refine ⟨index, (isPassed_iff.mp hpassed).1, confirmedAt_of_mem history hfits ?_⟩
  rw [SortedMap.getD, hfound]
  exact hmem

/-- The history with each read numbered by the place of its call. -/
def numbered (place : Nat) : List (ReadEvent α) → List (ReadEvent (Nat × α))
  | [] => []
  | event :: rest => event.map (fun read => (place, read)) :: numbered (place + 1) rest

theorem map_numbered (place : Nat) (history : List (ReadEvent α)) :
    (numbered place history).map (ReadEvent.map Prod.snd) = history := by
  induction history generalizing place with
  | nil => rfl
  | cons event rest ih =>
    rw [numbered, List.map_cons, ih]
    cases event <;> rfl

theorem place_le_of_mem_pushed {place : Nat} {history : List (ReadEvent α)} {read : Nat × α}
    (h : read ∈ pushedOver (numbered place history)) : place ≤ read.1 := by
  induction history generalizing place with
  | nil => cases h
  | cons event rest ih =>
    rcases List.mem_append.mp h with hfirst | hrest
    · rw [ReadEvent.pushed_map] at hfirst
      obtain ⟨pushed, -, rfl⟩ := List.mem_map.mp hfirst
      exact Nat.le_refl place
    · exact Nat.le_of_succ_le (ih hrest)

/-- Reads that are numbered by their place are pushed once. -/
theorem nodup_pushed_numbered (place : Nat) (history : List (ReadEvent α)) :
    (pushedOver (numbered place history)).Nodup := by
  induction history generalizing place with
  | nil => exact List.nodup_nil
  | cons event rest ih =>
    cases event with
    | push read =>
      refine List.nodup_cons.mpr ⟨fun hmem => ?_, ih (place + 1)⟩
      exact Nat.not_succ_le_self place (place_le_of_mem_pushed hmem)
    | _ => exact ih (place + 1)

section Naturality

variable (f : α → β)

/-- Renaming the reads of a history renames those of the queue. -/
theorem map_run (history : List (ReadEvent α)) :
    run (history.map (ReadEvent.map f)) = (run history).map f := by
  induction history using List.reverseRecOn with
  | nil => rfl
  | append_singleton history event ih =>
    rw [List.map_append, List.map_singleton, run_concat, ih, map_follow, run_concat]

theorem map_pushedOver (history : List (ReadEvent α)) :
    pushedOver (history.map (ReadEvent.map f)) = (pushedOver history).map f := by
  rw [pushedOver, pushedOver, List.flatMap_map, List.map_flatMap]
  exact List.flatMap_congr fun event _ => ReadEvent.pushed_map f event

theorem map_collect {γ δ : Type} {give : ReadQueue α → ReadEvent α → List γ}
    {give' : ReadQueue β → ReadEvent β → List δ} (g : γ → δ)
    (hstep : ∀ queue event, give' (queue.map f) (event.map f) = (give queue event).map g)
    (queue : ReadQueue α) (history : List (ReadEvent α)) :
    collect give' (queue.map f) (history.map (ReadEvent.map f)) =
      (collect give queue history).map g := by
  induction history generalizing queue with
  | nil => rfl
  | cons event rest ih =>
    rw [List.map_cons, collect, hstep, map_follow, ih, collect, List.map_append]

/-- Renaming the reads of a history renames those it returns. -/
theorem map_returnedOver (history : List (ReadEvent α)) :
    returnedOver (history.map (ReadEvent.map f)) = (returnedOver history).map f :=
  map_collect f f (map_returned f) ∅ history

/-- Contexts do not depend on what the reads are. -/
theorem map_contextsOver (history : List (ReadEvent α)) :
    contextsOver (history.map (ReadEvent.map f)) = contextsOver history := by
  have hstep (queue : ReadQueue α) (event : ReadEvent α) :
      (queue.map f).issued (event.map f) = (queue.issued event).map id := by
    rw [map_issued, List.map_id]
  have hcollect := map_collect f id hstep ∅ history
  rwa [List.map_id] at hcollect

end Naturality

/-- What becomes of reads in a queue, whatever calls it takes, as long as the contexts do not run
    out. Numbering the reads by their calls changes nothing but the reads. Of the numbered reads,
    each that was pushed is in one stage of the queue or was given back, once, and the queue counts
    those in it. No context is issued twice. A read waits under a context exactly while its round
    is pending; a confirmation of that context moves the read and nothing else, and any other, be it
    late, repeated, of an unknown context or malformed, changes nothing. A read is ready only if its
    pending round was confirmed at an index that has been applied. -/
theorem reads_kept_and_served (history : List (ReadEvent α))
    (hfits : (contextsOver history).length < UInt64.size) :
    let marked := numbered 0 history
    let queue := run marked
    (run history = queue.map Prod.snd ∧ returnedOver history = (returnedOver marked).map Prod.snd ∧
      pushedOver history = (pushedOver marked).map Prod.snd ∧
      contextsOver history = contextsOver marked) ∧
    ((pushedOver marked).Nodup ∧
      (queue.queued ++ queue.unconfirmed.values ++ queue.confirmed.values.flatten ++
        returnedOver marked).Perm (pushedOver marked) ∧
      (run history).size + (returnedOver history).length = (pushedOver history).length) ∧
    (contextsOver history).Nodup ∧
    (∀ context read, queue.unconfirmed.get? context = some read ↔ Pending marked context read) ∧
    (∀ bytes index,
      (∀ context read, bytes = contextBytes context → Pending marked context read →
        queue.Moved (queue.confirm bytes index) context index read) ∧
      ((∀ context read, bytes = contextBytes context → ¬ Pending marked context read) →
        queue.confirm bytes index = queue)) ∧
    ∀ applied, ∀ read ∈ (queue.ready applied).1,
      ∃ index, index ≤ applied ∧ ConfirmedAt marked read index := by
  intro marked queue
  have hmarked : marked.map (ReadEvent.map Prod.snd) = history := map_numbered 0 history
  have hrun : run history = queue.map Prod.snd := by rw [← hmarked, map_run]
  have hreturned : returnedOver history = (returnedOver marked).map Prod.snd := by
    rw [← map_returnedOver, hmarked]
  have hpushed : pushedOver history = (pushedOver marked).map Prod.snd := by
    rw [← map_pushedOver, hmarked]
  have hcontexts : contextsOver history = contextsOver marked := by
    rw [← hmarked, map_contextsOver]
  have hfitsMarked : (contextsOver marked).length < UInt64.size := hcontexts ▸ hfits
  have hwaiting (context : UInt64) (read : Nat × α) := get?_run_iff marked hfitsMarked context read
  refine ⟨⟨hrun, hreturned, hpushed, hcontexts⟩,
    ⟨nodup_pushed_numbered 0 history, waiting_run marked hfitsMarked, ?_⟩,
    nodup_contextsOver history hfits, hwaiting, fun bytes index => ⟨?_, ?_⟩, ?_⟩
  · have hlength := (waiting_run history hfits).length_eq
    rwa [List.length_append, ← size_eq_length_waiting] at hlength
  · rintro context read rfl hpending
    exact moved_of_confirm ((hwaiting context read).mpr hpending) index
  · intro hnone
    refine confirm_of_not_waiting (fun context hbytes => ?_) index
    refine Option.eq_none_iff_forall_ne_some.mpr fun read hget => ?_
    exact hnone context read hbytes ((hwaiting context read).mp hget)
  · intro applied read hready
    exact confirmedAt_of_ready marked hfitsMarked hready

/-- Two equal reads. The first is confirmed and served, the second is drained, and a confirmation of
    its round comes late. -/
theorem equal_reads_kept_and_served :
    let history : List (ReadEvent String) := [.push "get", .issue, .push "get", .issue,
      .confirm (contextBytes 1) 5, .ready 5, .drain, .confirm (contextBytes 2) 6]
    let marked := numbered 0 history
    (contextsOver history).length < UInt64.size ∧ contextsOver history = [1, 2] ∧
      returnedOver marked = [(0, "get"), (2, "get")] ∧
      ((run marked).queued ++ (run marked).unconfirmed.values ++
        (run marked).confirmed.values.flatten ++ returnedOver marked).Perm (pushedOver marked) ∧
      ∀ context read, (run marked).unconfirmed.get? context = some read ↔
        Pending marked context read := by
  intro history marked
  have hcontexts : contextsOver history = [1, 2] := by decide +kernel
  have hfits : (contextsOver history).length < UInt64.size := by
    rw [hcontexts]
    decide
  obtain ⟨-, ⟨-, hkept, -⟩, -, hpending, -⟩ := reads_kept_and_served history hfits
  exact ⟨hfits, hcontexts, by decide +kernel, hkept, hpending⟩

end Quorum.ReadQueue
