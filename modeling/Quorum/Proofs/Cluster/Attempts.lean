import Quorum.Proofs.Cluster.Groups

namespace Quorum

open Consensus

/-- For each request of a call, the entries that it appended. -/
def requestsOf (attempts : List Attempt) (id : CallId) : List (List Entry) :=
  (attempts.filter (·.call = id)).map Attempt.entries

section RequestsOf

variable {attempts : List Attempt} {id : CallId}

theorem requestsOf_concat_self (entries : List Entry) :
    requestsOf (attempts ++ [⟨id, entries⟩]) id = requestsOf attempts id ++ [entries] := by
  simp [requestsOf]

theorem requestsOf_concat_of_ne {other : CallId} (h : other ≠ id) (entries : List Entry) :
    requestsOf (attempts ++ [⟨id, entries⟩]) other = requestsOf attempts other := by
  simp [requestsOf, h.symm]

/-- A call for which no attempt was made has no requests. -/
theorem requestsOf_eq_nil (h : ∀ attempt ∈ attempts, attempt.call ≠ id) :
    requestsOf attempts id = [] := by
  simpa [requestsOf] using h

end RequestsOf

namespace Call

/-- The requests of a call have appended one entry at the most, the last of them if any; none, if
    the call is to make another one. While the call waits, an entry's ticket is guarded. -/
structure Once (call : Call) (guarded : Ticket → Prop) (requests : List (List Entry)) : Prop where
  order : requests.Pairwise fun earlier _ => earlier = []
  single : requests.flatten.length ≤ 1
  carries : ∀ entry ∈ requests.flatten, call.demand.IsIn entry
  pausing : ∀ wake, call.state = .pausing wake → requests.flatten = []
  held : ∀ ticket, call.holds ticket = true → requests.flatten ≠ [] → guarded ticket

variable {call after : Call} {guarded other : Ticket → Prop} {requests : List (List Entry)}

/-- To guard more tickets keeps a call to its one attempt. -/
theorem Once.mono (h : call.Once guarded requests)
    (hmore : ∀ ticket, guarded ticket → other ticket) : call.Once other requests :=
  { h with held := fun ticket hholds hsome => hmore ticket (h.held ticket hholds hsome) }

/-- The call goes on. -/
theorem Once.move (h : call.Once guarded requests) (hdemand : after.demand = call.demand)
    (hstate : requests.flatten ≠ [] → (∀ wake, after.state ≠ .pausing wake) ∧
      ∀ ticket, after.holds ticket = true → call.holds ticket = true) :
    after.Once guarded requests where
  order := h.order
  single := h.single
  carries entry hmem := hdemand ▸ h.carries entry hmem
  pausing wake hwake := by
    by_contra hsome
    exact (hstate hsome).1 wake hwake
  held ticket hholds hsome := h.held ticket ((hstate hsome).2 ticket hholds) hsome

/-- The call makes a request, and none before it has appended anything. -/
theorem once_of_request (hbefore : requests.flatten = []) {entries : List Entry}
    (hentries : entries = [] ∨ ∃ entry, entries = [entry] ∧ call.demand.IsIn entry)
    (hstate : entries ≠ [] → (∀ wake, call.state ≠ .pausing wake) ∧
      ∀ ticket, call.holds ticket = true → guarded ticket) :
    call.Once guarded (requests ++ [entries]) := by
  have hflatten : (requests ++ [entries]).flatten = entries := by
    rw [List.flatten_append, hbefore, List.flatten_singleton, List.nil_append]
  have hempty : ∀ earlier ∈ requests, earlier = [] := List.flatten_eq_nil_iff.mp hbefore
  have horder : (requests ++ [entries]).Pairwise fun earlier _ => earlier = [] :=
    List.pairwise_append.mpr ⟨List.pairwise_of_forall_mem_list fun earlier hmem _ _ =>
      hempty earlier hmem, List.pairwise_singleton _ _, fun earlier hmem _ _ => hempty earlier hmem⟩
  refine ⟨horder, ?_, ?_, fun wake hwake => ?_, fun ticket hholds hsome => ?_⟩
  · rw [hflatten]
    rcases hentries with rfl | ⟨entry, rfl, -⟩ <;> simp
  · rw [hflatten]
    rcases hentries with rfl | ⟨entry, rfl, hin⟩
    · exact nofun
    · exact List.forall_mem_singleton.mpr hin
  · rw [hflatten]
    by_contra hsome
    exact (hstate hsome).1 wake hwake
  · rw [hflatten] at hsome
    exact (hstate hsome).2 ticket hholds

theorem once_nil : call.Once guarded [] :=
  ⟨List.Pairwise.nil, Nat.zero_le 1, nofun, fun _ _ => rfl, fun _ _ hsome => absurd rfl hsome⟩

variable {members : List MemberId} {clock : Nat}

/-- An outcome does not change what a call demands. -/
theorem conclude_demand (call : Call) (members : List MemberId) (clock : Nat) (outcome : Outcome) :
    (call.conclude members clock outcome).demand = call.demand := by
  unfold conclude
  split
  · split
    · split <;> rfl
    · rfl
  · rfl

/-- A receipt does not change what a call demands. -/
theorem note_demand (call : Call) (members : List MemberId) (clock : Nat) (receipt : Receipt) :
    (call.note members clock receipt).demand = call.demand := by
  cases receipt with
  | outcome outcome => exact call.conclude_demand members clock outcome
  | abandoned => exact call.conclude_demand members clock _
  | parked =>
    simp only [note]
    split <;> rfl

/-- A final outcome ends the call. -/
theorem conclude_of_isFinal {outcome : Outcome} (h : outcome.IsFinal) :
    (call.conclude members clock outcome).state = .done outcome := by
  unfold conclude
  split
  · rw [h.retryTarget]
  · rfl

/-- A call that has ended waits for no ticket. -/
theorem not_holds_of_done {outcome : Outcome} (h : call.state = .done outcome) (ticket : Ticket) :
    call.holds ticket = false := by
  rw [holds, h]

/-- An outcome that is final once something was appended makes no second attempt. -/
theorem Once.conclude (h : call.Once guarded requests) {outcome : Outcome}
    (hfinal : requests.flatten ≠ [] → outcome.IsFinal) :
    (call.conclude members clock outcome).Once guarded requests := by
  refine h.move (call.conclude_demand members clock outcome) fun hsome => ?_
  have hdone : (call.conclude members clock outcome).state = .done outcome :=
    conclude_of_isFinal (hfinal hsome)
  refine ⟨fun wake hwake => ?_, fun ticket hholds => ?_⟩
  · rw [hdone] at hwake
    cases hwake
  · rw [not_holds_of_done hdone] at hholds
    cases hholds

/-- A call that may not be repeated ends when nothing is heard. -/
theorem Once.giveUp (h : call.Once guarded requests) (hdemand : call.demand.isRetryable = false) :
    (call.giveUp members clock).Once guarded requests :=
  h.conclude fun _ => hdemand

/-- A call hears what, once it has an entry, must be final. -/
theorem Once.note (h : call.Once guarded requests) (hdemand : call.demand.isRetryable = false)
    {receipt : Receipt} (hfinal : requests.flatten ≠ [] → receipt.IsFinal) :
    (call.note members clock receipt).Once guarded requests := by
  cases receipt with
  | outcome outcome => exact h.conclude hfinal
  | abandoned => exact h.giveUp hdemand
  | parked =>
    simp only [Call.note]
    split
    · rename_i ticket deadline hstate
      refine h.move rfl fun _ => ⟨nofun, fun held hholds => ?_⟩
      rw [holds, hstate]
      exact hholds
    · exact h

end Call

namespace Cluster

/-- Every call that cannot be told from its repetition has at most one entry, and workers keep what
    guards its ticket. -/
structure Sound (guarded : Ticket → Prop) (attempts : List Attempt) (cluster : Cluster) : Prop where
  numbered : ∀ id call, cluster.calls.get? id = some call → id < cluster.calls.size
  begun : ∀ attempt ∈ attempts, attempt.call < cluster.calls.size
  bounded : ∀ ticket, guarded ticket → ticket < cluster.tickets
  workers : ∀ inbox running, cluster.workers.get? inbox = some running →
    running.worker.Obeys (.guarding guarded cluster.tickets)
  calls : ∀ id call, cluster.calls.get? id = some call → call.demand.isRetryable = false →
    call.Once guarded (requestsOf attempts id)

namespace Sound

variable {guarded other : Ticket → Prop} {attempts : List Attempt} {cluster after : Cluster}
  {id : CallId} {call : Call}

/-- What holds of a call that is put down and of all others holds of every call. -/
theorem forall_putCall {P : CallId → Call → Prop} (hcall : P id call)
    (hothers : ∀ found old, found ≠ id → cluster.calls.get? found = some old → P found old) :
    ∀ found old, (cluster.putCall id call).calls.get? found = some old → P found old := by
  intro found old hget
  rw [Cluster.putCall, SortedMap.get?_insert] at hget
  split at hget
  · rename_i hsame
    cases hget
    exact hsame ▸ hcall
  · rename_i hother
    exact hothers found old (Ne.symm hother) hget

/-- The next id is the number of calls. -/
theorem lt_putCall_size (h : cluster.Sound guarded attempts) (hid : id ≤ cluster.calls.size)
    (call : Call) : id < (cluster.putCall id call).calls.size ∧
      cluster.calls.size ≤ (cluster.putCall id call).calls.size := by
  cases hget : cluster.calls.get? id with
  | some old =>
    rw [putCall_size hget]
    exact ⟨h.numbered id old hget, Nat.le_refl _⟩
  | none =>
    have hsize : (cluster.putCall id call).calls.size = cluster.calls.size + 1 :=
      SortedMap.size_insert_of_none hget call
    rw [hsize]
    exact ⟨Nat.lt_succ_of_le hid, Nat.le_succ _⟩

/-- A call makes a request, and waits under a new ticket or not at all. -/
theorem attempt (h : cluster.Sound guarded attempts) (hid : id ≤ cluster.calls.size)
    {tickets : Ticket} (htickets : cluster.tickets ≤ tickets)
    (hkept : ∀ ticket, guarded ticket → other ticket)
    (hnew : ∀ ticket, other ticket → guarded ticket ∨ cluster.tickets ≤ ticket ∧ ticket < tickets)
    {entries : List Entry} (hcall : call.demand.isRetryable = false →
      call.Once other (requestsOf attempts id ++ [entries])) :
    Sound other (attempts ++ [⟨id, entries⟩]) ({ cluster with tickets }.putCall id call) := by
  obtain ⟨hlt, hle⟩ := h.lt_putCall_size hid call
  refine ⟨?_, fun request hmem => ?_, fun ticket hticket => ?_, fun inbox running hget => ?_, ?_⟩
  · exact forall_putCall hlt fun found old _ hget =>
      Nat.lt_of_lt_of_le (h.numbered found old hget) hle
  · rcases List.mem_append.mp hmem with hold | hlast
    · exact Nat.lt_of_lt_of_le (h.begun request hold) hle
    · rw [List.mem_singleton.mp hlast]
      exact hlt
  · rcases hnew ticket hticket with hold | ⟨-, hlater⟩
    · exact Nat.lt_of_lt_of_le (h.bounded ticket hold) htickets
    · exact hlater
  · refine (h.workers inbox running hget).guardMore htickets fun ticket hbefore hother => ?_
    exact (hnew ticket hother).resolve_right fun hlater => Nat.not_le_of_lt hbefore hlater.1
  · refine forall_putCall (fun hdemand => ?_) fun found old hne hget hdemand => ?_
    · rw [requestsOf_concat_self]
      exact hcall hdemand
    · rw [requestsOf_concat_of_ne hne]
      exact (h.calls found old hget hdemand).mono hkept

/-- A call goes on without a request. -/
theorem putCall (h : cluster.Sound guarded attempts) (hid : id ≤ cluster.calls.size)
    (hcall : call.demand.isRetryable = false → call.Once guarded (requestsOf attempts id)) :
    (cluster.putCall id call).Sound guarded attempts := by
  obtain ⟨hlt, hle⟩ := h.lt_putCall_size hid call
  refine ⟨?_, fun request hmem => ?_, h.bounded, h.workers, ?_⟩
  · exact forall_putCall hlt fun found old _ hget =>
      Nat.lt_of_lt_of_le (h.numbered found old hget) hle
  · exact Nat.lt_of_lt_of_le (h.begun request hmem) hle
  · exact forall_putCall hcall fun found old _ hget => h.calls found old hget

/-- Groups that start and stop append nothing and guard nothing. -/
theorem rearranged (h : cluster.Sound guarded attempts) (hrearranged : cluster.Rearranges after) :
    after.Sound guarded attempts := by
  obtain ⟨hcalls, htickets, hworkers⟩ := hrearranged
  refine ⟨?_, ?_, ?_, fun inbox running hget => ?_, ?_⟩
  · exact hcalls ▸ h.numbered
  · exact hcalls ▸ h.begun
  · exact htickets ▸ h.bounded
  · rw [htickets]
    rcases hworkers inbox running hget with ⟨before, hbefore, hsame⟩ | ⟨group, node, now, hnew⟩
    · rw [hsame]
      exact h.workers inbox before hbefore
    · rw [hnew]
      exact .new group node now
  · exact hcalls ▸ h.calls

/-- A receipt keeps calls to their one attempt if a guarded ticket is told something final. -/
theorem deliver (h : cluster.Sound guarded attempts) {receipt : Ticket × Receipt}
    (htold : guarded receipt.1 → receipt.2.IsFinal) :
    (cluster.deliver receipt).Sound guarded attempts := by
  unfold Cluster.deliver
  split
  · rename_i id call hfind
    have hget := SortedMap.get?_of_mem (List.mem_of_find?_eq_some hfind)
    have hholds := List.find?_some hfind
    refine h.putCall (Nat.le_of_lt (h.numbered id call hget)) fun hdemand => ?_
    rw [Call.note_demand] at hdemand
    have hcall := h.calls id call hget hdemand
    exact hcall.note hdemand fun hsome => htold (hcall.held receipt.1 hholds hsome)
  · exact h

/-- Receipts keep calls to their one attempt if guarded tickets are told something final. -/
theorem deliverAll (h : cluster.Sound guarded attempts) {α : Type} {receipt : α → Ticket × Receipt}
    {items : List α}
    (htold : ∀ item ∈ items, guarded (receipt item).1 → (receipt item).2.IsFinal) :
    Sound guarded attempts
      (items.foldl (fun cluster item => cluster.deliver (receipt item)) cluster) := by
  induction items generalizing cluster with
  | nil => exact h
  | cons item rest ih =>
    obtain ⟨hitem, hrest⟩ := List.forall_mem_cons.mp htold
    exact ih (h.deliver hitem) hrest

/-- Nothing but workers and messages changes. -/
theorem withWorkers (h : cluster.Sound guarded attempts) (network : Network Message)
    {workers : SortedMap InboxId RunningWorker}
    (hworkers : ∀ inbox running, workers.get? inbox = some running →
      running.worker.Obeys (.guarding guarded cluster.tickets)) :
    { cluster with network, workers }.Sound guarded attempts :=
  ⟨h.numbered, h.begun, h.bounded, hworkers, h.calls⟩

/-- A worker that is dropped appends nothing. -/
theorem dropWorker (h : cluster.Sound guarded attempts) (inbox : InboxId) :
    (cluster.dropWorker inbox).Sound guarded attempts := by
  unfold Cluster.dropWorker
  split
  · exact h
  · have herased := h.withWorkers (cluster.network.discard inbox)
      (SortedMap.forall_erase h.workers inbox)
    exact herased.deliverAll fun _ _ _ => trivial

/-- A worker that stops abandons its callers and appends nothing. -/
theorem stopWorker (h : cluster.Sound guarded attempts) (inbox : InboxId) :
    (cluster.stopWorker inbox).Sound guarded attempts := by
  unfold Cluster.stopWorker
  split
  · exact h
  · exact (h.withWorkers _ h.workers).dropWorker inbox

/-- What a worker sends and tells keeps calls to their one attempt, since it guards their
    tickets. -/
theorem collect (h : cluster.Sound guarded attempts) (inbox : InboxId) {running : RunningWorker}
    (hworker : running.worker.Obeys (.guarding guarded cluster.tickets)) :
    (cluster.collect inbox running).Sound guarded attempts := by
  have hsilent : { running.worker with sent := [], receipts := [] }.Obeys
      (.guarding guarded cluster.tickets) :=
    ⟨hworker.proposals, hworker.parked, hworker.reads, nofun⟩
  have hkept : ∀ other found, (cluster.workers.insert inbox { running with
      worker := { running.worker with sent := [], receipts := [] } }).get? other = some found →
        found.worker.Obeys (.guarding guarded cluster.tickets) :=
    SortedMap.forall_insert h.workers hsilent
  exact (h.withWorkers _ hkept).deliverAll fun receipt hmem => (hworker.receipts receipt hmem).2

/-- A worker that takes an event goes on to guard tickets. -/
theorem turn (h : cluster.Sound guarded attempts) {inbox : InboxId} {event : WorkerEvent}
    (hevent : ∀ running worker, cluster.workers.get? inbox = some running →
      running.worker.turn event cluster.wall = some (.ok worker) →
        worker.Obeys (.guarding guarded cluster.tickets))
    (hturn : cluster.turn inbox event = some after) : after.Sound guarded attempts := by
  unfold Cluster.turn at hturn
  split at hturn
  · cases hturn
    exact h
  · rename_i running hrunning
    obtain ⟨result, htaken, hrest⟩ := Option.bind_eq_some_iff.mp hturn
    cases result with
    | ok worker =>
      cases hrest
      exact h.collect inbox (hevent running worker hrunning htaken)
    | error error =>
      cases hrest
      exact h.dropWorker inbox

/-- A call is refused without having reached a worker. -/
theorem unanswered (h : cluster.Sound guarded attempts) (hid : id ≤ cluster.calls.size)
    (hbefore : call.demand.isRetryable = false → (requestsOf attempts id).flatten = []) :
    Sound guarded (attempts ++ [⟨id, []⟩]) (cluster.putCall id call) :=
  h.attempt hid (Nat.le_refl _) (fun _ hticket => hticket) (fun _ => .inl) fun hdemand =>
    Call.once_of_request (hbefore hdemand) (.inl rfl) fun hsome => absurd rfl hsome

/-- A call waits under a new ticket, which is guarded if its request appends an entry. -/
theorem asking (h : cluster.Sound guarded attempts) (hid : id ≤ cluster.calls.size)
    (hbefore : call.demand.isRetryable = false → (requestsOf attempts id).flatten = [])
    {entries : List Entry}
    (hentries : entries = [] ∨ ∃ entry, entries = [entry] ∧ call.demand.IsIn entry)
    (deadline : Nat) :
    Sound (fun ticket => guarded ticket ∨
        ticket = cluster.tickets ∧ call.demand.isRetryable = false ∧ entries ≠ [])
      (attempts ++ [⟨id, entries⟩])
      ({ cluster with tickets := cluster.tickets + 1 }.putCall id
        { call with state := .waiting cluster.tickets deadline }) := by
  refine h.attempt hid (Nat.le_succ _) (fun _ => .inl) ?_ fun hdemand => ?_
  · rintro ticket (hold | ⟨rfl, -⟩)
    · exact .inl hold
    · exact .inr ⟨Nat.le_refl _, Nat.lt_succ_self _⟩
  · refine Call.once_of_request (hbefore hdemand) hentries fun hsome => ⟨nofun, ?_⟩
    intro ticket hholds
    exact .inr ⟨(of_decide_eq_true hholds).symm, hdemand, hsome⟩

/-- A call that asks a worker makes one attempt, with what the worker appends. -/
theorem ask (h : cluster.Sound guarded attempts) (hid : id ≤ cluster.calls.size)
    (hbefore : call.demand.isRetryable = false → (requestsOf attempts id).flatten = [])
    {inbox : InboxId} (hask : cluster.ask id call inbox = some after) :
    ∃ other, after.Sound other (attempts ++ [⟨id, cluster.appendedAt inbox call.demand⟩]) := by
  cases hrunning : cluster.workers.contains inbox with
  | true =>
    rw [ask_of_running hrunning] at hask
    have hasked := h.asking hid hbefore (cluster.appendedAt_demand inbox call.demand)
      (cluster.clock + cluster.config.submitTimeout.toNat)
    refine ⟨_, hasked.turn (fun running worker hget hturn => ?_) hask⟩
    refine Worker.turn_obeys_guarding (hasked.workers inbox running hget) (Nat.lt_succ_self _) ?_
      hturn
    rintro (hold | ⟨-, hdemand, hsome⟩)
    · exact absurd (h.bounded _ hold) (Nat.lt_irrefl _)
    · refine ⟨hdemand, fun hnone => hsome ?_⟩
      have hfound : cluster.workers.get? inbox = some running := hget
      rw [appendedAt, hfound]
      exact hnone
  | false =>
    unfold Cluster.ask at hask
    rw [hrunning] at hask
    cases hask
    have hgone : cluster.workers.get? inbox = none := by
      simpa [SortedMap.contains] using hrunning
    refine ⟨guarded, ?_⟩
    rw [appendedAt, hgone]
    exact h.unanswered hid fun hdemand => hbefore ((call.conclude_demand _ _ _) ▸ hdemand)

/-- A call that asks a member makes one attempt, with what its worker appends. -/
theorem askMember (h : cluster.Sound guarded attempts) (hid : id ≤ cluster.calls.size)
    (hbefore : call.demand.isRetryable = false → (requestsOf attempts id).flatten = [])
    {member : MemberId} (hask : cluster.askMember id call member = some after) :
    ∃ other, after.Sound other
      (attempts ++ [⟨id, cluster.appendedBy member call.group call.demand⟩]) := by
  unfold Cluster.askMember at hask
  unfold appendedBy
  cases hfind : cluster.find member call.group with
  | ok inbox =>
    rw [hfind] at hask
    exact h.ask hid hbefore hask
  | error error =>
    rw [hfind] at hask
    split at hask
    · rename_i hfound
      cases hfound
    · cases hask
      exact ⟨guarded, h.unanswered hid fun hdemand =>
        hbefore ((call.conclude_demand _ _ _) ▸ hdemand)⟩
    · cases hask
      exact ⟨guarded, h.unanswered hid hbefore⟩

/-- A call makes its next request. -/
theorem request (h : cluster.Sound guarded attempts) (hid : id ≤ cluster.calls.size)
    (hbefore : call.demand.isRetryable = false → (requestsOf attempts id).flatten = [])
    (hrequest : cluster.request id call = some after) :
    ∃ other, after.Sound other (attempts ++ [⟨id, cluster.appended call⟩]) := by
  unfold Cluster.request at hrequest
  unfold appended
  cases hroute : call.route with
  | worker inbox =>
    rw [hroute] at hrequest
    exact h.ask hid hbefore hrequest
  | member member =>
    rw [hroute] at hrequest
    exact h.askMember hid hbefore hrequest
  | leader member deadline =>
    rw [hroute] at hrequest
    exact h.askMember hid hbefore hrequest

/-- A step keeps every call sound. -/
theorem step (h : cluster.Sound guarded attempts) {later : List Attempt}
    (hstep : cluster.Step later after) : ∃ other, after.Sound other (attempts ++ later) := by
  cases hstep with
  | turn hevent hturn =>
    rw [List.append_nil]
    refine ⟨guarded, h.turn (fun running worker hget htaken => ?_) hturn⟩
    exact (h.workers _ running hget).turn (CallerRule.admits_of_nobody hevent) htaken
  | begin hrequest =>
    refine h.request (Nat.le_refl _) (fun _ => ?_) hrequest
    rw [requestsOf_eq_nil fun attempt hmem => Nat.ne_of_lt (h.begun attempt hmem)]
    rfl
  | refuse hstate =>
    rw [List.append_nil]
    refine ⟨guarded, h.putCall (Nat.le_refl _) fun _ => ?_⟩
    rw [requestsOf_eq_nil fun attempt hmem => Nat.ne_of_lt (h.begun attempt hmem)]
    exact Call.once_nil
  | @resume id call wake after hcall hstate hrequest =>
    refine h.request (Nat.le_of_lt (h.numbered id call hcall)) (fun hdemand => ?_) hrequest
    exact (h.calls id call hcall hdemand).pausing wake hstate
  | @giveUp id call ticket deadline hcall hstate =>
    rw [List.append_nil]
    refine ⟨guarded, h.putCall (Nat.le_of_lt (h.numbered id call hcall)) fun hdemand => ?_⟩
    have hsame : (call.giveUp cluster.members cluster.clock).demand = call.demand :=
      call.conclude_demand _ _ _
    rw [hsame] at hdemand
    exact (h.calls id call hcall hdemand).giveUp hdemand
  | stop inbox =>
    rw [List.append_nil]
    exact ⟨guarded, h.stopWorker inbox⟩
  | rearrange hrearranged =>
    rw [List.append_nil]
    exact ⟨guarded, h.rearranged hrearranged⟩

/-- What a whole run keeps. -/
theorem run (h : cluster.Sound guarded attempts) {later : List Attempt}
    (hrun : cluster.Run later after) : ∃ other, after.Sound other (attempts ++ later) := by
  induction hrun with
  | start =>
    rw [List.append_nil]
    exact ⟨guarded, h⟩
  | step hbefore hstep ih =>
    obtain ⟨between, hbetween⟩ := ih
    rw [← List.append_assoc]
    exact hbetween.step hstep

end Sound

end Cluster

end Quorum
