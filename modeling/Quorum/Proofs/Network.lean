import Mathlib.Data.List.Induction
import Quorum.Network

namespace Quorum

/-- What happens to a network. -/
inductive NetworkEvent (μ : Type) where
  | attach (group : GroupId) (member : MemberId)
  | detach (group : GroupId) (member : MemberId)
  /-- Nobody reads an inbox any more. -/
  | discard (inbox : InboxId)
  | partition (left right : List MemberId)
  | isolate (member : MemberId)
  | heal
  | send (group : GroupId) (source target : MemberId) (message : μ)
  /-- The reader of an inbox takes all that waits in it. -/
  | receive (inbox : InboxId)

namespace NetworkEvent

variable {μ : Type}

/-- Whether an event gives a member of a group another inbox, or leaves it without one. -/
def rebinds (group : GroupId) (member : MemberId) : NetworkEvent μ → Bool
  | .attach named other | .detach named other => (named, other) = (group, member)
  | _ => false

/-- An event cuts the links between two members, in both directions. -/
def Separates (a b : MemberId) : NetworkEvent μ → Prop
  | .partition left right => a ∈ left ∧ b ∈ right ∨ a ∈ right ∧ b ∈ left
  | .isolate member => member = a ∨ member = b
  | _ => False

theorem separates_comm {a b : MemberId} (event : NetworkEvent μ) :
    event.Separates a b ↔ event.Separates b a := by
  cases event with
  | partition left right => exact or_comm.trans (or_congr and_comm and_comm)
  | isolate member => exact or_comm
  | _ => exact .rfl

end NetworkEvent

namespace Network

variable {μ : Type} {network : Network μ}

/-- The network after an event. -/
def follow (network : Network μ) : NetworkEvent μ → Network μ
  | .attach group member => (network.attach group member).2
  | .detach group member => network.detach group member
  | .discard inbox => network.discard inbox
  | .partition left right => network.partition left right
  | .isolate member => network.isolate member
  | .heal => network.heal
  | .send group source target message => network.send group source target message
  | .receive inbox => (network.receive inbox).2

/-- The network after a history of events. -/
def run (history : List (NetworkEvent μ)) : Network μ := history.foldl follow ∅

theorem run_concat (history : List (NetworkEvent μ)) (event : NetworkEvent μ) :
    run (history ++ [event]) = (run history).follow event := List.foldl_append

/-- An event of a longer history is the last one, or it is one before that. -/
theorem concat_eq_iff {history earlier later : List (NetworkEvent μ)}
    {last event : NetworkEvent μ} :
    history ++ [last] = earlier ++ event :: later ↔
      (history = earlier ∧ last = event ∧ later = []) ∨
        ∃ between, history = earlier ++ event :: between ∧ later = between ++ [last] := by
  constructor
  · intro h
    rcases List.eq_nil_or_concat later with rfl | ⟨between, final, rfl⟩
    · obtain ⟨hhistory, hlast⟩ := List.append_inj' h rfl
      exact .inl ⟨hhistory, List.singleton_inj.mp hlast, rfl⟩
    · rw [List.concat_eq_append, ← List.cons_append, ← List.append_assoc] at h
      obtain ⟨hhistory, hlast⟩ := List.append_inj' h rfl
      exact .inr ⟨between, hhistory, by rw [List.concat_eq_append, hlast]⟩
  · rintro (⟨rfl, rfl, rfl⟩ | ⟨between, rfl, rfl⟩)
    · rfl
    · rw [List.append_assoc, List.cons_append]

theorem put_eq (network : Network μ) (inbox : InboxId) (message : μ) :
    ∃ inboxes, network.put inbox message = { network with inboxes } := by
  unfold put
  split
  · exact ⟨_, rfl⟩
  · exact ⟨network.inboxes, rfl⟩

/-- A message changes nothing but what waits in inboxes. -/
theorem send_eq (network : Network μ) (group : GroupId) (source target : MemberId) (message : μ) :
    ∃ inboxes, network.send group source target message = { network with inboxes } := by
  unfold send
  split
  · exact network.put_eq _ message
  · exact ⟨network.inboxes, rfl⟩

theorem receive_eq (network : Network μ) (inbox : InboxId) :
    ∃ inboxes, (network.receive inbox).2 = { network with inboxes } := by
  unfold receive
  split
  · exact ⟨_, rfl⟩
  · exact ⟨network.inboxes, rfl⟩

/-- The links between two members are cut. -/
def Severed (network : Network μ) (a b : MemberId) : Prop :=
  a ∈ network.isolated ∨ b ∈ network.isolated ∨ (a, b) ∈ network.cut

/-- Members reach each other unless their links are severed, and each reaches itself. -/
theorem reaches_iff {a b : MemberId} :
    network.reaches a b = true ↔ a = b ∨ ¬ network.Severed a b := by
  simp [reaches, Severed, and_assoc]

/-- A partition adds the links between its sides, in both directions. -/
theorem mem_partition_cut {left right : List MemberId} {a b : MemberId} :
    (a, b) ∈ (network.partition left right).cut ↔
      (a, b) ∈ network.cut ∨ (a ∈ left ∧ b ∈ right ∨ a ∈ right ∧ b ∈ left) := by
  simp only [partition, List.mem_append, List.mem_flatMap, List.mem_cons, List.not_mem_nil,
    or_false, Prod.mk.injEq]
  refine or_congr_right ⟨?_, ?_⟩
  · rintro ⟨near, hnear, far, hfar, ⟨rfl, rfl⟩ | ⟨rfl, rfl⟩⟩
    · exact .inl ⟨hnear, hfar⟩
    · exact .inr ⟨hfar, hnear⟩
  · rintro (⟨ha, hb⟩ | ⟨ha, hb⟩)
    · exact ⟨a, ha, b, hb, .inl ⟨rfl, rfl⟩⟩
    · exact ⟨b, hb, a, ha, .inr ⟨rfl, rfl⟩⟩

/-- Links are severed by an event that separates the members, and until the network heals. -/
theorem severed_follow (event : NetworkEvent μ) (a b : MemberId) :
    (network.follow event).Severed a b ↔
      event.Separates a b ∨ network.Severed a b ∧ event ≠ .heal := by
  cases event with
  | partition left right =>
    have hmore : (network.follow (.partition left right)).Severed a b ↔
        network.Severed a b ∨ (a ∈ left ∧ b ∈ right ∨ a ∈ right ∧ b ∈ left) := by
      simp only [follow, Severed, mem_partition_cut, or_assoc]
      rfl
    rw [hmore, or_comm]
    simp [NetworkEvent.Separates]
  | isolate member =>
    have hmore : (network.follow (.isolate member)).Severed a b ↔
        network.Severed a b ∨ (member = a ∨ member = b) := by
      simp only [follow, isolate, Severed, List.mem_append, List.mem_singleton]
      tauto
    rw [hmore, or_comm]
    simp [NetworkEvent.Separates]
  | heal => simp [follow, heal, Severed, NetworkEvent.Separates]
  | send group source target message =>
    obtain ⟨inboxes, hsend⟩ := network.send_eq group source target message
    simp [follow, hsend, Severed, NetworkEvent.Separates]
  | receive inbox =>
    obtain ⟨inboxes, hreceive⟩ := network.receive_eq inbox
    simp [follow, hreceive, Severed, NetworkEvent.Separates]
  | _ => simp [follow, attach, detach, discard, Severed, NetworkEvent.Separates]

/-- Something separated two members, and links were not restored since. -/
def Separated (history : List (NetworkEvent μ)) (a b : MemberId) : Prop :=
  ∃ earlier event later, history = earlier ++ event :: later ∧ event.Separates a b ∧
    .heal ∉ later

/-- A separation begins with an event that separates the members and ends as the network heals. -/
theorem separated_concat {history : List (NetworkEvent μ)} {event : NetworkEvent μ}
    {a b : MemberId} :
    Separated (history ++ [event]) a b ↔
      event.Separates a b ∨ Separated history a b ∧ event ≠ .heal := by
  constructor
  · rintro ⟨earlier, cause, later, hsplit, hcause, hheal⟩
    rcases concat_eq_iff.mp hsplit with ⟨rfl, rfl, rfl⟩ | ⟨between, rfl, rfl⟩
    · exact .inl hcause
    · rw [List.mem_append, List.mem_singleton, not_or] at hheal
      exact .inr ⟨⟨earlier, cause, between, rfl, hcause, hheal.1⟩, fun heq => hheal.2 heq.symm⟩
  · rintro (hcause | ⟨⟨earlier, cause, later, rfl, hcause, hheal⟩, hevent⟩)
    · exact ⟨history, event, [], rfl, hcause, List.not_mem_nil⟩
    · refine ⟨earlier, cause, later ++ [event], concat_eq_iff.mpr (.inr ⟨later, rfl, rfl⟩),
        hcause, ?_⟩
      rw [List.mem_append, List.mem_singleton, not_or]
      exact ⟨hheal, fun heq => hevent heq.symm⟩

/-- Separation is symmetric. -/
theorem separated_comm {history : List (NetworkEvent μ)} {a b : MemberId} :
    Separated history a b ↔ Separated history b a := by
  simp only [Separated, NetworkEvent.separates_comm (a := a)]

/-- The links that are severed after a history are those of members that it separates. -/
theorem severed_run (history : List (NetworkEvent μ)) (a b : MemberId) :
    (run history).Severed a b ↔ Separated history a b := by
  induction history using List.reverseRecOn with
  | nil =>
    have hwhole : ¬ (run ([] : List (NetworkEvent μ))).Severed a b := by
      rintro (hmem | hmem | hmem) <;> cases hmem
    refine iff_of_false hwhole ?_
    rintro ⟨earlier, event, later, hsplit, -⟩
    simp at hsplit
  | append_singleton history event ih =>
    rw [run_concat, severed_follow, ih, separated_concat]

/-- Members reach each other unless they were separated since links were last restored. -/
theorem reaches_run_iff (history : List (NetworkEvent μ)) {a b : MemberId} :
    (run history).reaches a b = true ↔ a = b ∨ ¬ Separated history a b := by
  rw [reaches_iff, severed_run]

/-- An inbox was opened for a member of a group, which got no other one since and did not lose
    it. -/
def Attached (history : List (NetworkEvent μ)) (group : GroupId) (member : MemberId)
    (inbox : InboxId) : Prop :=
  ∃ earlier later, history = earlier ++ .attach group member :: later ∧
    inbox = ((run earlier).attach group member).1 ∧
    ∀ event ∈ later, event.rebinds group member = false

/-- An inbox is attached by the event that opens it, until the place is bound anew. -/
theorem attached_concat {history : List (NetworkEvent μ)} {event : NetworkEvent μ}
    {group : GroupId} {member : MemberId} {inbox : InboxId} :
    Attached (history ++ [event]) group member inbox ↔
      event = .attach group member ∧ inbox = (run history).opened ∨
        Attached history group member inbox ∧ event.rebinds group member = false := by
  constructor
  · rintro ⟨earlier, later, hsplit, hinbox, hstays⟩
    rcases concat_eq_iff.mp hsplit with ⟨rfl, rfl, rfl⟩ | ⟨between, rfl, rfl⟩
    · exact .inl ⟨rfl, hinbox⟩
    · obtain ⟨hbetween, hlast⟩ := List.forall_mem_append.mp hstays
      exact .inr ⟨⟨earlier, between, rfl, hinbox, hbetween⟩, hlast event List.mem_cons_self⟩
  · rintro (⟨rfl, rfl⟩ | ⟨⟨earlier, later, rfl, hinbox, hstays⟩, hevent⟩)
    · exact ⟨history, [], rfl, rfl, fun event hmem => absurd hmem List.not_mem_nil⟩
    · refine ⟨earlier, later ++ [event], concat_eq_iff.mpr (.inr ⟨later, rfl, rfl⟩), hinbox,
        List.forall_mem_append.mpr ⟨hstays, ?_⟩⟩
      exact fun other hother => List.mem_singleton.mp hother ▸ hevent

/-- After an event, a member of a group has the inbox that was just opened for it, or the one that
    it had. -/
theorem get?_routes_follow (event : NetworkEvent μ) {group : GroupId} {member : MemberId}
    {inbox : InboxId} :
    (network.follow event).routes.get? (group, member) = some inbox ↔
      event = .attach group member ∧ inbox = network.opened ∨
        network.routes.get? (group, member) = some inbox ∧ event.rebinds group member = false := by
  cases event with
  | attach named other =>
    simp only [follow, attach, SortedMap.get?_insert, NetworkEvent.rebinds]
    by_cases heq : (named, other) = (group, member)
    · simp_all [eq_comm]
    · rw [if_neg heq]
      simp_all
  | detach named other =>
    simp only [follow, detach, SortedMap.get?_erase, NetworkEvent.rebinds]
    by_cases heq : (named, other) = (group, member) <;> simp_all
  | send named source target message =>
    obtain ⟨inboxes, hsend⟩ := network.send_eq named source target message
    simp [follow, hsend, NetworkEvent.rebinds]
  | receive other =>
    obtain ⟨inboxes, hreceive⟩ := network.receive_eq other
    simp [follow, hreceive, NetworkEvent.rebinds]
  | _ => simp [follow, discard, partition, isolate, heal, NetworkEvent.rebinds]

/-- A member of a group has the inbox that was opened for it last, if it did not lose it. -/
theorem get?_routes_run (history : List (NetworkEvent μ)) {group : GroupId} {member : MemberId}
    {inbox : InboxId} :
    (run history).routes.get? (group, member) = some inbox ↔
      Attached history group member inbox := by
  induction history using List.reverseRecOn with
  | nil =>
    refine iff_of_false (fun hget => by cases hget) ?_
    rintro ⟨earlier, later, hsplit, -⟩
    simp at hsplit
  | append_singleton history event ih =>
    rw [run_concat, get?_routes_follow, ih, attached_concat]

/-- Each inbox that a member has was opened, and no two members have the same. -/
structure Wired (network : Network μ) : Prop where
  lt_opened : ∀ {key inbox}, network.routes.get? key = some inbox → inbox < network.opened
  injective : ∀ {key other inbox}, network.routes.get? key = some inbox →
    network.routes.get? other = some inbox → key = other

/-- No event takes back an inbox that was opened. -/
theorem opened_le_follow (event : NetworkEvent μ) :
    network.opened ≤ (network.follow event).opened := by
  cases event with
  | attach group member => exact Nat.le_succ _
  | send group source target message =>
    obtain ⟨inboxes, hsend⟩ := network.send_eq group source target message
    exact Nat.le_of_eq (congrArg opened hsend).symm
  | receive inbox =>
    obtain ⟨inboxes, hreceive⟩ := network.receive_eq inbox
    exact Nat.le_of_eq (congrArg opened hreceive).symm
  | _ => exact Nat.le_refl _

/-- An event keeps each inbox with one member of one group. -/
theorem Wired.follow (h : network.Wired) (event : NetworkEvent μ) :
    (network.follow event).Wired := by
  have hnew {group : GroupId} {member : MemberId} {inbox : InboxId}
      (hget : (network.follow event).routes.get? (group, member) = some inbox) :
      event = .attach group member ∧ inbox = network.opened ∨
        network.routes.get? (group, member) = some inbox ∧ inbox < network.opened := by
    rcases (get?_routes_follow event).mp hget with hopened | ⟨hold, -⟩
    · exact .inl hopened
    · exact .inr ⟨hold, h.lt_opened hold⟩
  constructor
  · rintro ⟨group, member⟩ inbox hget
    rcases hnew hget with ⟨rfl, rfl⟩ | ⟨-, hlt⟩
    · exact Nat.lt_succ_self _
    · exact Nat.lt_of_lt_of_le hlt (opened_le_follow event)
  · rintro ⟨group, member⟩ ⟨named, other⟩ inbox hget hother
    rcases hnew hget with ⟨rfl, rfl⟩ | ⟨hold, hlt⟩ <;>
      rcases hnew hother with ⟨hevent, heq⟩ | ⟨hold', hlt'⟩
    · cases hevent
      rfl
    · exact absurd hlt' (Nat.lt_irrefl _)
    · exact absurd (heq ▸ hlt) (Nat.lt_irrefl _)
    · exact h.injective hold hold'

/-- After any history, each inbox belongs to one member of one group. -/
theorem wired_run (history : List (NetworkEvent μ)) : (run history).Wired := by
  induction history using List.reverseRecOn with
  | nil => exact ⟨fun hget => (nomatch hget), fun hget => (nomatch hget)⟩
  | append_singleton history event ih =>
    rw [run_concat]
    exact ih.follow event

/-- What the reader of an inbox takes by an event. -/
def taken (network : Network μ) (inbox : InboxId) : NetworkEvent μ → List μ
  | .receive other => if other = inbox then (network.receive inbox).1 else []
  | _ => []

/-- What the reader of an inbox takes by events, one after the other. -/
def takenFrom (inbox : InboxId) (network : Network μ) : List (NetworkEvent μ) → List μ
  | [] => []
  | event :: rest => network.taken inbox event ++ takenFrom inbox (network.follow event) rest

/-- What an event sends to a member of a group that its sender reaches. -/
def addressed (network : Network μ) (group : GroupId) (member : MemberId) :
    NetworkEvent μ → List μ
  | .send named source target message =>
    if named = group ∧ target = member ∧ network.reaches source target then [message] else []
  | _ => []

/-- What events send to a member of a group that their senders reach, in their order, until the
    member gets another inbox or loses the one that it has. -/
def sentTo (group : GroupId) (member : MemberId) (network : Network μ) :
    List (NetworkEvent μ) → List μ
  | [] => []
  | event :: rest =>
    if event.rebinds group member then []
    else network.addressed group member event ++ sentTo group member (network.follow event) rest

/-- What an event puts into an inbox, if it is read. -/
def arriving (network : Network μ) (inbox : InboxId) : NetworkEvent μ → List μ
  | .send group source target message =>
    if network.route? group source target = some inbox then [message] else []
  | _ => []

/-- What events put into an inbox, if it is read. -/
def arrivals (inbox : InboxId) (network : Network μ) : List (NetworkEvent μ) → List μ
  | [] => []
  | event :: rest => network.arriving inbox event ++ arrivals inbox (network.follow event) rest

/-- A message that is put into an inbox stands behind what waits there. -/
theorem get?_inboxes_put (network : Network μ) (inbox other : InboxId) (message : μ) :
    (network.put inbox message).inboxes.get? other =
      (network.inboxes.get? other).map fun waiting =>
        if inbox = other then waiting ++ [message] else waiting := by
  unfold put
  split
  · rename_i waiting hget
    rw [SortedMap.get?_insert]
    by_cases heq : inbox = other
    · subst heq
      simp [hget]
    · simp [heq]
  · rename_i hget
    by_cases heq : inbox = other
    · subst heq
      simp [hget]
    · simp [heq]

/-- A message that is sent arrives in the inbox of its target and in no other. -/
theorem get?_inboxes_send (network : Network μ) (group : GroupId) (source target : MemberId)
    (message : μ) (inbox : InboxId) :
    (network.send group source target message).inboxes.get? inbox =
      (network.inboxes.get? inbox).map fun waiting =>
        waiting ++ network.arriving inbox (.send group source target message) := by
  cases hroute : network.route? group source target with
  | none => simp [send, arriving, hroute]
  | some other =>
    simp only [send, arriving, hroute, get?_inboxes_put, Option.some.injEq]
    by_cases heq : other = inbox <;> simp [heq]

/-- An event that leaves an inbox its reader adds to what waits, or the reader takes all of it. -/
theorem taken_append_waiting {inbox : InboxId} {waiting : List μ} {event : NetworkEvent μ}
    (hopened : inbox < network.opened) (hget : network.inboxes.get? inbox = some waiting)
    (hkept : event ≠ .discard inbox) :
    ∃ remaining, (network.follow event).inboxes.get? inbox = some remaining ∧
      network.taken inbox event ++ remaining = waiting ++ network.arriving inbox event := by
  cases event with
  | attach group member =>
    refine ⟨waiting, ?_, (List.append_nil _).symm⟩
    exact (SortedMap.get?_insert ..).trans ((if_neg (Nat.ne_of_gt hopened)).trans hget)
  | discard other =>
    have hne : other ≠ inbox := fun heq => hkept (heq ▸ rfl)
    refine ⟨waiting, ?_, (List.append_nil _).symm⟩
    exact (SortedMap.get?_erase ..).trans ((if_neg hne).trans hget)
  | send group source target message =>
    refine ⟨_, (get?_inboxes_send ..).trans (congrArg _ hget), rfl⟩
  | receive other =>
    by_cases heq : other = inbox
    · subst heq
      refine ⟨[], ?_, ?_⟩
      · simp [follow, receive, hget]
      · simp [taken, receive, hget, arriving]
    · refine ⟨waiting, ?_, ?_⟩
      · rw [follow, receive]
        split
        · exact (SortedMap.get?_insert ..).trans ((if_neg heq).trans hget)
        · exact hget
      · simp [taken, heq, arriving]
  | _ => exact ⟨waiting, hget, (List.append_nil _).symm⟩

/-- What was taken from an inbox and what waits in it are what it held and what arrived since, in
    order. -/
theorem takenFrom_append_waiting {inbox : InboxId} {waiting : List μ}
    {history : List (NetworkEvent μ)} (hopened : inbox < network.opened)
    (hget : network.inboxes.get? inbox = some waiting) (hkept : .discard inbox ∉ history) :
    ∃ remaining, (history.foldl follow network).inboxes.get? inbox = some remaining ∧
      takenFrom inbox network history ++ remaining = waiting ++ arrivals inbox network history := by
  induction history generalizing network waiting with
  | nil => exact ⟨waiting, hget, (List.append_nil _).symm⟩
  | cons event rest ih =>
    rw [List.mem_cons, not_or] at hkept
    obtain ⟨between, hbetween, hstep⟩ :=
      taken_append_waiting hopened hget fun heq => hkept.1 heq.symm
    obtain ⟨remaining, hremaining, hrest⟩ :=
      ih (Nat.lt_of_lt_of_le hopened (opened_le_follow event)) hbetween hkept.2
    refine ⟨remaining, hremaining, ?_⟩
    rw [takenFrom, arrivals, List.append_assoc, hrest, ← List.append_assoc, hstep,
      List.append_assoc]

/-- An inbox gets the messages to its own member and group, from members that reach it. -/
theorem Wired.route?_eq_some_iff (h : network.Wired) {group named : GroupId}
    {member source target : MemberId} {inbox : InboxId}
    (hget : network.routes.get? (group, member) = some inbox) :
    network.route? named source target = some inbox ↔
      named = group ∧ target = member ∧ network.reaches source target = true := by
  rw [route?, Option.ite_none_right_eq_some]
  constructor
  · rintro ⟨hreaches, hroute⟩
    obtain ⟨rfl, rfl⟩ := Prod.mk.inj (h.injective hroute hget)
    exact ⟨rfl, rfl, hreaches⟩
  · rintro ⟨rfl, rfl, hreaches⟩
    exact ⟨hreaches, hget⟩

/-- What arrives in the inbox of a member is what is sent to it. -/
theorem Wired.arriving_eq_addressed (h : network.Wired) {group : GroupId} {member : MemberId}
    {inbox : InboxId} (hget : network.routes.get? (group, member) = some inbox)
    (event : NetworkEvent μ) :
    network.arriving inbox event = network.addressed group member event := by
  cases event with
  | send named source target message => simp only [arriving, addressed, h.route?_eq_some_iff hget]
  | _ => rfl

/-- Nothing arrives in an inbox that no member has. -/
theorem arrivals_of_unrouted {inbox : InboxId} (hopened : inbox < network.opened)
    (hnobody : ∀ key, network.routes.get? key ≠ some inbox) (history : List (NetworkEvent μ)) :
    arrivals inbox network history = [] := by
  induction history generalizing network with
  | nil => rfl
  | cons event rest ih =>
    have harriving : network.arriving inbox event = [] := by
      cases event with
      | send group source target message =>
        refine if_neg fun hroute => ?_
        rw [route?, Option.ite_none_right_eq_some] at hroute
        exact hnobody _ hroute.2
      | _ => rfl
    have hstill : ∀ key, (network.follow event).routes.get? key ≠ some inbox := by
      rintro ⟨group, member⟩ hget
      rcases (get?_routes_follow event).mp hget with ⟨-, hnew⟩ | ⟨hold, -⟩
      · exact Nat.ne_of_lt hopened hnew
      · exact hnobody _ hold
    rw [arrivals, harriving, List.nil_append]
    exact ih (Nat.lt_of_lt_of_le hopened (opened_le_follow event)) hstill

/-- What arrives in the inbox of a member, from some moment on, is what is sent to the member until
    the inbox is no longer its own. -/
theorem Wired.arrivals_eq_sentTo (h : network.Wired) {group : GroupId} {member : MemberId}
    {inbox : InboxId} (hget : network.routes.get? (group, member) = some inbox)
    (history : List (NetworkEvent μ)) :
    arrivals inbox network history = sentTo group member network history := by
  induction history generalizing network with
  | nil => rfl
  | cons event rest ih =>
    have hopened := h.lt_opened hget
    rw [arrivals, sentTo, h.arriving_eq_addressed hget]
    cases hrebinds : event.rebinds group member with
    | false =>
      rw [if_neg Bool.false_ne_true,
        ih (h.follow event) ((get?_routes_follow event).mpr (.inr ⟨hget, hrebinds⟩))]
    | true =>
      have hsilent : network.addressed group member event = [] := by
        cases event with
        | send => cases hrebinds
        | _ => rfl
      have hnobody : ∀ key, (network.follow event).routes.get? key ≠ some inbox := by
        rintro ⟨named, other⟩ hother
        rcases (get?_routes_follow event).mp hother with ⟨-, hnew⟩ | ⟨hold, hstays⟩
        · exact Nat.ne_of_lt hopened hnew
        · obtain ⟨rfl, rfl⟩ := Prod.mk.inj (h.injective hold hget)
          rw [hrebinds] at hstays
          cases hstays
      have hlt := Nat.lt_of_lt_of_le hopened (opened_le_follow event)
      rw [hsilent, arrivals_of_unrouted hlt hnobody, if_pos rfl]
      rfl

/-- What the members of a network find in their inboxes, after any history. Reachability is
    symmetric: a member reaches itself and those from which nothing separated it since links were
    last restored. As long as an inbox is read, its reader took or will take exactly what was sent
    to the member of the group that it was opened for, by senders that reached the member at the
    time, in the order of sending, until that member got another inbox or lost its own. A message
    changes no other inbox than the one that was opened last for its target, in its group, and not
    closed since. -/
theorem inbox_holds_messages (history : List (NetworkEvent μ)) :
    (∀ a b, (run history).reaches a b = (run history).reaches b a) ∧
    (∀ a b, (run history).reaches a b = true ↔ a = b ∨ ¬ Separated history a b) ∧
    (∀ earlier group member later, history = earlier ++ .attach group member :: later →
      let opening := (run earlier).attach group member
      .discard opening.1 ∉ later →
      ∃ waiting, (run history).inboxes.get? opening.1 = some waiting ∧
        takenFrom opening.1 opening.2 later ++ waiting =
          sentTo group member opening.2 later) ∧
    ∀ group source target message inbox,
      ((run history).send group source target message).inboxes.get? inbox ≠
          (run history).inboxes.get? inbox →
        Attached history group target inbox ∧ (run history).reaches source target = true := by
  refine ⟨fun a b => ?_, fun a b => reaches_run_iff history, ?_, ?_⟩
  · rw [Bool.eq_iff_iff, reaches_run_iff, reaches_run_iff, eq_comm, separated_comm]
  · rintro earlier group member later rfl opening hkept
    have hwired : opening.2.Wired := (wired_run earlier).follow (.attach group member)
    have hroute : opening.2.routes.get? (group, member) = some opening.1 :=
      SortedMap.get?_insert_self ..
    have hempty : opening.2.inboxes.get? opening.1 = some [] := SortedMap.get?_insert_self ..
    obtain ⟨waiting, hwaiting, hall⟩ :=
      takenFrom_append_waiting (hwired.lt_opened hroute) hempty hkept
    refine ⟨waiting, ?_, ?_⟩
    · rw [run, List.foldl_append]
      exact hwaiting
    · rw [hall, List.nil_append, hwired.arrivals_eq_sentTo hroute]
  · intro group source target message inbox hchanged
    by_cases hroute : (run history).route? group source target = some inbox
    · rw [route?, Option.ite_none_right_eq_some] at hroute
      exact ⟨(get?_routes_run history).mp hroute.2, hroute.1⟩
    · refine absurd ?_ hchanged
      rw [get?_inboxes_send, arriving, if_neg hroute]
      simp

/-- A member is cut off, restored and given another inbox. The reader of its first inbox took two
    messages, one of them its own, and one waits; the next message goes to the second inbox. -/
theorem replaced_inbox_holds_messages :
    let group := GroupId.default
    let later : List (NetworkEvent Nat) :=
      [.partition [1, 2] [3], .send group 1 3 10, .send group 3 3 11, .heal, .isolate 1,
        .send group 1 3 12, .send group 2 3 13, .receive 0, .send group 2 3 14, .attach group 3,
        .send group 2 3 15]
    let history := .attach group 3 :: later
    let opening := (∅ : Network Nat).attach group 3
    opening.1 = 0 ∧ .discard opening.1 ∉ later ∧ takenFrom 0 opening.2 later = [11, 13] ∧
      sentTo group 3 opening.2 later = [11, 13, 14] ∧
      (∃ waiting, (run history).inboxes.get? 0 = some waiting ∧
        takenFrom 0 opening.2 later ++ waiting = sentTo group 3 opening.2 later) ∧
      ((run history).send group 2 3 16).inboxes.get? 1 ≠ (run history).inboxes.get? 1 ∧
      Attached history group 3 1 := by
  intro group later history opening
  have hkept : .discard opening.1 ∉ later := by simp [later]
  have hchanged : ((run history).send group 2 3 16).inboxes.get? 1 ≠
      (run history).inboxes.get? 1 := by decide +kernel
  obtain ⟨-, -, hheld, hothers⟩ := inbox_holds_messages history
  exact ⟨rfl, hkept, by decide +kernel, by decide +kernel, hheld [] group 3 later rfl hkept,
    hchanged, (hothers group 2 3 16 1 hchanged).1⟩

end Network

end Quorum
