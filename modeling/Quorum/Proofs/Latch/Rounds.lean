import Quorum.Proofs.Parked

namespace Quorum.Latch

/-- One round: the count that was set, what was left to count down when it was set, and the
    countdowns since. -/
structure Round where
  value : UInt32
  before : UInt32
  countDowns : Nat := 0

namespace Round

/-- What is left to count down. -/
def remaining (round : Round) : Nat := round.value.toNat - round.countDowns

def countedDown (round : Round) : Round := { round with countDowns := round.countDowns + 1 }

theorem remaining_countedDown (round : Round) :
    round.countedDown.remaining = round.remaining - 1 := by
  simp only [remaining, countedDown]
  omega

end Round

/-- Enters an event into the chronicle of a latch, which has the latest round first. A positive
    count that is accepted starts a round. -/
def chronicle (rounds : List Round) (latch : Latch) : ObjectEvent LatchOp → List Round
  | .call (.trySetCount count) invocation now =>
    if count ≠ 0 ∧ (latch.call (.trySetCount count) invocation now).answer = .ok (.bool true) then
      { value := count, before := latch.count } :: rounds
    else rounds
  | .call .countDown _ _ => rounds.modifyHead Round.countedDown
  | _ => rounds

/-- An accepted count starts a new round. -/
theorem chronicle_of_started {latch : Latch} {count : UInt32} (hopen : latch.count = 0)
    (hcount : count ≠ 0) (rounds : List Round) (invocation : Invocation) (now : Millis) :
    chronicle rounds latch (.call (.trySetCount count) invocation now) =
      { value := count, before := 0 } :: rounds := by
  have hanswer : (latch.call (.trySetCount count) invocation now).answer = .ok (.bool true) := by
    simp only [call, trySetCount, hopen, hcount, ne_eq, not_true_eq_false, if_false]
  rw [chronicle, if_pos ⟨hcount, hanswer⟩, hopen]

/-- A zero count, or one before the round has ended, starts no round. -/
theorem chronicle_of_refused {latch : Latch} {count : UInt32} (h : count = 0 ∨ latch.count ≠ 0)
    (rounds : List Round) (invocation : Invocation) (now : Millis) :
    chronicle rounds latch (.call (.trySetCount count) invocation now) = rounds := by
  refine if_neg ?_
  rintro ⟨hcount, hanswer⟩
  have hclosed : latch.count ≠ 0 := h.resolve_left hcount
  simp [call, trySetCount, hclosed] at hanswer

/-- A latch agrees with the rounds of its life, the latest first. -/
structure Chronicled (latch : Latch) (rounds : List Round) : Prop where
  round_eq : latch.round = .ofNat rounds.length
  /-- Every round started when nothing was left to count down. -/
  started : ∀ round ∈ rounds, round.before = 0 ∧ round.value ≠ 0
  /-- The count is what is left of the latest round. -/
  count_eq : latch.count.toNat = (rounds.head?.map Round.remaining).getD 0
  /-- Earlier rounds were counted down to their end. -/
  ended : ∀ round ∈ rounds.tail, round.remaining = 0

theorem chronicled_new : Chronicled {} [] where
  round_eq := rfl
  started := by simp
  count_eq := rfl
  ended := by simp

/-- A countdown counts for the latest round, whether anything is left of it or not. -/
theorem Chronicled.countDown {latch after : Latch} {rounds : List Round}
    (h : latch.Chronicled rounds) (hround : after.round = latch.round)
    (hcount : after.count.toNat = latch.count.toNat - 1) :
    after.Chronicled (rounds.modifyHead Round.countedDown) := by
  cases rounds with
  | nil =>
    have hnone := h.count_eq
    simp only [List.head?_nil, Option.map_none, Option.getD_none] at hnone
    exact ⟨hround.trans h.round_eq, h.started, by rw [hcount, hnone]; rfl, h.ended⟩
  | cons latest earlier =>
    have hlatest : latch.count.toNat = latest.remaining := h.count_eq
    refine ⟨hround.trans h.round_eq, ?_, ?_, h.ended⟩
    · intro round hmem
      rcases List.mem_cons.mp hmem with rfl | hmem
      · exact h.started latest List.mem_cons_self
      · exact h.started round (List.mem_cons_of_mem _ hmem)
    · rw [hcount, hlatest]
      exact latest.remaining_countedDown.symm

/-- Other events leave the chronicle and what it speaks of as they are. -/
theorem Chronicled.congr {latch after : Latch} {rounds : List Round} (h : latch.Chronicled rounds)
    (hround : after.round = latch.round) (hcount : after.count = latch.count) :
    after.Chronicled rounds :=
  ⟨hround.trans h.round_eq, h.started, by rw [hcount, h.count_eq], h.ended⟩

/-- An event is told by one more line of the chronicle. -/
theorem Chronicled.react {latch : Latch} {rounds : List Round} (h : latch.Chronicled rounds)
    (name : String) (event : ObjectEvent LatchOp) :
    (latch.react name event).1.Chronicled (chronicle rounds latch event) := by
  have hchange := react_change name latch event
  generalize latch.react name event = result at hchange
  cases hchange with
  | still hidle hrefused =>
    cases event with
    | call op invocation now =>
      cases op with
      | countDown => exact h.countDown rfl (by rw [hidle invocation now rfl]; rfl)
      | trySetCount count =>
        rw [chronicle_of_refused (hrefused count invocation now rfl)]
        exact h
      | _ => exact h
    | _ => exact h
  | @started count invocation now hopen hcount =>
    rw [chronicle_of_started hopen hcount]
    -- The count is at zero, so the round before this one is spent.
    have hspent := h.count_eq
    rw [hopen] at hspent
    refine ⟨?_, ?_, rfl, ?_⟩
    · show latch.round + 1 = UInt64.ofNat (rounds.length + 1)
      rw [h.round_eq, UInt64.ofNat_add]
      rfl
    · intro round hmem
      rcases List.mem_cons.mp hmem with rfl | hmem
      · exact ⟨rfl, hcount⟩
      · exact h.started round hmem
    · intro round hmem
      cases rounds with
      | nil => cases hmem
      | cons latest earlier =>
        rcases List.mem_cons.mp hmem with rfl | hmem
        · exact hspent.symm
        · exact h.ended round hmem
  | counted hmore hleft =>
    refine h.countDown rfl ?_
    have hpos : 1 ≤ latch.count := by grind
    exact UInt32.toNat_sub_of_le latch.count 1 hpos
  | opened hlast => exact h.countDown rfl (by rw [hlast]; rfl)
  | parked hclosed htimeout huid hnew => exact h.congr rfl rfl
  | disconnected howner => exact h.congr rfl rfl
  | timedOut hfind => exact h.congr rfl rfl

/-- A latch that reacts to an event, with the chronicle in which the event is entered. -/
def chronicledReact (name : String) (entry : Latch × List Round) (event : ObjectEvent LatchOp) :
    (Latch × List Round) × List Notification :=
  (((entry.1.react name event).1, chronicle entry.2 entry.1 event), (entry.1.react name event).2)

/-- The latch that events leave, with the rounds of its life since it was last created. -/
def chronicleOf (name : String) (events : List (ObjectEvent LatchOp)) :
    Option (Latch × List Round) :=
  events.foldl (ObjectEvent.follow ({}, []) (chronicledReact name)) none

/-- The chronicle follows the latch that its events leave. -/
theorem map_chronicleOf (name : String) (events : List (ObjectEvent LatchOp)) :
    (chronicleOf name events).map (·.1) = events.foldl (ObjectEvent.follow {} (react name)) none :=
  ObjectEvent.map_foldl_follow (fun _ _ => rfl) events none

/-- The chronicle of a latch tells its round and its count. -/
theorem chronicled_of_chronicleOf {name : String} {events : List (ObjectEvent LatchOp)}
    {entry : Latch × List Round} (hentry : chronicleOf name events = some entry) :
    entry.1.Chronicled entry.2 :=
  ObjectEvent.follow_induction (P := fun entry : Latch × List Round => entry.1.Chronicled entry.2)
    chronicled_new (fun event _ _ hbefore => hbefore.react name event) (by simp) hentry

/-- A call starts at most one round, and no other event starts any. -/
theorem length_chronicle_le (rounds : List Round) (latch : Latch) (event : ObjectEvent LatchOp) :
    (chronicle rounds latch event).length ≤ rounds.length + [event].countP ObjectEvent.isCall := by
  unfold chronicle
  split
  · split
    · exact Nat.le_refl _
    · exact Nat.le_add_right _ _
  · rw [List.length_modifyHead]
    exact Nat.le_add_right _ _
  · exact Nat.le_add_right _ _

/-- A latch has at most as many rounds as it had calls. -/
theorem length_rounds_le {name : String} {events : List (ObjectEvent LatchOp)}
    {before? : Option (Latch × List Round)} {entry : Latch × List Round}
    (hentry : events.foldl (ObjectEvent.follow ({}, []) (chronicledReact name)) before? =
      some entry) :
    entry.2.length ≤
      (before?.map fun entry => entry.2.length).getD 0 + events.countP ObjectEvent.isCall := by
  induction events generalizing before? with
  | nil =>
    obtain rfl : before? = some entry := hentry
    exact Nat.le_refl _
  | cons event rest ih =>
    have hrest := ih hentry
    have hfirst : ((ObjectEvent.follow ({}, []) (chronicledReact name) before? event).map
        fun entry => entry.2.length).getD 0 ≤
        (before?.map fun entry => entry.2.length).getD 0 +
          [event].countP ObjectEvent.isCall := by
      have hle := fun before : Latch × List Round =>
        length_chronicle_le before.2 before.1 event
      cases event with
      | destroyed => exact Nat.zero_le _
      | call op invocation now => cases before? <;> exact hle _
      | sessionClosed session =>
        cases before? with
        | none => exact Nat.zero_le _
        | some before => exact hle before
      | timedOut uid =>
        cases before? with
        | none => exact Nat.zero_le _
        | some before => exact hle before
    rw [← List.singleton_append, List.countP_append]
    omega

/-- An open latch has no owner. -/
def Unowned (latch : Latch) : Prop := latch.count = 0 → latch.owner = none

theorem unowned_new : Unowned {} := fun _ => rfl

/-- An event leaves no owner to a latch that is open. -/
theorem Unowned.react {latch : Latch} (h : latch.Unowned) (name : String)
    (event : ObjectEvent LatchOp) : (latch.react name event).1.Unowned := by
  have hchange := react_change name latch event
  generalize latch.react name event = result at hchange
  cases hchange with
  | still hidle hrefused => exact h
  | started hopen hcount => exact fun _ => rfl
  | counted hmore hleft => exact fun hopen => absurd hopen hleft
  | opened hlast => exact fun _ => rfl
  | parked hclosed htimeout huid hnew => exact h
  | disconnected howner => exact fun _ => rfl
  | timedOut hfind => exact h

/-- The notifications that an event at the named latch gives. -/
def notesAt (name : String) (latch? : Option Latch) : ObjectEvent LatchOp → List Notification
  | .destroyed =>
    ((latch?.map waiters).getD []).map fun waiter =>
      waiter.answer (.error (.objectDestroyed name))
  | event => ((event.subject {} latch?).map fun latch => (latch.react name event).2).getD []

/-- The notifications that events at the named latch give. -/
def notesOf (name : String) (latch? : Option Latch) (events : List (ObjectEvent LatchOp)) :
    List Notification :=
  ObjectEvent.replies {} (react name) (notesAt name) latch? events

theorem notesOf_singleton (name : String) (latch? : Option Latch)
    (event : ObjectEvent LatchOp) : notesOf name latch? [event] = notesAt name latch? event :=
  List.append_nil _

/-- A call waits at a latch in a round that goes on. -/
structure AwaitsIn (latch : Latch) (round : UInt64) (call : ParkedCall) : Prop where
  parked : call ∈ latch.parkedCalls
  round_eq : latch.round = round
  closed : latch.count ≠ 0

/-- A call that is parked waits in the present round. -/
theorem Orderly.awaitsIn {latch : Latch} (h : latch.Orderly) {call : ParkedCall}
    (hcall : call ∈ latch.parkedCalls) : latch.AwaitsIn latch.round call := by
  refine ⟨hcall, rfl, fun hopen => ?_⟩
  rw [parkedCalls, h.awaited hopen] at hcall
  cases hcall

/-- An event leaves a parked call in its round, or it answers the call. -/
theorem AwaitsIn.react {latch : Latch} {round : UInt64} {call : ParkedCall}
    (h : latch.AwaitsIn round call) (name : String) (event : ObjectEvent LatchOp) :
    (latch.react name event).1.AwaitsIn round call ∨
      ∃ note ∈ (latch.react name event).2, note.call = call := by
  have hchange := react_change name latch event
  generalize latch.react name event = result at hchange
  have hparked := h.parked
  have hall : ∀ reply : Reply, ∃ note ∈ latch.waiters.map fun waiter => waiter.answer reply,
      note.call = call := by
    intro reply
    rw [parkedCalls, ← AwaitWaiter.map_call_answer latch.waiters reply] at hparked
    exact List.mem_map.mp hparked
  cases hchange with
  | still hidle hrefused => exact .inl h
  | started hopen hcount => exact absurd hopen h.closed
  | counted hmore hleft => exact .inl ⟨hparked, h.round_eq, hleft⟩
  | opened hlast => exact .inr (hall _)
  | parked hclosed htimeout huid hnew =>
    refine .inl ⟨?_, h.round_eq, hclosed⟩
    rw [parkedCalls, List.map_append]
    exact List.mem_append_left _ hparked
  | disconnected howner => exact .inr (hall _)
  | @timedOut uid waiter hfind =>
    have hperm := (perm_eraseP_of_find? hfind).map AwaitWaiter.call
    rcases List.mem_cons.mp (hperm.mem_iff.mpr hparked) with hown | hkept
    · exact .inr ⟨_, List.mem_singleton_self _, hown.symm⟩
    · exact .inl ⟨hkept, h.round_eq, h.closed⟩

/-- So does an event at the named latch, its destruction included. -/
theorem follow_fate {latch : Latch} {round : UInt64} {call : ParkedCall}
    (h : latch.AwaitsIn round call) (name : String) (event : ObjectEvent LatchOp) :
    (∃ after, ObjectEvent.follow {} (react name) (some latch) event = some after ∧
        after.AwaitsIn round call) ∨
      ∃ note ∈ notesAt name (some latch) event, note.call = call := by
  cases event with
  | destroyed =>
    right
    have hparked := h.parked
    rw [parkedCalls, ← AwaitWaiter.map_call_answer latch.waiters
      (.error (.objectDestroyed name))] at hparked
    exact List.mem_map.mp hparked
  | call op invocation now =>
    exact (h.react name (.call op invocation now)).imp_left fun hafter => ⟨_, rfl, hafter⟩
  | sessionClosed session =>
    exact (h.react name (.sessionClosed session)).imp_left fun hafter => ⟨_, rfl, hafter⟩
  | timedOut uid =>
    exact (h.react name (.timedOut uid)).imp_left fun hafter => ⟨_, rfl, hafter⟩

/-- A call that waits in a round goes on waiting in it, or an event answers it. -/
theorem fate_of_events {latch : Latch} {round : UInt64} {call : ParkedCall}
    (h : latch.AwaitsIn round call) (name : String) (events : List (ObjectEvent LatchOp)) :
    (∃ after, events.foldl (ObjectEvent.follow {} (react name)) (some latch) = some after ∧
        after.AwaitsIn round call) ∨
      ∃ note ∈ notesOf name (some latch) events, note.call = call := by
  induction events generalizing latch with
  | nil => exact .inl ⟨latch, rfl, h⟩
  | cons event rest ih =>
    rw [notesOf, ObjectEvent.replies, List.foldl_cons]
    rcases follow_fate h name event with ⟨between, hbetween, hwaits⟩ | ⟨note, hmem, hcall⟩
    · rw [hbetween]
      refine (ih hwaits).imp_right ?_
      rintro ⟨note, hmem, hcall⟩
      exact ⟨note, List.mem_append_right _ hmem, hcall⟩
    · exact .inr ⟨note, List.mem_append_left _ hmem, hcall⟩

/-- Each notification is given by one of the events. -/
theorem exists_event_of_note {name : String} {latch? : Option Latch}
    {events : List (ObjectEvent LatchOp)} {note : Notification}
    (hmem : note ∈ notesOf name latch? events) :
    ∃ event ∈ events, ∃ before?, note ∈ notesAt name before? event := by
  induction events generalizing latch? with
  | nil => cases hmem
  | cons event rest ih =>
    rcases List.mem_append.mp hmem with hnow | hlater
    · exact ⟨event, List.mem_cons_self, latch?, hnow⟩
    · obtain ⟨other, hother, before?, hnote⟩ := ih hlater
      exact ⟨other, List.mem_cons_of_mem _ hother, before?, hnote⟩

/-- An await is granted by the countdown that ends the round, and by nothing else. -/
theorem opens_of_granted {name : String} {latch? : Option Latch} {event : ObjectEvent LatchOp}
    {note : Notification} (hmem : note ∈ notesAt name latch? event)
    (hgranted : note.result = .ok (.bool true)) :
    ∃ latch invocation now, latch? = some latch ∧ event = .call .countDown invocation now ∧
      latch.count = 1 ∧ note.call ∈ latch.parkedCalls ∧ (latch.react name event).1 =
        { latch with count := 0, owner := none, waiters := [] } := by
  -- Of all that can happen to a latch, only the end of a round grants anything.
  have hreact : ∀ latch : Latch, note ∈ (latch.react name event).2 →
      ∃ invocation now, event = .call .countDown invocation now ∧ latch.count = 1 ∧
        note.call ∈ latch.parkedCalls ∧ (latch.react name event).1 =
          { latch with count := 0, owner := none, waiters := [] } := by
    intro latch hnote
    have hchange := react_change name latch event
    generalize latch.react name event = result at hchange hnote
    cases hchange with
    | opened hlast =>
      obtain ⟨waiter, hwaiter, rfl⟩ := List.mem_map.mp hnote
      exact ⟨_, _, rfl, hlast, List.mem_map_of_mem hwaiter, rfl⟩
    | disconnected howner =>
      obtain ⟨waiter, -, rfl⟩ := List.mem_map.mp hnote
      cases hgranted
    | timedOut hfind =>
      obtain rfl := List.mem_singleton.mp hnote
      simp [AwaitWaiter.answer] at hgranted
    | _ => cases hnote
  cases event with
  | destroyed =>
    obtain ⟨waiter, -, rfl⟩ := List.mem_map.mp hmem
    cases hgranted
  | call op invocation now =>
    obtain ⟨caller, at', hevent, hlast, hparked, hafter⟩ := hreact _ hmem
    cases latch? with
    | none => cases hlast
    | some latch => exact ⟨latch, caller, at', rfl, hevent, hlast, hparked, hafter⟩
  | sessionClosed session =>
    cases latch? with
    | none => cases hmem
    | some latch =>
      obtain ⟨caller, at', hevent, -⟩ := hreact latch hmem
      cases hevent
  | timedOut uid =>
    cases latch? with
    | none => cases hmem
    | some latch =>
      obtain ⟨caller, at', hevent, -⟩ := hreact latch hmem
      cases hevent

end Quorum.Latch
