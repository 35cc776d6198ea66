import Quorum.Object.Latch
import Quorum.Proofs.Event

namespace Quorum

namespace Latch

/-- An operation at one latch. -/
def call (latch : Latch) (op : LatchOp) (invocation : Invocation) (now : Millis) :
    Step Latch Applied :=
  match op with
  | .countDown =>
    let { answer, state, notes } := latch.countDown invocation.session
    { answer := .ok (.count (answer.toNat : Int).toInt64), state, notes }
  | .trySetCount count =>
    match latch.trySetCount count with
    | .ok state => { answer := .ok (.bool true), state }
    | .error failure => { answer := .failed failure, state := latch }
  | .await timeout => latch.await invocation timeout now
  | .getCount => { answer := .ok (.count (latch.count.toNat : Int).toInt64), state := latch }
  | .getRound => { answer := .ok (Latches.roundAnswer latch.round), state := latch }

def react (name : String) (latch : Latch) : ObjectEvent LatchOp → Latch × List Notification
  | .call op invocation now =>
    let outcome := latch.call op invocation now
    (outcome.state, outcome.notes)
  | .sessionClosed session => latch.releaseOwner name session
  | .timedOut uid => latch.expireWaiter uid
  | .destroyed => (latch, [])

/-- The entry under which a call is parked. -/
def parkedEntry (invocation : Invocation) (uid : InvocationUid) (timeout : Option Millis)
    (now : Millis) : AwaitWaiter :=
  { uid, session := invocation.session, deadline := deadline now timeout }

/-- The ends of an await. -/
inductive AwaitOutcome (latch : Latch) (invocation : Invocation) (timeout : Option Millis)
    (now : Millis) : Step Latch Applied → Prop
  | passed (hopen : latch.count = 0) :
    AwaitOutcome latch invocation timeout now { answer := .ok (.bool true), state := latch }
  | refused (hclosed : latch.count ≠ 0) (htimeout : timeout = some 0) :
    AwaitOutcome latch invocation timeout now { answer := .ok (.bool false), state := latch }
  | failed (failure : Failure) :
    AwaitOutcome latch invocation timeout now { answer := .failed failure, state := latch }
  /-- The call is parked already. -/
  | joined {waiter : AwaitWaiter} (hmem : waiter ∈ latch.waiters)
      (huid : invocation.uid = some waiter.uid) :
    AwaitOutcome latch invocation timeout now { answer := .waiting, state := latch }
  | parked (hclosed : latch.count ≠ 0) (htimeout : timeout ≠ some 0) {uid : InvocationUid}
      (huid : invocation.uid = some uid) (hnew : ∀ waiter ∈ latch.waiters, waiter.uid ≠ uid) :
    AwaitOutcome latch invocation timeout now
      { answer := .waiting
        state := { latch with
          waiters := latch.waiters ++ [parkedEntry invocation uid timeout now] } }

/-- An await ends as one of the listed outcomes. -/
theorem await_outcome (latch : Latch) (invocation : Invocation) (timeout : Option Millis)
    (now : Millis) :
    AwaitOutcome latch invocation timeout now (latch.await invocation timeout now) := by
  unfold await
  by_cases hopen : latch.count = 0
  · simp only [hopen, if_true]
    exact .passed hopen
  simp only [hopen, if_false]
  by_cases htimeout : timeout = some 0
  · simp only [htimeout, if_true]
    exact .refused hopen rfl
  simp only [htimeout, if_false]
  cases huid : invocation.uid with
  | none => exact .failed _
  | some uid =>
    simp only
    by_cases hqueued : latch.waiters.any (fun waiter => waiter.uid = uid) = true
    · obtain ⟨waiter, hmem, heq⟩ := List.any_eq_true.mp hqueued
      simp only [hqueued, if_true]
      exact .joined hmem (by rw [huid, of_decide_eq_true heq])
    · simp only [hqueued]
      refine .parked hopen htimeout huid fun waiter hmem heq => ?_
      exact hqueued (List.any_eq_true.mpr ⟨waiter, hmem, decide_eq_true heq⟩)

/-- What an event can do to a latch. -/
inductive Change (name : String) (latch : Latch) :
    ObjectEvent LatchOp → Latch × List Notification → Prop
  /-- Neither a round that goes on is counted down nor a new one is started. -/
  | still {event : ObjectEvent LatchOp}
    (hidle : ∀ invocation now, event = .call .countDown invocation now → latch.count = 0)
    (hrefused : ∀ count invocation now, event = .call (.trySetCount count) invocation now →
      count = 0 ∨ latch.count ≠ 0) : Change name latch event (latch, [])
  | started {count : UInt32} {invocation : Invocation} {now : Millis} (hopen : latch.count = 0)
    (hcount : count ≠ 0) : Change name latch (.call (.trySetCount count) invocation now)
      ({ latch with count, round := latch.round + 1, owner := none }, [])
  | counted {invocation : Invocation} {now : Millis} (hmore : latch.count ≠ 0)
    (hleft : latch.count - 1 ≠ 0) : Change name latch (.call .countDown invocation now)
      ({ latch with count := latch.count - 1, owner := latch.owner <|> invocation.session }, [])
  | opened {invocation : Invocation} {now : Millis} (hlast : latch.count = 1) :
    Change name latch (.call .countDown invocation now)
      ({ latch with count := 0, owner := none, waiters := [] },
        latch.waiters.map fun waiter => waiter.answer (.ok (.bool true)))
  | parked {invocation : Invocation} {timeout : Option Millis} {now : Millis} {uid : InvocationUid}
    (hclosed : latch.count ≠ 0) (htimeout : timeout ≠ some 0) (huid : invocation.uid = some uid)
    (hnew : ∀ waiter ∈ latch.waiters, waiter.uid ≠ uid) :
    Change name latch (.call (.await timeout) invocation now)
      ({ latch with waiters := latch.waiters ++ [parkedEntry invocation uid timeout now] }, [])
  | disconnected {session : SessionId} (howner : latch.owner = some session) :
    Change name latch (.sessionClosed session)
      ({ latch with owner := none, waiters := [] },
        latch.waiters.map fun waiter => waiter.answer (.error (.ownerDisconnected name session)))
  | timedOut {uid : InvocationUid} {waiter : AwaitWaiter}
    (hfind : latch.waiters.find? (fun waiter => waiter.uid = uid) = some waiter) :
    Change name latch (.timedOut uid)
      ({ latch with waiters := latch.waiters.eraseP (fun waiter => waiter.uid = uid) },
        [waiter.answer (.ok (.bool false))])

/-- An event changes a latch as one of the listed changes. -/
theorem react_change (name : String) (latch : Latch) (event : ObjectEvent LatchOp) :
    Change name latch event (latch.react name event) := by
  cases event with
  | destroyed => exact .still (by simp) (by simp)
  | sessionClosed session =>
    simp only [react, releaseOwner]
    split
    · rename_i howner
      exact .disconnected howner
    · exact .still (by simp) (by simp)
  | timedOut uid =>
    simp only [react, expireWaiter]
    split
    · exact .still (by simp) (by simp)
    · rename_i waiter hfind
      exact .timedOut hfind
  | call op invocation now =>
    cases op with
    | getCount => exact .still (by simp) (by simp)
    | getRound => exact .still (by simp) (by simp)
    | countDown =>
      simp only [react, call, countDown]
      by_cases hopen : latch.count = 0
      · rw [if_pos hopen]
        exact .still (fun _ _ _ => hopen) (by simp)
      rw [if_neg hopen]
      by_cases hlast : latch.count - 1 = 0
      · rw [if_pos hlast]
        exact .opened (by grind)
      · rw [if_neg hlast]
        exact .counted hopen hlast
    | trySetCount count =>
      simp only [react, call, trySetCount]
      by_cases hclosed : latch.count = 0
      · rw [if_neg fun hround => hround hclosed]
        by_cases hcount : count = 0
        · rw [if_pos hcount]
          exact .still (by simp) (by simp [hcount])
        · rw [if_neg hcount]
          exact .started hclosed hcount
      · rw [if_pos hclosed]
        exact .still (by simp) (by simp [hclosed])
    | await timeout =>
      simp only [react, call]
      have houtcome := await_outcome latch invocation timeout now
      generalize latch.await invocation timeout now = outcome at houtcome
      cases houtcome with
      | parked hclosed htimeout huid hnew => exact .parked hclosed htimeout huid hnew
      | _ => exact .still (by simp) (by simp)

/-- No event gives a round to a session other than the caller's own. -/
theorem owner_of_react {name : String} {latch : Latch} {event : ObjectEvent LatchOp}
    {session : SessionId} (h : (latch.react name event).1.owner = some session) :
    latch.owner = some session ∨
      ∃ op invocation now, event = .call op invocation now ∧ invocation.session = some session := by
  have hchange := react_change name latch event
  generalize latch.react name event = result at hchange h
  cases hchange with
  | still hidle hrefused => exact .inl h
  | started hopen hcount => cases h
  | counted hmore hleft =>
    cases howner : latch.owner with
    | none =>
      simp only [howner, Option.orElse_eq_orElse, Option.orElse_none] at h
      exact .inr ⟨_, _, _, rfl, h⟩
    | some owner =>
      simp only [howner, Option.orElse_eq_orElse, Option.orElse_some] at h
      exact .inl h
  | opened hlast => cases h
  | parked hclosed htimeout huid hnew => exact .inl h
  | disconnected howner => cases h
  | timedOut hfind => exact .inl h

/-- A session that has left does not own the latch. -/
theorem owner_of_releaseOwner (name : String) (latch : Latch) (session : SessionId) :
    (latch.releaseOwner name session).1.owner ≠ some session := by
  unfold releaseOwner
  split
  · simp
  · assumption

/-- An event takes parked calls away, or parks its caller behind the others. -/
theorem react_waiters (name : String) (latch : Latch) (event : ObjectEvent LatchOp) :
    (latch.react name event).1.waiters.Sublist latch.waiters ∨
      ∃ invocation timeout now uid,
        event = .call (.await timeout) invocation now ∧ invocation.uid = some uid ∧
        latch.count ≠ 0 ∧ timeout ≠ some 0 ∧ (∀ waiter ∈ latch.waiters, waiter.uid ≠ uid) ∧
        (latch.react name event).1 =
          { latch with waiters := latch.waiters ++ [parkedEntry invocation uid timeout now] } := by
  have hchange := react_change name latch event
  generalize latch.react name event = result at hchange
  cases hchange with
  | parked hclosed htimeout huid hnew =>
    exact .inr ⟨_, _, _, _, rfl, huid, hclosed, htimeout, hnew, rfl⟩
  | opened hlast => exact .inl (List.nil_sublist _)
  | disconnected howner => exact .inl (List.nil_sublist _)
  | timedOut hfind => exact .inl List.eraseP_sublist
  | _ => exact .inl (List.Sublist.refl _)

/-- A round ends by releasing its awaiters. -/
theorem open_of_react {name : String} {latch : Latch} {event : ObjectEvent LatchOp}
    (h : (latch.react name event).1.count = 0) :
    latch.count = 0 ∨ (latch.react name event).1.waiters = [] := by
  have hchange := react_change name latch event
  generalize latch.react name event = result at hchange h
  cases hchange with
  | started hopen hcount => exact .inl hopen
  | counted hmore hleft => exact absurd h hleft
  | opened hlast => exact .inr rfl
  | _ => exact .inl h

/-- No token is parked twice, and nobody waits at an open latch. -/
structure Orderly (latch : Latch) : Prop where
  distinct : (latch.waiters.map AwaitWaiter.uid).Nodup
  awaited : latch.count = 0 → latch.waiters = []

theorem orderly_new : Orderly {} := ⟨List.nodup_nil, fun _ => rfl⟩

/-- An event keeps the order of a latch. -/
theorem Orderly.react {latch : Latch} (h : latch.Orderly) (name : String)
    (event : ObjectEvent LatchOp) : (latch.react name event).1.Orderly := by
  rcases react_waiters name latch event with
    hsub | ⟨invocation, timeout, now, uid, -, -, hclosed, -, hnew, heq⟩
  · refine ⟨h.distinct.sublist (hsub.map _), fun hopen => ?_⟩
    rcases open_of_react hopen with hbefore | hreleased
    · rw [h.awaited hbefore] at hsub
      exact List.sublist_nil.mp hsub
    · exact hreleased
  · rw [heq]
    refine ⟨?_, fun hopen => absurd hopen hclosed⟩
    rw [List.map_append]
    refine List.nodup_append.mpr ⟨h.distinct, by simp, ?_⟩
    intro a ha b hb
    obtain ⟨waiter, hmem, rfl⟩ := List.mem_map.mp ha
    obtain rfl : b = uid := by simpa [parkedEntry] using hb
    exact hnew waiter hmem

end Latch

namespace Latches

/-- An operation that is not only read is a call at the named latch. -/
theorem apply_eq (latches : Latches) (name : String) {op : LatchOp} (h : op.isReadOnly = false)
    (invocation : Invocation) (now : Millis) :
    latches.apply name op invocation now =
      { answer := ((latches.latch name).call op invocation now).answer
        state := latches.put name ((latches.latch name).call op invocation now).state
        notes := ((latches.latch name).call op invocation now).notes } := by
  cases op with
  | getCount => cases h
  | getRound => cases h
  | countDown => rfl
  | await timeout => rfl
  | trySetCount count =>
    simp only [apply, Latch.call]
    cases (latches.latch name).trySetCount count with
    | ok started => rfl
    | error failure => rfl

/-- A read leaves the latches as they are. -/
theorem apply_of_readOnly (latches : Latches) (name : String) {op : LatchOp}
    (h : op.isReadOnly = true) (invocation : Invocation) (now : Millis) :
    latches.apply name op invocation now =
      { answer := .done (latches.query name op), state := latches } := by
  cases op with
  | getCount => rfl
  | getRound => rfl
  | countDown => cases h
  | await timeout => cases h
  | trySetCount count => cases h

end Latches

end Quorum
