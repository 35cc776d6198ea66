import Mathlib.Data.Finset.Card
import Mathlib.Data.List.Destutter
import Mathlib.Tactic.SplitIfs
import Quorum.Group

namespace Quorum.Topology

section Sorted

variable (members : List MemberId)

theorem sorted_perm : (sorted members).Perm members := List.mergeSort_perm ..

theorem pairwise_sorted : (sorted members).Pairwise (· ≤ ·) := by
  have hsorted : (sorted members).Pairwise fun a b => decide (a ≤ b) = true :=
    List.pairwise_mergeSort (fun a b c => by simpa using UInt64.le_trans)
      (fun a b => by simpa using UInt64.le_total a b) members
  exact hsorted.imp of_decide_eq_true

/-- Sorted members ascend strictly if dropping each one that equals its neighbour drops none. -/
theorem ascending_sorted_iff_destutter :
    (sorted members).Pairwise (· < ·) ↔
      ((sorted members).destutter (· ≠ ·)).length = (sorted members).length := by
  have hsublist := List.destutter_sublist (· ≠ ·) (sorted members)
  constructor
  · intro hascending
    have hchain := (hascending.imp UInt64.ne_of_lt).isChain
    rw [List.destutter_of_isChain _ _ hchain]
  · intro hlength
    have hchain := (List.destutter_eq_self_iff _ _).mp (hsublist.eq_of_length hlength)
    -- Neighbours are in order and differ, so they ascend, and by transitivity all members do.
    refine List.isChain_iff_pairwise.mp (List.isChain_iff_getElem.mpr fun i hi => ?_)
    have hle := List.pairwise_iff_getElem.mp (pairwise_sorted members) i (i + 1) (by omega) hi
      (Nat.lt_succ_self i)
    exact UInt64.lt_of_le_of_ne hle (List.isChain_iff_getElem.mp hchain i hi)

/-- Sorted members ascend strictly exactly if no member was listed twice. -/
theorem ascending_sorted_iff_nodup : (sorted members).Pairwise (· < ·) ↔ members.Nodup := by
  rw [← (sorted_perm members).nodup_iff]
  constructor
  · intro hascending
    exact hascending.imp UInt64.ne_of_lt
  · intro hnodup
    exact ((pairwise_sorted members).and hnodup).imp fun h => UInt64.lt_of_le_of_ne h.1 h.2

end Sorted

/-- A topology has the listed members in ascending order. -/
theorem members_of_ofMembers {members : List MemberId} {topology : Topology}
    (h : ofMembers members = .ok topology) : topology.members = sorted members := by
  unfold ofMembers at h
  simp only at h
  split_ifs at h
  cases h
  rfl

/-- A list makes a topology exactly if it has an odd number of different members. -/
theorem exists_ofMembers_iff (members : List MemberId) :
    (∃ topology, ofMembers members = .ok topology) ↔
      members ≠ [] ∧ members.Nodup ∧ members.length % 2 = 1 := by
  have hlength : (sorted members).length = members.length := (sorted_perm members).length_eq
  rw [← ascending_sorted_iff_nodup, ← hlength]
  unfold ofMembers
  simp only
  split_ifs with hempty hascending hodd
  · exact iff_of_false (fun ⟨_, h⟩ => nomatch h) fun h => h.1 hempty
  · exact iff_of_true ⟨_, rfl⟩ ⟨hempty, hascending, hodd⟩
  · exact iff_of_false (fun ⟨_, h⟩ => nomatch h) fun h => hodd h.2.2
  · exact iff_of_false (fun ⟨_, h⟩ => nomatch h) fun h => hascending h.2.1

section Search

variable {items : Array MemberId} {member : MemberId}

/-- The member stands between two places, these included. -/
def StandsBetween (items : Array MemberId) (member : MemberId) (low high : Nat) : Prop :=
  ∃ place, low ≤ place ∧ place ≤ high ∧ items[place]? = some member

variable (hascending : items.toList.Pairwise (· < ·))

include hascending

theorem getElem_lt_getElem {i j : Nat} (hi : i < items.size) (hj : j < items.size) (hij : i < j) :
    items[i] < items[j] :=
  List.pairwise_iff_getElem.mp hascending i j hi hj hij

/-- A member above the one in the middle stands behind it. -/
theorem lt_of_above {middle place : Nat} (hmiddle : middle < items.size)
    (habove : items[middle] < member) (hfound : items[place]? = some member) : middle < place := by
  obtain ⟨hplace, rfl⟩ := Array.getElem?_eq_some_iff.mp hfound
  by_contra hnot
  rcases Nat.lt_or_eq_of_le (Nat.le_of_not_lt hnot) with hbefore | rfl
  · exact UInt64.lt_asymm habove (getElem_lt_getElem hascending hplace hmiddle hbefore)
  · exact UInt64.lt_irrefl _ habove

/-- A member below the one in the middle stands in front of it. -/
theorem lt_of_below {middle place : Nat} (hmiddle : middle < items.size)
    (hbelow : member < items[middle]) (hfound : items[place]? = some member) : place < middle := by
  obtain ⟨hplace, rfl⟩ := Array.getElem?_eq_some_iff.mp hfound
  by_contra hnot
  rcases Nat.lt_or_eq_of_le (Nat.le_of_not_lt hnot) with hbehind | rfl
  · exact UInt64.lt_asymm hbelow (getElem_lt_getElem hascending hmiddle hplace hbehind)
  · exact UInt64.lt_irrefl _ hbelow

/-- A search between two places finds the member if it stands there. The induction is on the halves
    that are searched; the other half is ruled out by the order. -/
theorem isSome_binSearchAux_iff (low : Fin (items.size + 1)) (high : Fin items.size)
    (hle : low.1 ≤ high.1) :
    Array.binSearchAux (fun a b : MemberId => decide (a < b)) Option.isSome items member low high
        hle = true ↔ StandsBetween items member low high := by
  fun_induction Array.binSearchAux (fun a b : MemberId => decide (a < b)) Option.isSome items member
    low high hle with
  | case1 low high hle middle found habove hroom _ ih =>
    have hmiddle : middle < items.size := by omega
    rw [ih]
    constructor
    · rintro ⟨place, hlow, hhigh, hfound⟩
      have hlow : middle + 1 ≤ place := hlow
      exact ⟨place, by omega, hhigh, hfound⟩
    · rintro ⟨place, -, hhigh, hfound⟩
      exact ⟨place, lt_of_above hascending hmiddle (of_decide_eq_true habove) hfound, hhigh, hfound⟩
  | case2 low high hle middle found habove hroom _ =>
    have hmiddle : middle < items.size := by omega
    refine iff_of_false Bool.false_ne_true ?_
    rintro ⟨place, -, hhigh, hfound⟩
    have hbehind := lt_of_above hascending hmiddle (of_decide_eq_true habove) hfound
    omega
  | case3 low high hle middle found _ hbelow hroom _ =>
    have hmiddle : middle < items.size := by omega
    refine iff_of_false Bool.false_ne_true ?_
    rintro ⟨place, hlow, -, hfound⟩
    have hfront := lt_of_below hascending hmiddle (of_decide_eq_true hbelow) hfound
    omega
  | case4 low high hle middle found _ hbelow hroom _ ih =>
    have hmiddle : middle < items.size := by omega
    rw [ih]
    constructor
    · rintro ⟨place, hlow, hhigh, hfound⟩
      have hhigh : place ≤ middle - 1 := hhigh
      exact ⟨place, hlow, by omega, hfound⟩
    · rintro ⟨place, hlow, -, hfound⟩
      have hfront := lt_of_below hascending hmiddle (of_decide_eq_true hbelow) hfound
      exact ⟨place, hlow, Nat.le_sub_one_of_lt hfront, hfound⟩
  | case5 low high hle middle found hnotAbove hnotBelow _ =>
    have heq : found = member := UInt64.le_antisymm (by simpa using hnotBelow)
      (by simpa using hnotAbove)
    refine iff_of_true rfl ⟨middle, by omega, by omega, ?_⟩
    rw [← heq]
    exact Array.getElem?_eq_getElem _

end Search

variable (topology : Topology)

theorem nodup_members : topology.members.Nodup := topology.ascending.imp UInt64.ne_of_lt

theorem members_ne_nil : topology.members ≠ [] := by
  intro hempty
  have hodd := topology.odd
  rw [hempty] at hodd
  cases hodd

/-- Halving the members finds those that there are. -/
theorem binSearchContains_members (member : MemberId) :
    topology.members.toArray.binSearchContains member (fun a b => decide (a < b)) =
      topology.contains member := by
  have hpositive : 0 < topology.members.toArray.size := by
    simpa using List.length_pos_of_ne_nil topology.members_ne_nil
  rw [Bool.eq_iff_iff, contains, List.contains_iff_mem, Array.binSearchContains, dif_pos hpositive,
    dif_pos (Nat.zero_le _), isSome_binSearchAux_iff topology.ascending]
  simp only [StandsBetween, List.getElem?_toArray, List.mem_iff_getElem?]
  constructor
  · rintro ⟨place, -, -, hfound⟩
    exact ⟨place, hfound⟩
  · rintro ⟨place, hfound⟩
    obtain ⟨hplace, -⟩ := List.getElem?_eq_some_iff.mp hfound
    refine ⟨place, Nat.zero_le place, ?_, hfound⟩
    simp only [List.size_toArray, ite_self]
    omega

/-- Different members, as many as a majority. -/
structure IsMajority (selection : List MemberId) : Prop where
  nodup : selection.Nodup
  subset : selection ⊆ topology.members
  length_eq : selection.length = topology.majority

variable {topology}

/-- Two majorities have a member in common. -/
theorem majorities_meet {selection other : List MemberId} (h : topology.IsMajority selection)
    (hother : topology.IsMajority other) : ∃ member ∈ selection, member ∈ other := by
  have hcard : topology.members.toFinset.card < selection.toFinset.card + other.toFinset.card := by
    rw [List.toFinset_card_of_nodup topology.nodup_members, List.toFinset_card_of_nodup h.nodup,
      List.toFinset_card_of_nodup hother.nodup, h.length_eq, hother.length_eq, majority]
    omega
  obtain ⟨member, hmember⟩ := Finset.inter_nonempty_of_card_lt_card_add_card
    (fun _ hmem => List.mem_toFinset.mpr (h.subset (List.mem_toFinset.mp hmem)))
    (fun _ hmem => List.mem_toFinset.mpr (hother.subset (List.mem_toFinset.mp hmem))) hcard
  simp only [Finset.mem_inter, List.mem_toFinset] at hmember
  exact ⟨member, hmember.1, hmember.2⟩

/-- Of two sides, one is a majority if the other is none: their numbers differ. -/
theorem majority_le_iff {side other : List MemberId} (h : (side ++ other).Perm topology.members) :
    topology.majority ≤ side.length ↔ ¬ topology.majority ≤ other.length := by
  have hlength := h.length_eq
  have hodd := topology.odd
  rw [List.length_append] at hlength
  rw [majority]
  omega

/-- A list of members makes a topology exactly if it is not empty, repeats nobody and is of odd
    length; neighbours in the sorted list tell whether it repeats somebody. The topology has the
    members of the list in ascending order and no others, and halving finds them. Two majorities of
    it share a member, and however its members are split in two, one side has a majority and the
    other has none. -/
theorem odd_sets_are_topologies (members : List MemberId) :
    ((∃ topology, ofMembers members = .ok topology) ↔
      members ≠ [] ∧ members.Nodup ∧ members.length % 2 = 1) ∧
    (members.Nodup ↔
      ((sorted members).destutter (· ≠ ·)).length = (sorted members).length) ∧
    ∀ topology, ofMembers members = .ok topology →
      (topology.members.Pairwise (· < ·) ∧ topology.members.Perm members) ∧
      (∀ member, (topology.contains member = true ↔ member ∈ members) ∧
        topology.members.toArray.binSearchContains member (fun a b => decide (a < b)) =
          topology.contains member) ∧
      (∀ selection other, topology.IsMajority selection → topology.IsMajority other →
        ∃ member ∈ selection, member ∈ other) ∧
      ∀ side other : List MemberId, (side ++ other).Perm topology.members →
        Xor (topology.majority ≤ side.length) (topology.majority ≤ other.length) := by
  refine ⟨exists_ofMembers_iff members, ?_, fun topology hmade => ?_⟩
  · rw [← ascending_sorted_iff_nodup, ascending_sorted_iff_destutter]
  have hperm : topology.members.Perm members :=
    members_of_ofMembers hmade ▸ sorted_perm members
  refine ⟨⟨topology.ascending, hperm⟩, fun member => ⟨?_, topology.binSearchContains_members _⟩,
    fun _ _ => majorities_meet, fun side other hsplit => ?_⟩
  · rw [contains, List.contains_iff_mem, hperm.mem_iff]
  · rw [xor_iff_iff_not]
    exact majority_le_iff hsplit

/-- Three members out of order: two of them and another two share one, and when one is split off
    only the other two are a majority. -/
theorem unordered_trio_topology :
    let topology : Topology := ⟨[1, 2, 3], by decide, by decide⟩
    let members : List MemberId := [3, 1, 2]
    let pair : List MemberId := [3, 1]
    let single : List MemberId := [2]
    let other : List MemberId := [2, 3]
    ofMembers members = .ok topology ∧ topology.IsMajority pair ∧ topology.IsMajority other ∧
      (single ++ pair).Perm topology.members ∧ (topology.contains 3 = true ↔ 3 ∈ members) ∧
      (∃ member ∈ pair, member ∈ other) ∧
      Xor (topology.majority ≤ single.length) (topology.majority ≤ pair.length) := by
  intro topology members pair single other
  have hsorted : sorted members = [1, 2, 3] := by simp [sorted, List.mergeSort, members]
  have hmade : ofMembers members = .ok topology := by simp [ofMembers, hsorted, members, topology]
  have hpair : topology.IsMajority pair := ⟨by decide, by decide, by decide⟩
  have hother : topology.IsMajority other := ⟨by decide, by decide, by decide⟩
  have hsplit : (single ++ pair).Perm topology.members := by decide
  obtain ⟨-, hcontains, hmeet, hsides⟩ := (odd_sets_are_topologies members).2.2 topology hmade
  exact ⟨hmade, hpair, hother, hsplit, (hcontains 3).1, hmeet _ _ hpair hother, hsides _ _ hsplit⟩

end Quorum.Topology
