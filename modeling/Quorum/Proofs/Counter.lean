import Mathlib.Data.List.Nodup
import Mathlib.Data.List.Range

namespace Quorum.Counter

/-- The ids that a counter hands out first. -/
def ids (count : Nat) : List UInt64 := (List.range count).map fun k => .ofNat (k + 1)

/-- The ids that a counter hands out from one on. -/
def idsFrom (first : UInt64) (count : Nat) : List UInt64 :=
  (List.range count).map fun k => first + .ofNat k

theorem idsFrom_succ (first : UInt64) (count : Nat) :
    idsFrom first (count + 1) = first :: idsFrom (first + 1) count := by
  have hlater (k : Nat) : first + .ofNat (k + 1) = first + 1 + .ofNat k := by
    rw [UInt64.ofNat_add, UInt64.add_assoc, UInt64.add_comm (.ofNat k)]
    rfl
  rw [idsFrom, List.range_succ_eq_map, List.map_cons, List.map_map, idsFrom]
  congr 1
  · exact UInt64.add_zero first
  · exact List.map_congr_left fun k _ => hlater k

/-- The first ids are followed by those from the next one on. -/
theorem ids_add (count more : Nat) :
    ids (count + more) = ids count ++ idsFrom (.ofNat (count + 1)) more := by
  have hlater (k : Nat) : UInt64.ofNat (count + k + 1) = .ofNat (count + 1) + .ofNat k := by
    rw [← UInt64.ofNat_add, Nat.add_right_comm]
  rw [ids, List.range_add, List.map_append, List.map_map, idsFrom]
  congr 1
  exact List.map_congr_left fun k _ => hlater k

/-- Ids are distinct as long as their number fits the counter. -/
theorem nodup_ids {count : Nat} (h : count < UInt64.size) : (ids count).Nodup := by
  refine List.Nodup.map_on ?_ List.nodup_range
  intro k hk l hl heq
  rw [List.mem_range] at hk hl
  have hvalues := congrArg UInt64.toNat heq
  rw [UInt64.toNat_ofNat_of_lt' (by omega), UInt64.toNat_ofNat_of_lt' (by omega)] at hvalues
  omega

end Quorum.Counter
