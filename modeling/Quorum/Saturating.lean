namespace Quorum

/-- The sum of two numbers; the last number of the range if the sum lies beyond it. -/
def saturatingAdd (a b : UInt64) : UInt64 :=
  if a.toNat + b.toNat < UInt64.size then a + b else UInt64.ofNat (UInt64.size - 1)

/-- As a number, the sum is the exact one or the last number of the range, whichever is less. -/
theorem toNat_saturatingAdd (a b : UInt64) :
    (saturatingAdd a b).toNat = min (a.toNat + b.toNat) (UInt64.size - 1) := by
  unfold saturatingAdd
  split
  · rename_i h
    rw [UInt64.toNat_add]
    simp only [UInt64.size] at h ⊢
    omega
  · rename_i h
    simp only [UInt64.size] at h ⊢
    rw [Nat.min_eq_right (by omega)]
    rfl

end Quorum
