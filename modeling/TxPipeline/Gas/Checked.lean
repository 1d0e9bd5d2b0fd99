/-!
# Checked 64-bit arithmetic

Sums and products that report when they leave 64 bits, and a sum that stops at the largest value.
-/

namespace TxPipeline.Gas

/-- The count as a 64-bit number, if it is one. -/
def ofCount? (n : Nat) : Option UInt64 :=
  if n < UInt64.size then some (UInt64.ofNat n) else none

def add? (a b : UInt64) : Option UInt64 :=
  if a.toNat + b.toNat < UInt64.size then some (a + b) else none

def mul? (a b : UInt64) : Option UInt64 :=
  if a.toNat * b.toNat < UInt64.size then some (a * b) else none

/-- The sum, or the largest 64-bit number if that is less. -/
def addSaturating (a b : UInt64) : UInt64 :=
  if a.toNat + b.toNat < UInt64.size then a + b else UInt64.ofNat (UInt64.size - 1)

theorem toNat_of_ofCount? {n : Nat} {c : UInt64} (h : ofCount? n = some c) : c.toNat = n := by
  unfold ofCount? at h
  split at h
  · cases h
    exact UInt64.toNat_ofNat_of_lt' ‹_›
  · cases h

theorem add?_eq_ofCount? (a b : UInt64) : add? a b = ofCount? (a.toNat + b.toNat) := by
  unfold add? ofCount?
  split
  · rw [UInt64.ofNat_add, UInt64.ofNat_toNat, UInt64.ofNat_toNat]
  · rfl

theorem mul?_eq_ofCount? (a b : UInt64) : mul? a b = ofCount? (a.toNat * b.toNat) := by
  unfold mul? ofCount?
  split
  · rw [UInt64.ofNat_mul, UInt64.ofNat_toNat, UInt64.ofNat_toNat]
  · rfl

theorem toNat_addSaturating (a b : UInt64) :
    (addSaturating a b).toNat = min (a.toNat + b.toNat) (UInt64.size - 1) := by
  unfold addSaturating
  split
  · rename_i h
    rw [UInt64.toNat_add, Nat.mod_eq_of_lt h]
    omega
  · rename_i h
    rw [UInt64.toNat_ofNat_of_lt' (by decide)]
    omega

end TxPipeline.Gas
