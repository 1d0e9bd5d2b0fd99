import Mathlib.Algebra.BigOperators.Group.List.Basic
import Mathlib.Algebra.Order.Floor.Div
import Mathlib.Tactic.Ring
import TxPipeline.Gas.Intrinsic

/-!
# The exact intrinsic gas

Each checked step either adds what its name says or reports that the sum has left 64 bits. Since
nothing is ever subtracted, a sum that has left 64 bits does not come back, so the whole
accumulation is one check of one sum of natural numbers.
-/

namespace TxPipeline.Gas

theorem ofCount?_eq_none {n : Nat} (h : UInt64.size ≤ n) : ofCount? n = none :=
  if_neg h.not_gt

theorem ofCount?_eq_some_iff {n : Nat} {c : UInt64} : ofCount? n = some c ↔ c.toNat = n := by
  constructor
  · exact toNat_of_ofCount?
  · rintro rfl
    rw [ofCount?, if_pos c.toNat_lt_size, UInt64.ofNat_toNat]

/-- A check that fails is followed by no sum that fits, so a function of the checked number that
fails on every larger one may be given the number itself. -/
theorem bind_ofCount? {α : Type} {n : Nat} {f : UInt64 → Option α} {g : Nat → Option α}
    (hfits : n < UInt64.size → f (.ofNat n) = g n) (hover : UInt64.size ≤ n → g n = none) :
    (ofCount? n).bind f = g n := by
  rcases lt_or_ge n UInt64.size with h | h
  · rw [ofCount?, if_pos h, Option.bind_some, hfits h]
  · rw [ofCount?_eq_none h, Option.bind_none, hover h]

theorem charge?_eq_ofCount? (gas unit : UInt64) (count : Nat) (hunit : 0 < unit.toNat) :
    charge? gas count unit = ofCount? (gas.toNat + count * unit.toNat) := by
  have hcount : count ≤ count * unit.toNat := Nat.le_mul_of_pos_right count hunit
  refine bind_ofCount? (g := fun n => ofCount? (gas.toNat + n * unit.toNat)) ?_ ?_
  · intro hlt
    rw [mul?_eq_ofCount?, UInt64.toNat_ofNat_of_lt' hlt]
    refine bind_ofCount? (g := fun n => ofCount? (gas.toNat + n)) ?_ ?_
    · intro hcost
      rw [add?_eq_ofCount?, UInt64.toNat_ofNat_of_lt' hcost]
    · intro hcost
      exact ofCount?_eq_none (by omega)
  · intro hle
    exact ofCount?_eq_none (by omega)

/-- Charging what is left of a check: the two checks are one check of the sum. -/
theorem bind_charge? (n count : Nat) (unit : UInt64) (hunit : 0 < unit.toNat) :
    ((ofCount? n).bind fun gas => charge? gas count unit) =
      ofCount? (n + count * unit.toNat) := by
  refine bind_ofCount? (g := fun n => ofCount? (n + count * unit.toNat)) ?_ ?_
  · intro hlt
    rw [charge?_eq_ofCount? _ _ _ hunit, UInt64.toNat_ofNat_of_lt' hlt]
  · intro hle
    exact ofCount?_eq_none (by omega)

/-- The intrinsic gas of a transaction as a natural number. -/
def exactIntrinsic (data : Bytes) (accessList : List AccessItem) (create : Bool) (rules : Rules) :
    Nat :=
  (if create ∧ rules.homestead then 53000 else 21000) +
    4 * data.count 0 + (if rules.istanbul then 16 else 68) * data.countP (· ≠ 0) +
    (if create ∧ rules.shanghai then 2 * (data.length ⌈/⌉ 32) else 0) +
    2400 * accessList.length + 1900 * (accessList.map (·.keys.length)).sum

/-- The bytes that are not counted as non-zero are the zeros. -/
theorem length_sub_nonZeroBytes (data : Bytes) :
    data.length - nonZeroBytes data = data.count 0 := by
  have hall : data.length = data.count 0 + nonZeroBytes data := by
    rw [nonZeroBytes, List.count, List.length_eq_countP_add_countP (· == 0)]
    simp
  omega

theorem storageKeys_eq_sum (accessList : List AccessItem) :
    storageKeys accessList = (accessList.map (·.keys.length)).sum := by
  rw [storageKeys, List.length_flatMap]

/-- As long as 64 bits hold all storage keys, they can be counted in 64-bit steps. -/
theorem toNat_foldl_keys {accessList : List AccessItem} {n : UInt64}
    (h : n.toNat + storageKeys accessList < 2 ^ 64) :
    (accessList.foldl (fun keys item => keys + .ofNat item.keys.length) n).toNat =
      n.toNat + storageKeys accessList := by
  rw [storageKeys_eq_sum] at h ⊢
  induction accessList generalizing n with
  | nil => rfl
  | cons item rest ih =>
      rw [List.map_cons, List.sum_cons] at h ⊢
      have hitem : (n + .ofNat item.keys.length).toNat = n.toNat + item.keys.length := by
        rw [UInt64.toNat_add, UInt64.toNat_ofNat_of_lt' (show _ < 2 ^ 64 by omega)]
        exact Nat.mod_eq_of_lt (by omega)
      rw [List.foldl_cons, ih (by omega), hitem, Nat.add_assoc]

theorem wordsOf_eq_ceilDiv (n : Nat) : wordsOf n = n ⌈/⌉ 32 := by
  rw [wordsOf, Nat.ceilDiv_eq_add_pred_div]
  rfl

theorem toNat_baseGas (create : Bool) (rules : Rules) :
    (baseGas create rules).toNat = if create ∧ rules.homestead then 53000 else 21000 := by
  unfold baseGas
  simp only [Bool.and_eq_true]
  split <;> rfl

theorem toNat_nonZeroByteGas (rules : Rules) :
    (nonZeroByteGas rules).toNat = if rules.istanbul then 16 else 68 := by
  unfold nonZeroByteGas
  split <;> rfl

/-- The price of init code, charged on what is left of a check before anything else is. -/
theorem bind_initCode {α : Type} (n size : Nat) (create : Bool) (rules : Rules)
    (rest : UInt64 → Option α) :
    ((ofCount? n).bind fun gas =>
      if create && rules.shanghai then (charge? gas (wordsOf size) initWordGas).bind rest
      else (some gas).bind rest) =
      (ofCount? (n + if create ∧ rules.shanghai then 2 * (size ⌈/⌉ 32) else 0)).bind rest := by
  simp only [Bool.and_eq_true]
  split
  · rw [← Option.bind_assoc, bind_charge? _ _ _ (by decide), wordsOf_eq_ceilDiv, Nat.mul_comm]
    rfl
  · rfl

theorem intrinsic?_eq_ofCount? (data : Bytes) (accessList : List AccessItem) (create : Bool)
    (rules : Rules) :
    intrinsic? data accessList create rules =
      ofCount? (exactIntrinsic data accessList create rules) := by
  have hunit : 0 < (nonZeroByteGas rules).toNat := by
    rw [toNat_nonZeroByteGas]
    split <;> decide
  unfold intrinsic?
  dsimp only [Option.bind_eq_bind]
  -- each step charges what is left of the check before it
  rw [charge?_eq_ofCount? _ _ _ hunit, ← Option.bind_assoc, bind_charge? _ _ _ (by decide),
    bind_initCode, ← Option.bind_assoc, bind_charge? _ _ _ (by decide),
    bind_charge? _ _ _ (by decide), length_sub_nonZeroBytes, toNat_baseGas, toNat_nonZeroByteGas,
    storageKeys_eq_sum]
  have hzero : zeroByteGas.toNat = 4 := rfl
  have hitem : accessItemGas.toNat = 2400 := rfl
  have hkey : accessKeyGas.toNat = 1900 := rfl
  rw [exactIntrinsic, hzero, hitem, hkey]
  congr 1
  unfold nonZeroBytes
  ring

theorem intrinsic_eq_ok_iff {data : Bytes} {accessList : List AccessItem} {create : Bool}
    {rules : Rules} {gas : UInt64} :
    intrinsic data accessList create rules = .ok gas ↔
      gas.toNat = exactIntrinsic data accessList create rules := by
  rw [← ofCount?_eq_some_iff, ← intrinsic?_eq_ofCount?]
  unfold intrinsic
  split <;> simp_all

theorem intrinsic_of_overflow {data : Bytes} {accessList : List AccessItem} {create : Bool}
    {rules : Rules} (h : UInt64.size ≤ exactIntrinsic data accessList create rules) :
    intrinsic data accessList create rules = .error .gasOverflow := by
  rw [intrinsic, intrinsic?_eq_ofCount?, ofCount?_eq_none h]

/-- Whatever else it is charged for, a transaction pays the base cost. -/
theorem le_exactIntrinsic (data : Bytes) (accessList : List AccessItem) (create : Bool)
    (rules : Rules) : 21000 ≤ exactIntrinsic data accessList create rules := by
  unfold exactIntrinsic
  split <;> omega

def exactIntrinsicOf (tx : Transaction) (rules : Rules) : Nat :=
  exactIntrinsic tx.input tx.accessList tx.isCreate rules

theorem intrinsicOf_eq_ok_iff {tx : Transaction} {rules : Rules} {gas : UInt64} :
    intrinsicOf tx rules = .ok gas ↔ gas.toNat = exactIntrinsicOf tx rules :=
  intrinsic_eq_ok_iff

/-- Intrinsic gas is the sum of its parts if 64 bits hold it, and the overflow error otherwise: no
step wraps, and none fails that the whole sum would have passed. The storage keys are counted as
they are, also in 64-bit steps, if 64 bits hold their number. -/
theorem intrinsic_exact (data : Bytes) (accessList : List AccessItem) (create : Bool)
    (rules : Rules) (hkeys : storageKeys accessList < 2 ^ 64) :
    (accessList.foldl (fun keys item => keys + .ofNat item.keys.length) (0 : UInt64)).toNat =
      storageKeys accessList ∧
    (exactIntrinsic data accessList create rules < 2 ^ 64 →
      ∃ gas, intrinsic data accessList create rules = .ok gas ∧
        gas.toNat = exactIntrinsic data accessList create rules) ∧
    (2 ^ 64 ≤ exactIntrinsic data accessList create rules →
      intrinsic data accessList create rules = .error .gasOverflow) ∧
    ∀ gas, intrinsic data accessList create rules = .ok gas → 21000 ≤ gas.toNat := by
  refine ⟨?_, ?_, intrinsic_of_overflow, ?_⟩
  · have hsum : (0 : UInt64).toNat + storageKeys accessList < 2 ^ 64 := by simpa using hkeys
    simpa using toNat_foldl_keys hsum
  · intro hlt
    have hgas := UInt64.toNat_ofNat_of_lt' hlt
    exact ⟨_, intrinsic_eq_ok_iff.mpr hgas, hgas⟩
  · intro gas hgas
    rw [intrinsic_eq_ok_iff.mp hgas]
    exact le_exactIntrinsic data accessList create rules

/-- A creation with one zero byte, one other byte, and one item with two keys. -/
theorem intrinsic_exact_creation :
    intrinsic [0, 1] [⟨0, [Word.ofNat 1, Word.ofNat 2]⟩] true .latest = .ok 59222 := by
  obtain ⟨-, hfits, -, -⟩ := intrinsic_exact [0, 1] [⟨0, [Word.ofNat 1, Word.ofNat 2]⟩] true .latest
    (by decide)
  obtain ⟨gas, hgas, hexact⟩ := hfits (by decide)
  obtain rfl : gas = 59222 := UInt64.toNat_inj.mp (hexact.trans rfl)
  exact hgas

end TxPipeline.Gas
