import Mathlib.Algebra.BigOperators.Group.List.Basic
import TxPipeline.Proofs.Intrinsic
import TxPipeline.Proofs.Jobs

/-!
# What is reserved

The sum of costs stops at the largest 64-bit number, but a transaction always pays intrinsic gas
first, so a sum that the rest of its gas covers has not been stopped. What is reserved is
therefore exact.
-/

namespace TxPipeline

namespace Gas

theorem txGas_le_intrinsicOf {tx : Transaction} {rules : Rules} {gas : UInt64}
    (h : intrinsicOf tx rules = .ok gas) : txGas.toNat ≤ gas.toNat := by
  rw [intrinsicOf_eq_ok_iff.mp h]
  exact le_exactIntrinsic _ _ _ _

/-- The sum of costs as a natural number. -/
def exactCost (answers : List (Option UInt64)) : Nat :=
  (answers.map fun answer => (answer.getD 0).toNat).sum

theorem toNat_foldl_addSaturating (answers : List (Option UInt64)) (start : UInt64) :
    (answers.foldl (fun total answer => addSaturating total (answer.getD 0)) start).toNat =
      min (start.toNat + exactCost answers) (UInt64.size - 1) := by
  induction answers generalizing start with
  | nil =>
      have hlt := start.toNat_lt_size
      simp only [List.foldl_nil, exactCost, List.map_nil, List.sum_nil]
      omega
  | cons answer rest ih =>
      rw [List.foldl_cons, ih, toNat_addSaturating]
      simp only [exactCost, List.map_cons, List.sum_cons]
      omega

theorem toNat_totalCost (answers : List (Option UInt64)) :
    (totalCost answers).toNat = min (exactCost answers) (UInt64.size - 1) := by
  rw [totalCost, toNat_foldl_addSaturating]
  simp

end Gas

/-- What a handler asks for a transaction; nothing if it does not want it. -/
def Handler.cost {F : Flow} (handler : Handler F) (tx : IndexedTx) (rules : Rules) : Nat :=
  match handler.gas tx rules with
  | .ok (some cost) => cost.toNat
  | _ => 0

/-- What the marked handlers ask for a transaction. -/
def costOf {F : Flow} (handlers : List (Handler F)) (marks : List Bool) (tx : IndexedTx)
    (rules : Rules) : Nat :=
  ((handlers.zip marks).map fun (handler, marked) =>
    if marked then handler.cost tx rules else 0).sum

section

variable {F : Flow} {handlers : List (Handler F)} {tx : IndexedTx} {rules : Rules}

theorem costOf_declined {answers : List (Option UInt64)} :
    costOf handlers (answers.map fun _ => false) tx rules = 0 := by
  apply List.sum_eq_zero
  intro cost hcost
  obtain ⟨⟨handler, marked⟩, hmem, rfl⟩ := List.mem_map.mp hcost
  obtain ⟨_, _, rfl⟩ := List.mem_map.mp (List.of_mem_zip hmem).2
  rfl

theorem costOf_wanted {answers : List (Option UInt64)}
    (h : Gas.gather (handlers.map fun handler => handler.gas tx rules) = .ok answers) :
    costOf handlers (answers.map Option.isSome) tx rules = Gas.exactCost answers := by
  induction handlers generalizing answers with
  | nil =>
      cases h
      rfl
  | cons handler rest ih =>
      rw [List.map_cons] at h
      cases hgas : handler.gas tx rules with
      | error fault =>
          rw [hgas] at h
          cases h
      | ok answer =>
          cases hrest : Gas.gather (rest.map fun handler => handler.gas tx rules) with
          | error fault => simp [hgas, Gas.gather, hrest, Except.map] at h
          | ok others =>
              obtain rfl : answer :: others = answers := by
                simpa [hgas, Gas.gather, hrest, Except.map] using h
              have hih := ih hrest
              unfold costOf Gas.exactCost at hih ⊢
              rw [List.map_cons, List.zip_cons_cons, List.map_cons, List.sum_cons, hih,
                List.map_cons, List.sum_cons]
              cases answer <;> simp [Handler.cost, hgas]

/-- The total that is reserved is what the marked handlers ask for, and the transaction can pay
it. -/
theorem toNat_total_of_verdict {r : Gas.Reservation} (h : verdict handlers rules tx = .ok r) :
    ∃ intrinsic, Gas.intrinsicOf tx.tx rules = .ok intrinsic ∧
      intrinsic.toNat ≤ tx.tx.gasLimit.toNat ∧
      r.total.toNat ≤ tx.tx.gasLimit.toNat - intrinsic.toNat ∧
      r.total.toNat = costOf handlers r.eligible tx rules := by
  unfold verdict at h
  split at h
  · cases h
  rename_i answers hanswers
  split at h
  · cases h
  rename_i intrinsic hintrinsic
  split at h
  · cases h
  rename_i hlimit
  cases h
  have hle : intrinsic.toNat ≤ tx.tx.gasLimit.toNat := by
    simpa [UInt64.lt_iff_toNat_lt] using hlimit
  have hsub : (tx.tx.gasLimit - intrinsic).toNat = tx.tx.gasLimit.toNat - intrinsic.toNat :=
    UInt64.toNat_sub_of_le _ _ (UInt64.le_iff_toNat_le.mpr hle)
  refine ⟨intrinsic, hintrinsic, hle, ?_⟩
  unfold Gas.reservation
  dsimp only
  split
  · exact ⟨Nat.zero_le _, costOf_declined.symm⟩
  · rename_i hcovered
    have htotal : (Gas.totalCost answers).toNat ≤ tx.tx.gasLimit.toNat - intrinsic.toNat := by
      rw [← hsub]
      simpa [UInt64.lt_iff_toNat_lt] using hcovered
    refine ⟨htotal, ?_⟩
    -- intrinsic gas is not zero, so that a total that is covered was not cut off
    have hbase := Gas.txGas_le_intrinsicOf hintrinsic
    have hbound : Gas.txGas.toNat = 21000 := rfl
    have hlt := tx.tx.gasLimit.toNat_lt_size
    rw [costOf_wanted hanswers]
    rw [Gas.toNat_totalCost] at htotal ⊢
    omega

end

end TxPipeline
