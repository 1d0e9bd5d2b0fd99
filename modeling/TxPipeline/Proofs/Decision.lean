import TxPipeline.Proofs.Reservation
import TxPipeline.Proofs.Results
import TxPipeline.Proofs.Scan

/-!
# The exact decision

The costs that handlers ask for are summed with a sum that stops at the largest 64-bit number, and
the decision compares that sum. It is nevertheless the decision that exact arithmetic makes: what
intrinsic gas leaves of a 64-bit limit is less than the largest 64-bit number.
-/

namespace TxPipeline

namespace Gas

theorem gather_map_ok (answers : List (Option UInt64)) :
    gather (answers.map .ok) = .ok answers := by
  induction answers with
  | nil => rfl
  | cons answer rest ih => rw [List.map_cons, gather, ih, Except.map]

/-- Whether a sum that stops at the largest number is covered, asked of the exact sum. -/
theorem lt_totalCost_iff {available : UInt64} {answers : List (Option UInt64)}
    (havailable : available.toNat < UInt64.size - 1) :
    available < totalCost answers ↔ available.toNat < exactCost answers := by
  rw [UInt64.lt_iff_toNat_lt, toNat_totalCost]
  omega

theorem reservation_of_le {available : UInt64} {answers : List (Option UInt64)}
    (havailable : available.toNat < UInt64.size - 1)
    (hcost : exactCost answers ≤ available.toNat) :
    reservation available answers = ⟨answers.map Option.isSome, .ofNat (exactCost answers)⟩ := by
  have htotal : totalCost answers = .ofNat (exactCost answers) := by
    apply UInt64.toNat.inj
    rw [toNat_totalCost, UInt64.toNat_ofNat_of_lt' (by omega)]
    omega
  unfold reservation
  dsimp only
  rw [if_neg (by rw [lt_totalCost_iff havailable]; omega), htotal]

theorem reservation_of_lt {available : UInt64} {answers : List (Option UInt64)}
    (havailable : available.toNat < UInt64.size - 1)
    (hcost : available.toNat < exactCost answers) :
    reservation available answers = ⟨List.replicate answers.length false, 0⟩ := by
  unfold reservation
  dsimp only
  rw [if_pos ((lt_totalCost_iff havailable).mpr hcost), List.map_const']

end Gas

section Verdict

variable {F : Flow} {handlers : List (Handler F)} {tx : IndexedTx} {rules : Rules}
  {answers : List (Option UInt64)}

theorem verdict_of_overflow
    (hanswers : (handlers.map fun handler => handler.gas tx rules) = answers.map .ok)
    (hover : UInt64.size ≤ Gas.exactIntrinsicOf tx.tx rules) :
    verdict handlers rules tx = .error (.error .gasOverflow) := by
  rw [verdict, hanswers, Gas.gather_map_ok]
  dsimp only
  rw [Gas.intrinsicOf, Gas.intrinsic_of_overflow hover]

theorem verdict_of_exceeding
    (hanswers : (handlers.map fun handler => handler.gas tx rules) = answers.map .ok)
    (hfits : Gas.exactIntrinsicOf tx.tx rules < UInt64.size)
    (hlimit : tx.tx.gasLimit.toNat < Gas.exactIntrinsicOf tx.tx rules) :
    verdict handlers rules tx = .error (.error (.intrinsicGasExceedsLimit tx.hash
      (.ofNat (Gas.exactIntrinsicOf tx.tx rules)) tx.tx.gasLimit)) := by
  have hgas := UInt64.toNat_ofNat_of_lt' hfits
  rw [verdict, hanswers, Gas.gather_map_ok]
  dsimp only
  rw [Gas.intrinsicOf_eq_ok_iff.mpr hgas]
  dsimp only
  rw [if_pos (by rwa [UInt64.lt_iff_toNat_lt, hgas])]

/-- A transaction whose intrinsic gas is within its limit: what remains is compared with the
costs. -/
theorem verdict_of_le
    (hanswers : (handlers.map fun handler => handler.gas tx rules) = answers.map .ok)
    (hlimit : Gas.exactIntrinsicOf tx.tx rules ≤ tx.tx.gasLimit.toNat) :
    ∃ available : UInt64,
      available.toNat = tx.tx.gasLimit.toNat - Gas.exactIntrinsicOf tx.tx rules ∧
      available.toNat < UInt64.size - 1 ∧
      verdict handlers rules tx = .ok (Gas.reservation available answers) := by
  have hsize := tx.tx.gasLimit.toNat_lt_size
  have hgas := UInt64.toNat_ofNat_of_lt' (hlimit.trans_lt hsize)
  -- intrinsic gas is not zero, so something is always taken off the limit
  have hbase : 21000 ≤ Gas.exactIntrinsicOf tx.tx rules := Gas.le_exactIntrinsic _ _ _ _
  have havailable := UInt64.toNat_sub_of_le tx.tx.gasLimit _
    (UInt64.le_iff_toNat_le.mpr (hgas.trans_le hlimit))
  rw [hgas] at havailable
  refine ⟨_, havailable, by omega, ?_⟩
  rw [verdict, hanswers, Gas.gather_map_ok]
  dsimp only
  rw [Gas.intrinsicOf_eq_ok_iff.mpr hgas]
  dsimp only
  rw [if_neg (by rw [UInt64.lt_iff_toNat_lt, hgas]; omega)]

theorem verdict_of_funded
    (hanswers : (handlers.map fun handler => handler.gas tx rules) = answers.map .ok)
    (hlimit : Gas.exactIntrinsicOf tx.tx rules ≤ tx.tx.gasLimit.toNat)
    (hcost : Gas.exactCost answers ≤
      tx.tx.gasLimit.toNat - Gas.exactIntrinsicOf tx.tx rules) :
    verdict handlers rules tx =
      .ok ⟨answers.map Option.isSome, .ofNat (Gas.exactCost answers)⟩ := by
  obtain ⟨available, hleft, havailable, hverdict⟩ := verdict_of_le hanswers hlimit
  rw [hverdict, Gas.reservation_of_le havailable (by omega)]

theorem verdict_of_unfunded
    (hanswers : (handlers.map fun handler => handler.gas tx rules) = answers.map .ok)
    (hlimit : Gas.exactIntrinsicOf tx.tx rules ≤ tx.tx.gasLimit.toNat)
    (hcost : tx.tx.gasLimit.toNat - Gas.exactIntrinsicOf tx.tx rules < Gas.exactCost answers) :
    verdict handlers rules tx = .ok ⟨List.replicate handlers.length false, 0⟩ := by
  obtain ⟨available, hleft, havailable, hverdict⟩ := verdict_of_le hanswers hlimit
  have hlength : handlers.length = answers.length := by
    simpa using congrArg List.length hanswers
  rw [hverdict, Gas.reservation_of_lt havailable (by omega), hlength]

end Verdict

namespace Pipeline

variable {F : Flow}

/-- What a decision without an error answers, and what it reserves. -/
theorem shouldProcess_of_verdict_ok {p : Pipeline F} {tx : IndexedTx} {rules : Rules}
    {r : Gas.Reservation} (hverdict : verdict (p.stations.map (·.handler)) rules tx = .ok r) :
    (p.shouldProcess tx rules).1 = .ok r.eligible ∧
      (p.shouldProcess tx rules).2.ledger.find? tx.hash = some r.total := by
  constructor
  · rw [shouldProcess_fst rfl, hverdict, Except.map]
  · rw [find?_shouldProcess rfl, if_pos rfl, reserved, hverdict]

theorem shouldProcess_of_verdict_error {p : Pipeline F} {tx : IndexedTx} {rules : Rules}
    {failure : Failure}
    (hverdict : verdict (p.stations.map (·.handler)) rules tx = .error failure) :
    (p.shouldProcess tx rules).1 = .error failure ∧
      (p.shouldProcess tx rules).2.ledger.find? tx.hash = some 0 := by
  constructor
  · rw [shouldProcess_fst rfl, hverdict, Except.map]
  · rw [find?_shouldProcess rfl, if_pos rfl, reserved, hverdict]

/-- Whatever the handlers answer, the decision about a transaction is the one that exact arithmetic
makes from the intrinsic gas and the sum of their costs, and it is written under one hash. -/
theorem shouldProcess_exact (p : Pipeline F) (tx : IndexedTx) (rules : Rules)
    (answers : List (Option UInt64)) (hanswers : p.gasAnswers tx rules = answers.map .ok) :
    -- intrinsic gas leaves 64 bits
    (2 ^ 64 ≤ Gas.exactIntrinsicOf tx.tx rules →
      (p.shouldProcess tx rules).1 = .error (.error .gasOverflow) ∧
      (p.shouldProcess tx rules).2.ledger.find? tx.hash = some 0) ∧
    -- the transaction cannot pay its intrinsic gas
    (Gas.exactIntrinsicOf tx.tx rules < 2 ^ 64 →
      tx.tx.gasLimit.toNat < Gas.exactIntrinsicOf tx.tx rules →
      (p.shouldProcess tx rules).1 = .error (.error (.intrinsicGasExceedsLimit tx.hash
        (.ofNat (Gas.exactIntrinsicOf tx.tx rules)) tx.tx.gasLimit)) ∧
      (p.shouldProcess tx rules).2.ledger.find? tx.hash = some 0) ∧
    -- what intrinsic gas leaves pays for all handlers that want the transaction
    (Gas.exactIntrinsicOf tx.tx rules ≤ tx.tx.gasLimit.toNat →
      Gas.exactCost answers ≤ tx.tx.gasLimit.toNat - Gas.exactIntrinsicOf tx.tx rules →
      (p.shouldProcess tx rules).1 = .ok (answers.map Option.isSome) ∧
      ((p.shouldProcess tx rules).2.ledger.find? tx.hash).map UInt64.toNat =
        some (Gas.exactCost answers)) ∧
    -- what intrinsic gas leaves does not
    (Gas.exactIntrinsicOf tx.tx rules ≤ tx.tx.gasLimit.toNat →
      tx.tx.gasLimit.toNat - Gas.exactIntrinsicOf tx.tx rules < Gas.exactCost answers →
      (p.shouldProcess tx rules).1 = .ok (List.replicate p.stations.length false) ∧
      (p.shouldProcess tx rules).2.ledger.find? tx.hash = some 0) ∧
    ∀ hash, hash ≠ tx.hash →
      (p.shouldProcess tx rules).2.ledger.find? hash = p.ledger.find? hash := by
  have hgas : ((p.stations.map (·.handler)).map fun handler => handler.gas tx rules) =
      answers.map .ok := by
    rw [← gasAnswers_eq rfl]
    exact hanswers
  refine ⟨?_, ?_, ?_, ?_, ?_⟩
  · intro hover
    exact shouldProcess_of_verdict_error (verdict_of_overflow hgas hover)
  · intro hfits hlimit
    exact shouldProcess_of_verdict_error (verdict_of_exceeding hgas hfits hlimit)
  · intro hlimit hcost
    obtain ⟨houtcome, hentry⟩ := shouldProcess_of_verdict_ok (verdict_of_funded hgas hlimit hcost)
    have hsize := tx.tx.gasLimit.toNat_lt_size
    refine ⟨houtcome, ?_⟩
    rw [hentry, Option.map_some, UInt64.toNat_ofNat_of_lt' (by omega)]
  · intro hlimit hcost
    have hunfunded := verdict_of_unfunded hgas hlimit hcost
    rw [List.length_map] at hunfunded
    exact shouldProcess_of_verdict_ok hunfunded
  · intro hash hne
    rw [find?_shouldProcess rfl, if_neg hne.symm]

open Sample in
/-- Two handlers that each ask for the largest 64-bit number, of a transaction that has it. -/
theorem shouldProcess_exact_greedy :
    let greedy : Handler flow := { adder with gas := fun _ _ => .ok (some (.ofNat (2 ^ 64 - 1))) }
    let tx : IndexedTx := ⟨0, { transaction 1 with gasLimit := .ofNat (2 ^ 64 - 1) }⟩
    let p := (ofConfig oneEach ⟨[greedy, adder, greedy]⟩)
    (p.shouldProcess tx .latest).1 = .ok [false, false, false] ∧
      (p.shouldProcess tx .latest).2.ledger.find? tx.hash = some 0 := by
  intro greedy tx p
  have hanswers : p.gasAnswers tx .latest =
      [some (.ofNat (2 ^ 64 - 1)), some 7, some (.ofNat (2 ^ 64 - 1))].map .ok := rfl
  obtain ⟨-, -, -, hunfunded, -⟩ := shouldProcess_exact p tx .latest _ hanswers
  exact hunfunded (by decide +kernel) (by decide +kernel)

end Pipeline

end TxPipeline
