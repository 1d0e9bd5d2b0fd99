import TxPipeline.Proofs.Jobs

/-!
# Scanning a block

The scan decides about every transaction as the reference does, and leaves nothing in the ledger but
what is reserved for them. If it fails, the hashes up to the offending transaction are all that it
has written.
-/

namespace TxPipeline

variable {F : Flow} {handlers : List (Handler F)} {rules : Rules}

theorem lastReserved_cons (tx : IndexedTx) (rest : List IndexedTx) (hash : Word) :
    lastReserved handlers rules (tx :: rest) hash =
      (lastReserved handlers rules rest hash).or
        (if tx.hash = hash then some (reserved handlers rules tx) else none) := by
  simp only [lastReserved, List.reverse_cons, List.find?_append, Option.map_or]
  congr 1
  by_cases heq : tx.hash = hash
  · simp [heq]
  · simp [heq]

theorem lastReserved_append_cons {before after : List IndexedTx} {tx : IndexedTx}
    (hafter : ∀ other ∈ after, other.hash ≠ tx.hash) :
    lastReserved handlers rules (before ++ tx :: after) tx.hash =
      some (reserved handlers rules tx) := by
  have hnone : after.reverse.find? (fun other => other.hash == tx.hash) = none := by
    rw [List.find?_eq_none]
    intro other hother
    simpa using hafter other (List.mem_reverse.mp hother)
  simp [lastReserved, List.find?_append, hnone]

theorem lastReserved_eq_none_iff {txs : List IndexedTx} {hash : Word} :
    lastReserved handlers rules txs hash = none ↔ hash ∉ txs.map (·.hash) := by
  rw [lastReserved, Option.map_eq_none_iff, List.find?_eq_none]
  simp

namespace Pipeline

variable {p q : Pipeline F} {tx : IndexedTx} {txs : List IndexedTx}

section Decision

variable (hhandlers : p.stations.map (·.handler) = handlers)

include hhandlers

theorem gasAnswers_eq (tx : IndexedTx) (rules : Rules) :
    p.gasAnswers tx rules = handlers.map fun handler => handler.gas tx rules := by
  rw [← hhandlers, List.map_map]
  rfl

theorem shouldProcess_fst (tx : IndexedTx) (rules : Rules) :
    (p.shouldProcess tx rules).1 =
      (verdict handlers rules tx).map Gas.Reservation.eligible := by
  unfold shouldProcess verdict Gas.Ledger.assess
  rw [gasAnswers_eq hhandlers]
  cases Gas.gather (handlers.map fun handler => handler.gas tx rules) with
  | error fault => rfl
  | ok answers =>
      cases Gas.intrinsicOf tx.tx rules with
      | error error => rfl
      | ok intrinsic =>
          dsimp only
          split <;> rfl

/-- A decision writes under the hash of the transaction, and nowhere else. -/
theorem find?_shouldProcess (tx : IndexedTx) (rules : Rules) (hash : Word) :
    (p.shouldProcess tx rules).2.ledger.find? hash =
      if tx.hash = hash then some (reserved handlers rules tx) else p.ledger.find? hash := by
  unfold shouldProcess reserved verdict Gas.Ledger.assess
  rw [gasAnswers_eq hhandlers]
  cases Gas.gather (handlers.map fun handler => handler.gas tx rules) with
  | error fault =>
      dsimp only
      rw [Gas.Ledger.reserve, Gas.Ledger.find?_record]
  | ok answers =>
      cases Gas.intrinsicOf tx.tx rules with
      | error error =>
          dsimp only
          rw [Gas.Ledger.reserve, Gas.Ledger.find?_record]
      | ok intrinsic =>
          dsimp only
          split
          · rw [Gas.Ledger.reserve, Gas.Ledger.find?_record]
          · rw [Gas.Ledger.reserve, Gas.Ledger.find?_record, Gas.Ledger.find?_record]
            split <;> rfl

end Decision

theorem scan_snd (p : Pipeline F) (rules : Rules) (txs : List IndexedTx) :
    ∃ ledger log, (p.scan rules txs).2 = { p with ledger, log } := by
  induction txs generalizing p with
  | nil => exact ⟨p.ledger, p.log, rfl⟩
  | cons tx rest ih =>
      obtain ⟨ledger, log, hrest⟩ := ih (p.shouldProcess tx rules).2
      rw [scan]
      split
      · rename_i failure next heq
        obtain rfl : (p.shouldProcess tx rules).2 = next := congrArg Prod.snd heq
        exact ⟨_, _, rfl⟩
      · rename_i eligible next heq
        obtain rfl : (p.shouldProcess tx rules).2 = next := congrArg Prod.snd heq
        split <;> rename_i heq' <;> rw [heq'] at hrest <;> exact ⟨ledger, log, hrest⟩

theorem scan_eq_ok {decisions : List (IndexedTx × List Bool)}
    (hhandlers : p.stations.map (·.handler) = handlers)
    (hscan : p.scan rules txs = (.ok decisions, q)) :
    (∀ tx ∈ txs, ∃ r, verdict handlers rules tx = .ok r) ∧
      decisions = txs.map (fun tx => (tx, match verdict handlers rules tx with
        | .ok r => r.eligible
        | .error _ => [])) ∧
      ∀ hash, q.ledger.find? hash =
        (lastReserved handlers rules txs hash).or (p.ledger.find? hash) := by
  -- over the transactions, from any ledger: each decision writes under one hash
  induction txs generalizing p decisions with
  | nil =>
      cases hscan
      exact ⟨fun tx htx => absurd htx List.not_mem_nil, rfl, fun hash => rfl⟩
  | cons tx rest ih =>
      rw [scan] at hscan
      split at hscan
      · cases hscan
      · rename_i eligible next heq
        have hfst := shouldProcess_fst hhandlers tx rules
        have hledger := find?_shouldProcess hhandlers tx rules
        have hstations : next.stations = p.stations := by
          obtain rfl : (p.shouldProcess tx rules).2 = next := congrArg Prod.snd heq
          rfl
        rw [heq] at hfst hledger
        split at hscan
        · cases hscan
        · rename_i others last hrest
          cases hscan
          obtain ⟨haccepted, hothers, hlast⟩ := ih (hstations ▸ hhandlers) hrest
          cases hverdict : verdict handlers rules tx with
          | error failure => simp [hverdict, Except.map] at hfst
          | ok r =>
              have heligible : eligible = r.eligible := by simpa [hverdict, Except.map] using hfst
              refine ⟨?_, ?_, ?_⟩
              · intro other hother
                rcases List.mem_cons.mp hother with rfl | hother
                · exact ⟨r, hverdict⟩
                · exact haccepted other hother
              · rw [List.map_cons, hverdict, hothers, heligible]
              · intro hash
                rw [hlast, hledger, lastReserved_cons, Option.or_assoc]
                congr 1
                split <;> rfl

/-- A scan of a block writes under no other hash than those of the block. -/
theorem find?_of_scan {block : Block} {decisions : List (IndexedTx × List Bool)} {hash : Word}
    (hscan : p.scan rules block.indexed = (.ok decisions, q)) (hnot : hash ∉ block.hashes) :
    q.ledger.find? hash = p.ledger.find? hash := by
  obtain ⟨-, -, hledger⟩ := scan_eq_ok rfl hscan
  rw [Block.hashes_eq] at hnot
  rw [hledger, lastReserved_eq_none_iff.mpr hnot, Option.none_or]

theorem find?_clear_of_scan {block : Block} {decisions : List (IndexedTx × List Bool)}
    (hscan : p.scan rules block.indexed = (.ok decisions, q)) (hash : Word) :
    (q.ledger.clear block.hashes).find? hash =
      if hash ∈ block.hashes then none else p.ledger.find? hash := by
  rw [Gas.Ledger.find?_clear]
  split
  · rfl
  · rename_i hnot
    exact find?_of_scan hscan hnot

/-- A scan fails at the first transaction that is refused, and writes under no other hash than those
it has seen. -/
theorem scan_eq_error {failure : Failure} (hhandlers : p.stations.map (·.handler) = handlers)
    (hscan : p.scan rules txs = (.error (failure, tx), q)) :
    ∃ before after, txs = before ++ tx :: after ∧
      (∀ other ∈ before, ∃ r, verdict handlers rules other = .ok r) ∧
      verdict handlers rules tx = .error failure ∧
      ∀ hash, hash ∉ (before ++ [tx]).map (·.hash) → q.ledger.find? hash = p.ledger.find? hash := by
  induction txs generalizing p with
  | nil => cases hscan
  | cons first rest ih =>
      have hfst := shouldProcess_fst hhandlers first rules
      have hledger := find?_shouldProcess hhandlers first rules
      rw [scan] at hscan
      split at hscan
      · rename_i failure' next heq
        cases hscan
        rw [heq] at hfst hledger
        cases hverdict : verdict handlers rules tx with
        | ok r => simp [hverdict, Except.map] at hfst
        | error failure' =>
            refine ⟨[], rest, rfl, fun other hother => absurd hother List.not_mem_nil, ?_, ?_⟩
            · rw [hverdict] at hfst
              cases hfst
              rfl
            · intro hash hnot
              rw [hledger, if_neg]
              rintro rfl
              simp at hnot
      · rename_i eligible next heq
        have hstations : next.stations = p.stations := by
          obtain rfl : (p.shouldProcess first rules).2 = next := congrArg Prod.snd heq
          rfl
        rw [heq] at hfst hledger
        split at hscan
        · rename_i e last hrest
          cases hscan
          obtain ⟨before, after, rfl, hbefore, hverdict, hlast⟩ := ih (hstations ▸ hhandlers) hrest
          refine ⟨first :: before, after, rfl, ?_, hverdict, ?_⟩
          · intro other hother
            rcases List.mem_cons.mp hother with rfl | hother
            · cases hv : verdict handlers rules other with
              | ok r => exact ⟨r, rfl⟩
              | error failure => simp [hv, Except.map] at hfst
            · exact hbefore other hother
          · intro hash hnot
            simp only [List.cons_append, List.map_cons, List.mem_cons, not_or] at hnot
            rw [hlast hash hnot.2, hledger, if_neg (Ne.symm hnot.1)]
        · cases hscan

end Pipeline

end TxPipeline
