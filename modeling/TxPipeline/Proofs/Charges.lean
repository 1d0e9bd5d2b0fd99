import TxPipeline.Proofs.Reservation
import TxPipeline.Proofs.Results

/-!
# Charges over whole runs

The ledger is written while a block is scanned, and emptied when the scan fails, when a thread of
the block is denied and when the block is finished. Between calls it holds what is reserved for the
started block, and nothing else.
-/

namespace TxPipeline.Pipeline

variable {F : Flow} {calm : Prop} {handlers : List (Handler F)} {past : List (Work F)}
  {work : Work F} {phase : Phase F} {p q : Pipeline F} {c : Nat} {config : Config}
  {registry : Registry F} {moves : List (Move F)}

/-- The ledger knows the transactions of a block, and charges under a hash what the last of them
is to pay: the sum of what the handlers ask that work on it. -/
structure Charges (handlers : List (Handler F)) (work : Work F) (p : Pipeline F) : Prop where
  known : ∀ hash, (p.ledger.find? hash).isSome ↔ hash ∈ work.block.hashes
  unknown : ∀ hash, hash ∉ work.block.hashes →
    p.charge hash = .error (.unknownTransaction hash)
  reserved : ∀ before tx after, work.block.indexed = before ++ tx :: after →
    (∀ other ∈ after, other.hash ≠ tx.hash) →
    ∃ intrinsic eligible total, Gas.intrinsicOf tx.tx work.rules = .ok intrinsic ∧
      (p.shouldProcess tx work.rules).1 = .ok eligible ∧
      (∀ h, ⟨h, tx⟩ ∈ work.jobs handlers ↔ eligible[h]? = some true) ∧
      p.charge tx.hash = .ok total ∧ total.toNat = costOf handlers eligible tx work.rules ∧
      intrinsic.toNat ≤ tx.tx.gasLimit.toNat ∧
      total.toNat ≤ tx.tx.gasLimit.toNat - intrinsic.toNat

theorem charge_eq_error {hash : Word} (h : p.ledger.find? hash = none) :
    p.charge hash = .error (.unknownTransaction hash) := by
  rw [charge, Gas.Ledger.charge, h]

theorem isEmpty_of_find? {ledger : Gas.Ledger} (h : ∀ hash, ledger.find? hash = none) :
    ledger.isEmpty = true := by
  rw [Gas.Ledger.isEmpty, Std.TreeMap.isEmpty_iff_forall_contains]
  intro hash
  rw [Std.TreeMap.contains_eq_isSome_getElem?]
  have hnone := h hash
  rw [Gas.Ledger.find?] at hnone
  rw [hnone, Option.isSome_none]

theorem During.charges (hp : p.During True handlers past work phase) : p.Charges handlers work := by
  have hledger := hp.ledger trivial
  have hnone {hash : Word} : p.ledger.find? hash = none ↔ hash ∉ work.block.hashes := by
    rw [hledger, Work.charge, lastReserved_eq_none_iff, Block.hashes_eq]
  refine ⟨fun hash => ?_, fun hash hnot => charge_eq_error (hnone.mpr hnot), ?_⟩
  · rw [← Option.ne_none_iff_isSome, Ne, hnone, not_not]
  intro before tx after hsplit hafter
  have ht : tx ∈ work.block.indexed := by simp [hsplit]
  obtain ⟨r, hverdict⟩ := hp.accepted tx ht
  obtain ⟨intrinsic, hintrinsic, hle, htotal, hcost⟩ := toNat_total_of_verdict hverdict
  have hmarks : work.marks handlers tx = r.eligible := by rw [Work.marks, hverdict]
  refine ⟨intrinsic, r.eligible, r.total, hintrinsic, ?_, ?_, ?_, hcost, hle, htotal⟩
  · rw [hp.shouldProcess_eq ht, hmarks]
  · intro h
    rw [Work.mem_jobs, hmarks]
    exact and_iff_right ht
  · rw [charge, Gas.Ledger.charge_eq_ok_iff, hledger, Work.charge, hsplit,
      lastReserved_append_cons hafter, TxPipeline.reserved, hverdict]

/-- Between calls, the ledger is empty if no block is started. If one is, the ledger holds what is
reserved for it: under the hash of a transaction the exact sum of what the handlers ask that work on
it, which its gas limit covers on top of intrinsic gas. -/
theorem charges_over_runs (hcreate : create config registry = .ok p)
    (hrun : p.cleanRun? moves = some q) :
    (q.isQuiet = true → q.active = none → q.ledger.isEmpty = true ∧
      ∀ hash, q.charge hash = .error (.unknownTransaction hash)) ∧
    (q.isQuiet = true → ∀ active, q.active = some active → ∃ (c : Nat) (work : Work F),
      (tasks moves)[c]? = some work.task ∧ q.calls[c]? = some (.returned (.started (.ok ()))) ∧
      active.number = work.block.number ∧ q.Charges registry.handlers work) ∧
    ∀ (c : Nat) (work : Work F), (tasks moves)[c]? = some work.task → q.InWork c →
      q.Charges registry.handlers work ∧ ∀ {more : List (Move F)} {r : Pipeline F},
        q.cleanRun? more = some r → r.InWork c → ∀ hash, r.charge hash = q.charge hash := by
  -- a quiet pipeline is between two blocks, or has one that is started
  refine ⟨?_, ?_, ?_⟩
  · intro hquiet hnone
    cases Chronicle.of_cleanRun? hcreate hrun with
    | between past hq _ =>
        have hledger := hq.ledger trivial
        exact ⟨isEmpty_of_find? hledger, fun hash => charge_eq_error (hledger hash)⟩
    | starting past work c next hq _ _ => exact absurd hquiet hq.not_quiet
    | started past work phase c hq hphase _ _ _ =>
        obtain rfl := hq.eq_started hphase hquiet
        have hcalls : q.Waits _ := hq.calls
        rw [hcalls.active_eq] at hnone
        cases hnone
  · intro hquiet active hactive
    cases Chronicle.of_cleanRun? hcreate hrun with
    | between past hq _ =>
        rcases hq.calls with hwaits | ⟨c, work, next, henters⟩
        · rw [hwaits.active_eq] at hactive
          cases hactive
        · rw [henters.active_eq] at hactive
          cases hactive
    | starting past work c next hq _ _ => exact absurd hquiet hq.not_quiet
    | started past work phase c hq hphase htask hstarted _ =>
        obtain rfl := hq.eq_started hphase hquiet
        have hcalls : q.Waits _ := hq.calls
        rw [hcalls.active_eq] at hactive
        cases hactive
        exact ⟨c, work, htask, hstarted.returned, rfl, hq.charges⟩
  · intro c work htask hwork
    obtain ⟨past, phase, hq, -⟩ := exists_phase work hcreate hrun htask hwork
    refine ⟨hq.charges, ?_⟩
    intro more r hmore hwork' hash
    have hrun' : p.cleanRun? (moves ++ more) = some r := by
      rw [cleanRun?_append, hrun, ← hmore]
      rfl
    obtain ⟨past', phase', hr, -⟩ :=
      exists_phase work hcreate hrun' (getElem?_tasks_append htask more) hwork'
    rw [charge, charge, Gas.Ledger.charge, Gas.Ledger.charge, hr.ledger trivial, hq.ledger trivial]

open Sample in
theorem charges_over_started : ∃ q r, (ofConfig oneEach adders).cleanRun? started = some q ∧
    q.InWork 0 ∧ (q.charge (Word.ofNat 1)).toOption = some 7 ∧
    q.Charges adders.handlers ⟨(3 : Nat), .latest, pair⟩ ∧
    (ofConfig oneEach adders).cleanRun? denied = some r ∧ r.ledger.isEmpty = true ∧
    ∀ hash, r.charge hash = .error (.unknownTransaction hash) := by
  obtain ⟨q, hrun, hwork, hcharge⟩ : ∃ q, (ofConfig oneEach adders).cleanRun? started = some q ∧
      q.InWork 0 ∧ (q.charge (Word.ofNat 1)).toOption = some 7 := by
    decide +kernel
  obtain ⟨r, hdenied, hquiet, hactive⟩ : ∃ r,
      (ofConfig oneEach adders).cleanRun? denied = some r ∧ r.isQuiet = true ∧
        r.active.isNone = true := by
    decide +kernel
  have hcreate : create oneEach adders = .ok (ofConfig oneEach adders) := rfl
  have htask : (tasks started)[0]? = some (Work.task ⟨(3 : Nat), .latest, pair⟩) := rfl
  obtain ⟨-, -, hcharges⟩ := charges_over_runs hcreate hrun
  obtain ⟨hidle, -⟩ := charges_over_runs hcreate hdenied
  obtain ⟨hempty, hunknown⟩ := hidle hquiet (Option.isNone_iff_eq_none.mp hactive)
  exact ⟨q, r, hrun, hwork, hcharge, (hcharges 0 _ htask hwork).1, hdenied, hempty, hunknown⟩

end TxPipeline.Pipeline
