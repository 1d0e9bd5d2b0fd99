import Mathlib.Algebra.BigOperators.Fin
import Mathlib.Algebra.Order.BigOperators.Group.List
import Mathlib.Data.List.NodupEquivFin
import TxPipeline.Proofs.Decision
import TxPipeline.Proofs.Order.Announcements

/-!
# Some of the handlers

What becomes of a block when handlers are taken out of a registry. Those that stay are coupled to
the others only by the sum of the costs that all ask for, and that sum does not grow. So whatever a
handler works on among all, it also works on among some of them, and with the same result.
-/

namespace TxPipeline

variable {F : Flow} {handlers few : List (Handler F)} {e : Nat ↪o Nat} {work : Work F}
  {rules : Rules} {tx : IndexedTx} {answers given : List (Option UInt64)} {i : Nat}

/-- `few` are some of the handlers, in the same order: the one at `i` among them is the one at `e i`
among all. -/
def Selects (e : Nat ↪o Nat) (handlers few : List (Handler F)) : Prop :=
  ∀ i, few[i]? = handlers[e i]?

theorem exists_selects_iff : (∃ e, Selects e handlers few) ↔ few.Sublist handlers :=
  List.sublist_iff_exists_orderEmbedding_getElem?_eq.symm

/-- No handler that is left out wants the transaction. -/
def LeavesOutIdle (e : Nat ↪o Nat) (handlers : List (Handler F)) (rules : Rules) (tx : IndexedTx) :
    Prop :=
  ∀ k handler, handlers[k]? = some handler → k ∉ Set.range e → handler.gas tx rules = .ok none

/-- What intrinsic gas leaves of its limit pays for all handlers that want the transaction. -/
def Funds (handlers : List (Handler F)) (rules : Rules) (tx : IndexedTx) : Prop :=
  ∃ answers : List (Option UInt64),
    (handlers.map fun handler => handler.gas tx rules) = answers.map .ok ∧
    Gas.exactIntrinsicOf tx.tx rules ≤ tx.tx.gasLimit.toNat ∧
    Gas.exactCost answers ≤ tx.tx.gasLimit.toNat - Gas.exactIntrinsicOf tx.tx rules

/-! ## Costs -/

namespace Gas

theorem gather_eq_ok_iff {asked : List (Except Fault (Option UInt64))} :
    gather asked = .ok answers ↔ asked = answers.map .ok := by
  constructor
  · intro hgather
    induction asked generalizing answers with
    | nil =>
        cases hgather
        rfl
    | cons answer rest ih =>
        cases answer with
        | error fault => cases hgather
        | ok answer =>
            cases hrest : gather rest with
            | error fault => simp [gather, hrest, Except.map] at hgather
            | ok others =>
                obtain rfl : answer :: others = answers := by
                  simpa [gather, hrest, Except.map] using hgather
                rw [ih hrest, List.map_cons]
  · rintro rfl
    exact gather_map_ok answers

theorem exactCost_le_of_sublist (hsub : given.Sublist answers) :
    exactCost given ≤ exactCost answers :=
  (hsub.map _).sum_le_sum fun _ _ => Nat.zero_le _

end Gas

/-- Zeros can be left out of a sum. -/
theorem sum_eq_of_selects {all chosen : List Nat} (hchosen : ∀ i, chosen[i]? = all[e i]?)
    (hzero : ∀ k n, all[k]? = some n → k ∉ Set.range e → n = 0) : chosen.sum = all.sum := by
  have hsum (l : List Nat) : ∑ k ∈ Finset.range l.length, l.getD k 0 = l.sum := by
    rw [Finset.sum_range, ← Fin.sum_univ_getElem]
    simp
  have hlt (i : Nat) : i < chosen.length ↔ e i < all.length := by
    rw [← not_le, ← not_le, ← List.getElem?_eq_none_iff, hchosen, List.getElem?_eq_none_iff]
  rw [← hsum, ← hsum]
  apply Finset.sum_of_injOn e e.injective.injOn
  · intro i hi
    simpa [hlt] using hi
  · intro k hk hnot
    have hk : k < all.length := Finset.mem_range.mp hk
    rw [List.getD_eq_getElem?_getD, List.getElem?_eq_getElem hk, Option.getD_some]
    apply hzero k _ (List.getElem?_eq_getElem hk)
    rintro ⟨i, rfl⟩
    exact hnot ⟨i, by simpa [hlt] using hk, rfl⟩
  · intro i _
    rw [List.getD_eq_getElem?_getD, List.getD_eq_getElem?_getD, hchosen]

theorem exists_answers_of_verdict {r : Gas.Reservation}
    (hverdict : verdict handlers rules tx = .ok r) :
    ∃ answers : List (Option UInt64),
      (handlers.map fun handler => handler.gas tx rules) = answers.map .ok ∧
        Gas.exactIntrinsicOf tx.tx rules ≤ tx.tx.gasLimit.toNat := by
  obtain ⟨intrinsic, hintrinsic, hle, -⟩ := toNat_total_of_verdict hverdict
  rw [Gas.intrinsicOf_eq_ok_iff.mp hintrinsic] at hle
  unfold verdict at hverdict
  split at hverdict
  · cases hverdict
  · rename_i answers hgather
    exact ⟨answers, Gas.gather_eq_ok_iff.mp hgather, hle⟩

/-! ## Decisions -/

namespace Selects

variable (hselects : Selects e handlers few)

include hselects

theorem lt_iff : i < few.length ↔ e i < handlers.length := by
  rw [← not_le, ← not_le, ← List.getElem?_eq_none_iff, hselects, List.getElem?_eq_none_iff]

theorem exists_answers
    (hanswers : (handlers.map fun handler => handler.gas tx rules) = answers.map .ok) :
    ∃ given : List (Option UInt64),
      (few.map fun handler => handler.gas tx rules) = given.map .ok ∧
      given.Sublist answers ∧ ∀ i, given[i]? = answers[e i]? := by
  have hsub := (exists_selects_iff.mp ⟨e, hselects⟩).map fun handler => handler.gas tx rules
  rw [hanswers, List.sublist_map_iff] at hsub
  obtain ⟨given, hgiven, hfew⟩ := hsub
  refine ⟨given, hfew, hgiven, fun i => ?_⟩
  have hget := congrArg (Option.map fun handler => handler.gas tx rules) (hselects i)
  rw [← List.getElem?_map, ← List.getElem?_map, hfew, hanswers, List.getElem?_map,
    List.getElem?_map] at hget
  exact Option.map_injective (fun _ _ => Except.ok.inj) hget

/-- Transactions that all handlers accept are accepted by some of them. -/
theorem verdict_ok {r : Gas.Reservation} (hverdict : verdict handlers rules tx = .ok r) :
    ∃ r', verdict few rules tx = .ok r' := by
  obtain ⟨answers, hanswers, hlimit⟩ := exists_answers_of_verdict hverdict
  obtain ⟨given, hgiven, -⟩ := hselects.exists_answers hanswers
  obtain ⟨available, -, -, hok⟩ := verdict_of_le hgiven hlimit
  exact ⟨_, hok⟩

theorem accepted (haccepted : work.Accepted handlers) : work.Accepted few := by
  intro tx ht
  obtain ⟨r, hr⟩ := haccepted tx ht
  exact hselects.verdict_ok hr

/-- Whether a handler works on a transaction that can pay for all of them does not depend on the
others. -/
theorem marks_eq_of_funds (hfunds : Funds handlers work.rules tx) (i : Nat) :
    (work.marks few tx)[i]? = (work.marks handlers tx)[e i]? := by
  obtain ⟨answers, hanswers, hlimit, hcost⟩ := hfunds
  obtain ⟨given, hgiven, hsub, hget⟩ := hselects.exists_answers hanswers
  have hless := (Gas.exactCost_le_of_sublist hsub).trans hcost
  rw [Work.marks, Work.marks, verdict_of_funded hanswers hlimit hcost,
    verdict_of_funded hgiven hlimit hless, List.getElem?_map, List.getElem?_map, hget]

/-- Handlers that do not want a transaction make no difference to what is decided about it. -/
theorem verdict_of_idle {r : Gas.Reservation} (hidle : LeavesOutIdle e handlers rules tx)
    (hverdict : verdict handlers rules tx = .ok r) :
    ∃ r', verdict few rules tx = .ok r' ∧ r'.total = r.total ∧
      ∀ i, r'.eligible[i]? = r.eligible[e i]? := by
  obtain ⟨answers, hanswers, hlimit⟩ := exists_answers_of_verdict hverdict
  obtain ⟨given, hgiven, -, hget⟩ := hselects.exists_answers hanswers
  have hsame : Gas.exactCost given = Gas.exactCost answers := by
    apply sum_eq_of_selects (e := e)
    · intro i
      rw [List.getElem?_map, List.getElem?_map, hget]
    · intro k n hn hk
      rw [List.getElem?_map] at hn
      obtain ⟨answer, hanswer, rfl⟩ := Option.map_eq_some_iff.mp hn
      have hasked := congrArg (·[k]?) hanswers
      simp only [List.getElem?_map, hanswer, Option.map_some] at hasked
      obtain ⟨handler, hhandler, hgas⟩ := Option.map_eq_some_iff.mp hasked
      rw [hidle k handler hhandler hk] at hgas
      cases hgas
      rfl
  by_cases hcost : Gas.exactCost answers ≤
      tx.tx.gasLimit.toNat - Gas.exactIntrinsicOf tx.tx rules
  · rw [verdict_of_funded hanswers hlimit hcost] at hverdict
    cases hverdict
    refine ⟨_, verdict_of_funded hgiven hlimit (hsame.trans_le hcost), by rw [hsame], fun i => ?_⟩
    rw [List.getElem?_map, List.getElem?_map, hget]
  · rw [Nat.not_le] at hcost
    rw [verdict_of_unfunded hanswers hlimit hcost] at hverdict
    cases hverdict
    refine ⟨_, verdict_of_unfunded hgiven hlimit (hsame ▸ hcost), rfl, fun i => ?_⟩
    rw [List.getElem?_replicate, List.getElem?_replicate]
    simp only [hselects.lt_iff]

theorem marks_eq_of_idle (hidle : LeavesOutIdle e handlers work.rules tx)
    (haccepted : ∃ r, verdict handlers work.rules tx = .ok r) (i : Nat) :
    (work.marks few tx)[i]? = (work.marks handlers tx)[e i]? := by
  obtain ⟨r, hr⟩ := haccepted
  obtain ⟨r', hr', -, heligible⟩ := hselects.verdict_of_idle hidle hr
  rw [Work.marks, Work.marks, hr, hr']
  exact heligible i

/-! ## Results and charges -/

theorem commonOf_eq : work.commonOf few i = work.commonOf handlers (e i) := by
  rw [Work.commonOf, Work.commonOf, hselects]

theorem dataOf_eq : work.dataOf few i tx = work.dataOf handlers (e i) tx := by
  rw [Work.dataOf, Work.dataOf, hselects, hselects.commonOf_eq]

theorem outputOf_eq : work.outputOf few i tx = work.outputOf handlers (e i) tx := by
  rw [Work.outputOf, Work.outputOf, hselects, hselects.commonOf_eq, hselects.dataOf_eq]

theorem resultOf_eq (hmarks : (work.marks few tx)[i]? = (work.marks handlers tx)[e i]?) :
    work.resultOf few i tx = work.resultOf handlers (e i) tx := by
  rw [Work.resultOf, Work.resultOf, hmarks, hselects.outputOf_eq]

theorem resultsOf_eq (hmarks : ∀ tx ∈ work.block.indexed,
      (work.marks few tx)[i]? = (work.marks handlers tx)[e i]?) :
    work.resultsOf few i = work.resultsOf handlers (e i) :=
  List.map_congr_left fun tx ht => hselects.resultOf_eq (hmarks tx ht)

theorem completionsOf_eq (hmarks : ∀ tx ∈ work.block.indexed,
      (work.marks few tx)[i]? = (work.marks handlers tx)[e i]?) :
    work.completionsOf few i = work.completionsOf handlers (e i) := by
  have hmarked (mark : Bool) : work.markedBy few i mark = work.markedBy handlers (e i) mark :=
    List.filter_congr fun tx ht => by rw [hmarks tx ht]
  rw [Work.completionsOf, Work.completionsOf, hmarked, hmarked]
  refine List.map_congr_left fun tx ht => hselects.resultOf_eq (hmarks tx ?_)
  rcases List.mem_append.mp ht with ht | ht <;> exact List.mem_of_mem_filter ht

theorem charge_eq_of_idle (hidle : ∀ tx ∈ work.block.indexed,
      LeavesOutIdle e handlers work.rules tx) (haccepted : work.Accepted handlers) (hash : Word) :
    work.charge few hash = work.charge handlers hash := by
  rw [Work.charge, Work.charge, lastReserved, lastReserved]
  refine Option.map_congr fun tx ht => ?_
  have ht : tx ∈ work.block.indexed := List.mem_reverse.mp (List.mem_of_find?_eq_some ht)
  obtain ⟨r, hr⟩ := haccepted tx ht
  obtain ⟨r', hr', htotal, -⟩ := hselects.verdict_of_idle (hidle tx ht) hr
  rw [reserved, reserved, hr, hr']
  exact htotal

end Selects

/-- A transaction that some handler is to work on can pay for all that want it. -/
theorem funds_of_marked (haccepted : ∃ r, verdict handlers work.rules tx = .ok r)
    (hmarked : (work.marks handlers tx)[i]? = some true) : Funds handlers work.rules tx := by
  obtain ⟨r, hr⟩ := haccepted
  obtain ⟨answers, hanswers, hlimit⟩ := exists_answers_of_verdict hr
  refine ⟨answers, hanswers, hlimit, ?_⟩
  by_contra hcost
  rw [Work.marks, verdict_of_unfunded hanswers hlimit (Nat.not_le.mp hcost),
    List.getElem?_replicate] at hmarked
  split at hmarked <;> cases hmarked

end TxPipeline
