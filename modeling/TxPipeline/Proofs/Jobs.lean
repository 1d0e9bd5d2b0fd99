import Mathlib.Algebra.Ring.Nat
import Mathlib.Data.Multiset.Filter
import Mathlib.Data.Multiset.MapFold
import Mathlib.Data.Multiset.AddSub
import TxPipeline.Proofs.Reference

/-!
# The jobs of a block

Every transaction of a block is either declined by a handler or a job of that handler, and never
both. The positions of transactions tell them apart as long as they fit into 32 bits.
-/

namespace TxPipeline

theorem Block.length_indexed (block : Block) : block.indexed.length = block.length := by
  simp [indexed, length]

theorem Block.getElem?_indexed {block : Block} (h : block.length ≤ 2 ^ 32) (i : Nat) :
    block.indexed[i]? = (block.transactions[i]?).map fun tx => ⟨i, tx⟩ := by
  simp only [indexed, List.getElem?_map, List.getElem?_zipIdx, Option.map_map]
  cases ht : block.transactions[i]? with
  | none => rfl
  | some tx =>
      have hi : i < block.length := (List.getElem?_eq_some_iff.mp ht).1
      have hmod : (0 + i) % UInt32.size = i := by
        rw [Nat.zero_add]
        exact Nat.mod_eq_of_lt (Nat.lt_of_lt_of_le hi h)
      exact congrArg (fun index => some (IndexedTx.mk index tx)) hmod

theorem Block.hashes_eq (block : Block) : block.hashes = block.indexed.map (·.hash) := by
  have hzip : block.transactions = block.transactions.zipIdx.map Prod.fst := by simp
  rw [hashes, indexed, List.map_map]
  conv_lhs => rw [hzip, List.map_map]
  rfl

theorem Block.index_of_getElem? {block : Block} (h : block.length ≤ 2 ^ 32) {i : Nat}
    {tx : IndexedTx} (ht : block.indexed[i]? = some tx) : tx.index = i := by
  rw [Block.getElem?_indexed h] at ht
  obtain ⟨_, _, rfl⟩ := Option.map_eq_some_iff.mp ht
  rfl

theorem Block.getElem?_of_mem {block : Block} (h : block.length ≤ 2 ^ 32) {tx : IndexedTx}
    (ht : tx ∈ block.indexed) : block.indexed[tx.index]? = some tx := by
  obtain ⟨i, hi⟩ := List.mem_iff_getElem?.mp ht
  rwa [Block.index_of_getElem? h hi]

theorem Block.nodup_indexed {block : Block} (h : block.length ≤ 2 ^ 32) :
    block.indexed.Nodup := by
  rw [List.nodup_iff_getElem?_ne_getElem?]
  intro i j hij hj heq
  have ht : block.indexed[j]? = some block.indexed[j] := List.getElem?_eq_getElem hj
  have hi := Block.index_of_getElem? h (heq.trans ht)
  have hj' := Block.index_of_getElem? h ht
  omega

namespace Gas

theorem length_gather {answers : List (Except Fault (Option UInt64))}
    {given : List (Option UInt64)} (h : gather answers = .ok given) :
    given.length = answers.length := by
  induction answers generalizing given with
  | nil =>
      cases h
      rfl
  | cons answer rest ih =>
      cases answer with
      | error fault => cases h
      | ok a =>
          cases hr : gather rest with
          | error fault => simp [gather, hr, Except.map] at h
          | ok others =>
              have hg : a :: others = given := by simpa [gather, hr, Except.map] using h
              simp [← hg, ih hr]

theorem length_eligible (available : UInt64) (answers : List (Option UInt64)) :
    (reservation available answers).eligible.length = answers.length := by
  unfold reservation
  dsimp only
  split <;> simp

end Gas

section Jobs

variable {F : Flow} {handlers : List (Handler F)} {work : Work F}

theorem length_verdict {rules : Rules} {tx : IndexedTx} {r : Gas.Reservation}
    (h : verdict handlers rules tx = .ok r) : r.eligible.length = handlers.length := by
  unfold verdict at h
  split at h
  · cases h
  · rename_i answers hanswers
    split at h
    · cases h
    · split at h
      · cases h
      · cases h
        rw [Gas.length_eligible, Gas.length_gather hanswers, List.length_map]

theorem Pipeline.mem_jobsOf {wanted : Bool} {decisions : List (IndexedTx × List Bool)} {job : Job} :
    job ∈ Pipeline.jobsOf wanted decisions ↔
      ∃ marks, (job.tx, marks) ∈ decisions ∧ marks[job.handler]? = some wanted := by
  simp only [Pipeline.jobsOf, List.mem_flatMap, List.mem_filterMap, Prod.exists]
  constructor
  · rintro ⟨tx, marks, hmem, marked, h, hz, heq⟩
    split at heq
    · rename_i hm
      cases heq
      rw [List.mk_mem_zipIdx_iff_getElem?] at hz
      exact ⟨marks, hmem, by rw [hz, eq_of_beq hm]⟩
    · cases heq
  · rintro ⟨marks, hmem, hm⟩
    refine ⟨job.tx, marks, hmem, wanted, job.handler, ?_, by simp⟩
    rwa [List.mk_mem_zipIdx_iff_getElem?]

theorem Pipeline.nodup_jobsOf (wanted : Bool) {decisions : List (IndexedTx × List Bool)}
    (h : (decisions.map Prod.fst).Nodup) : (Pipeline.jobsOf wanted decisions).Nodup := by
  rw [Pipeline.jobsOf, List.nodup_flatMap]
  constructor
  · rintro ⟨tx, marks⟩ -
    apply List.Nodup.filterMap
    · rintro ⟨m, i⟩ ⟨m', i'⟩ job hj hj'
      simp only [Option.mem_def, Option.ite_none_right_eq_some, beq_iff_eq] at hj hj'
      obtain ⟨rfl, hj⟩ := hj
      obtain ⟨rfl, hj'⟩ := hj'
      cases hj
      cases hj'
      rfl
    · exact List.Nodup.of_map Prod.snd (by simpa using List.nodup_range')
  · have hp : decisions.Pairwise fun a b => a.1 ≠ b.1 := List.pairwise_map.mp h
    apply hp.imp
    rintro ⟨tx, marks⟩ ⟨tx', marks'⟩ hne job hj hj'
    simp only [List.mem_filterMap, Option.ite_none_right_eq_some, Option.some.injEq] at hj hj'
    obtain ⟨_, _, _, rfl⟩ := hj
    obtain ⟨_, _, _, heq⟩ := hj'
    exact hne (congrArg Job.tx heq).symm

namespace Work

theorem length_marks (h : work.Accepted handlers) {tx : IndexedTx} (ht : tx ∈ work.block.indexed) :
    (work.marks handlers tx).length = handlers.length := by
  obtain ⟨r, hr⟩ := h tx ht
  simp [marks, hr, length_verdict hr]

theorem mem_decisions {tx : IndexedTx} {marks : List Bool} :
    (tx, marks) ∈ work.decisions handlers ↔
      tx ∈ work.block.indexed ∧ marks = work.marks handlers tx := by
  simp only [decisions, List.mem_map, Prod.mk.injEq]
  constructor
  · rintro ⟨_, ht, rfl, rfl⟩
    exact ⟨ht, rfl⟩
  · rintro ⟨ht, rfl⟩
    exact ⟨tx, ht, rfl, rfl⟩

theorem mem_jobs {job : Job} : job ∈ work.jobs handlers ↔
    job.tx ∈ work.block.indexed ∧ (work.marks handlers job.tx)[job.handler]? = some true := by
  simp only [jobs, Pipeline.mem_jobsOf, mem_decisions]
  grind

theorem mem_declined {job : Job} : job ∈ work.declined handlers ↔
    job.tx ∈ work.block.indexed ∧ (work.marks handlers job.tx)[job.handler]? = some false := by
  simp only [declined, Pipeline.mem_jobsOf, mem_decisions]
  grind

theorem nodup_decisions (h : work.block.length ≤ 2 ^ 32) :
    ((work.decisions handlers).map Prod.fst).Nodup := by
  simpa [decisions, Function.comp_def] using Block.nodup_indexed h

theorem nodup_jobs (h : work.block.length ≤ 2 ^ 32) : (work.jobs handlers).Nodup :=
  Pipeline.nodup_jobsOf true (nodup_decisions h)

theorem nodup_declined (h : work.block.length ≤ 2 ^ 32) : (work.declined handlers).Nodup :=
  Pipeline.nodup_jobsOf false (nodup_decisions h)

theorem disjoint_declined_jobs : (work.declined handlers).Disjoint (work.jobs handlers) := by
  intro job hd hj
  have hd' := (mem_declined.mp hd).2
  rw [(mem_jobs.mp hj).2] at hd'
  cases hd'

/-- The transactions that a handler declines, with those that are its jobs, are all of them. -/
theorem filter_declined_add_jobs (h : work.Accepted handlers) (hlen : work.block.length ≤ 2 ^ 32)
    {n : Nat} (hn : n < handlers.length) :
    ((work.declined handlers : Multiset Job) + work.jobs handlers).filter (·.handler = n) =
      (work.block.indexed.map (Job.mk n) : List Job) := by
  have hall : ((work.declined handlers : Multiset Job) + work.jobs handlers).Nodup := by
    rw [Multiset.coe_add, Multiset.coe_nodup]
    exact (nodup_declined hlen).append (nodup_jobs hlen) disjoint_declined_jobs
  have hmap : (work.block.indexed.map (Job.mk n)).Nodup :=
    (Block.nodup_indexed hlen).map fun _ _ heq => congrArg Job.tx heq
  apply (Multiset.Nodup.ext (hall.filter _) (Multiset.coe_nodup.mpr hmap)).mpr
  intro job
  simp only [Multiset.mem_filter, Multiset.mem_add, Multiset.mem_coe, mem_declined, mem_jobs,
    List.mem_map]
  constructor
  · rintro ⟨⟨ht, _⟩ | ⟨ht, _⟩, rfl⟩ <;> exact ⟨job.tx, ht, rfl⟩
  · rintro ⟨tx, ht, rfl⟩
    refine ⟨?_, rfl⟩
    have hlt : n < (work.marks handlers tx).length := by rwa [length_marks h ht]
    cases hm : (work.marks handlers tx)[n] with
    | false => exact .inl ⟨ht, by rw [List.getElem?_eq_getElem hlt, hm]⟩
    | true => exact .inr ⟨ht, by rw [List.getElem?_eq_getElem hlt, hm]⟩

theorem resultOf_of_declined {job : Job} (h : job ∈ work.declined handlers) :
    work.resultOf handlers job.handler job.tx = .declined job.tx := by
  simp [resultOf, TxResult.declined, (mem_declined.mp h).2]

theorem resultOf_of_job {job : Job} (h : job ∈ work.jobs handlers) :
    work.resultOf handlers job.handler job.tx =
      ⟨job.tx, work.outputOf handlers job.handler job.tx⟩ := by
  simp [resultOf, (mem_jobs.mp h).2]

theorem lt_of_mem_jobs (h : work.Accepted handlers) {job : Job} (hj : job ∈ work.jobs handlers) :
    job.handler < handlers.length := by
  obtain ⟨ht, hm⟩ := mem_jobs.mp hj
  rw [← length_marks h ht]
  exact (List.getElem?_eq_some_iff.mp hm).1

theorem lt_of_mem_declined (h : work.Accepted handlers) {job : Job}
    (hj : job ∈ work.declined handlers) : job.handler < handlers.length := by
  obtain ⟨ht, hm⟩ := mem_declined.mp hj
  rw [← length_marks h ht]
  exact (List.getElem?_eq_some_iff.mp hm).1

end Work

end Jobs

end TxPipeline
