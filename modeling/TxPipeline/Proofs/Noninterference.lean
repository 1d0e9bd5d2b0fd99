import TxPipeline.Proofs.Containment
import TxPipeline.Proofs.Independence
import TxPipeline.Proofs.Selection

/-!
# Handlers do not interfere

Handlers share workers, queues, decisions and gas. Take some of them out of the registry, and look
at two runs on the same block, one with all handlers and one with those that are left. A handler
that stays still works on all it has worked on before, and comes to the same; of those that are left
out nothing but their costs has ever shown.
-/

namespace TxPipeline

variable {F : Flow} {handlers few : List (Handler F)} {e : Nat ↪o Nat} {past past' : List (Work F)}
  {work : Work F} {phase phase' : Phase F} {p p' q q' : Pipeline F} {c c' h i : Nat}
  {tx : IndexedTx} {stage : Stage} {deeds deeds' : List Deed}

/-! ## What is run -/

namespace Selects

variable (hselects : Selects e handlers few)

include hselects

theorem reaches_iff : work.Reaches few ⟨i, tx⟩ stage ↔ work.Reaches handlers ⟨e i, tx⟩ stage := by
  cases stage <;> simp only [Work.Reaches, hselects.commonOf_eq, hselects.dataOf_eq]

theorem faultOf_eq : work.faultOf few ⟨i, tx⟩ stage = work.faultOf handlers ⟨e i, tx⟩ stage := by
  cases stage <;>
    simp only [Work.faultOf, Work.prefetchFault, Work.processFault, hselects i,
      hselects.commonOf_eq, hselects.dataOf_eq]

/-- A handler that is to work on a transaction among all is to do so among some. -/
theorem mem_jobs (haccepted : work.Accepted handlers) (hjob : ⟨e i, tx⟩ ∈ work.jobs handlers) :
    ⟨i, tx⟩ ∈ work.jobs few := by
  obtain ⟨ht, hmarked⟩ := Work.mem_jobs.mp hjob
  refine Work.mem_jobs.mpr ⟨ht, ?_⟩
  rw [hselects.marks_eq_of_funds (funds_of_marked (haccepted tx ht) hmarked), hmarked]

theorem resultOf_eq_of_job (haccepted : work.Accepted handlers)
    (hjob : ⟨e i, tx⟩ ∈ work.jobs handlers) :
    work.resultOf few i tx = work.resultOf handlers (e i) tx := by
  rw [Work.resultOf_of_job hjob, Work.resultOf_of_job (hselects.mem_jobs haccepted hjob),
    hselects.outputOf_eq]

end Selects

namespace Pipeline

/-- Whether handler `h` is to work on a transaction. -/
def eligibility (q : Pipeline F) (rules : Rules) (tx : IndexedTx) (h : Nat) :
    Except Failure (Option Bool) :=
  (q.shouldProcess tx rules).1.map (·[h]?)

theorem During.eligibility_eq {calm : Prop} (hq : q.During calm handlers past work phase)
    (ht : tx ∈ work.block.indexed) (h : Nat) :
    q.eligibility work.rules tx h = .ok (work.marks handlers tx)[h]? := by
  rw [eligibility, hq.shouldProcess_eq ht, Except.map]

theorem During.eligible_iff {calm : Prop} (hq : q.During calm handlers past work phase)
    (ht : tx ∈ work.block.indexed) :
    q.eligibility work.rules tx h = .ok (some true) ↔ ⟨h, tx⟩ ∈ work.jobs handlers := by
  rw [hq.eligibility_eq ht, Except.ok.injEq, Work.mem_jobs, and_iff_right ht]

/-! ## Two pipelines -/

/-- Handler `i` of `q'` is handler `e i` of `q`. It is to work on all that it is to work on in `q`,
and what it has run and come to is the same. When `q'` is done with the block, nothing is missing
that `q` has. -/
structure Retains (e : Nat ↪o Nat) (handlers few : List (Handler F)) (work : Work F)
    (deeds deeds' : List Deed) (q q' : Pipeline F) : Prop where
  eligible : ∀ tx ∈ work.block.indexed, ∀ i, q.eligibility work.rules tx (e i) = .ok (some true) →
    q'.eligibility work.rules tx i = .ok (some true)
  funded : ∀ tx ∈ work.block.indexed, Funds handlers work.rules tx →
    ∀ i, q'.eligibility work.rules tx i = q.eligibility work.rules tx (e i)
  dispatched : ∀ stage i tx fault, ⟨stage, ⟨e i, tx⟩, fault⟩ ∈ deeds →
    tx ∈ work.block.indexed ∧ q.eligibility work.rules tx (e i) = .ok (some true) ∧
      ∀ fault', ⟨stage, ⟨i, tx⟩, fault'⟩ ∈ deeds' → fault' = fault
  result : ∀ i j tx r r', work.block.indexed[j]? = some tx →
    q.eligibility work.rules tx (e i) = .ok (some true) → q.result? (e i) j = .ok (some r) →
    q'.result? i j = .ok (some r') → r' = r
  done : q'.isQuiet = true → q'.Halted →
    (∀ handler ∈ few, ∃ common,
      handler.beforeBlock work.store work.rules work.block = .ok common) →
    (∀ stage i tx fault, ⟨stage, ⟨e i, tx⟩, fault⟩ ∈ deeds →
      ⟨stage, ⟨i, tx⟩, fault⟩ ∈ deeds') ∧
    ∀ i j, i < few.length → j < work.block.length → ∃ r, q'.result? i j = .ok (some r)

/-- Handler `i` of `q'` is handler `e i` of `q`, and nothing that can be observed of it has
changed. -/
structure Unchanged (e : Nat ↪o Nat) (work : Work F) (q q' : Pipeline F) : Prop where
  eligible : ∀ tx ∈ work.block.indexed, ∀ i,
    q'.eligibility work.rules tx i = q.eligibility work.rules tx (e i)
  result : ∀ i j r r', q.result? (e i) j = .ok (some r) → q'.result? i j = .ok (some r') → r' = r
  charge : ∀ hash, q'.charge hash = q.charge hash
  streams : ∀ (i : Nat) s s' l l', q.stations[e i]? = some s → q'.stations[i]? = some s' →
    s.lanes[q.lastLane]? = some l → s'.lanes[q'.lastLane]? = some l' → Matches work s s' l l'

/-- The results of a handler are announced in the same order. -/
def SameOrder (e : Nat ↪o Nat) (q q' : Pipeline F) : Prop :=
  ∀ (i : Nat) s s' l l', q.stations[e i]? = some s → q'.stations[i]? = some s' →
    s.lanes[q.lastLane]? = some l → s'.lanes[q'.lastLane]? = some l' →
    (l.completions.sent <+: l'.completions.sent ∨ l'.completions.sent <+: l.completions.sent) ∧
      (s.remaining = 0 → s'.remaining = 0 → l.completions.sent = l'.completions.sent)

theorem During.eq_started_of_isOn {calm : Prop} (hq : q.During calm handlers past work phase)
    (hon : phase.isOn = true) (hquiet : q.isQuiet = true) : phase = .started := by
  cases phase with
  | starting c next => exact absurd hquiet hq.not_quiet
  | started => rfl
  | finishing d origin store block receipts next => exact hq.eq_started rfl hquiet
  | abandoned joined concluded => cases hon

/-- Nothing is left to do for a block when all calls have returned and no thread can move. -/
theorem During.outstanding_eq_zero (hq : q.During True handlers past work .started)
    (horderly : q.Orderly) (hhalted : q.Halted)
    (hbefore : ∀ handler ∈ handlers, ∃ common,
      handler.beforeBlock work.store work.rules work.block = .ok common) (checkpoint : Checkpoint) :
    Phase.outstanding .started q checkpoint = 0 := by
  rw [Phase.outstanding, hq.load_eq_zero_of_halted (by simp) hhalted hbefore horderly]
  rfl

section TwoRuns

variable (hselects : Selects e handlers few) (hq : q.During True handlers past work phase)
  (hq' : q'.During True few past' work phase')

include hselects hq hq'

theorem During.retains (hr : Records handlers work phase q deeds)
    (hr' : Records few work phase' q' deeds') (horderly : q'.Orderly)
    (hon : phase'.isOn = true) : Retains e handlers few work deeds deeds' q q' := by
  refine ⟨?_, ?_, ?_, ?_, ?_⟩
  · intro tx ht i heligible
    have hjob := (hq.eligible_iff ht).mp heligible
    exact (hq'.eligible_iff ht).mpr (hselects.mem_jobs hq.accepted hjob)
  · intro tx ht hfunds i
    rw [hq'.eligibility_eq ht, hq.eligibility_eq ht, hselects.marks_eq_of_funds hfunds]
  · intro stage i tx fault hdeed
    obtain ⟨hjob, -, hfault⟩ := hr.sound _ hdeed
    have ht := (Work.mem_jobs.mp hjob).1
    refine ⟨ht, (hq.eligible_iff ht).mpr hjob, fun fault' hdeed' => ?_⟩
    obtain ⟨-, -, hfault'⟩ := hr'.sound _ hdeed'
    exact (hfault'.trans hselects.faultOf_eq).trans hfault.symm
  · intro i j tx r r' htx heligible hread hread'
    have hjob := (hq.eligible_iff (List.mem_of_getElem? htx)).mp heligible
    obtain ⟨tx₁, htx₁, rfl, -⟩ := hq.result? hread
    obtain ⟨tx₂, htx₂, rfl, -⟩ := hq'.result? hread'
    cases htx.symm.trans htx₁
    cases htx.symm.trans htx₂
    exact hselects.resultOf_eq_of_job hq.accepted hjob
  · intro hquiet hhalted hbefore
    obtain rfl := hq'.eq_started_of_isOn hon hquiet
    refine ⟨fun stage i tx fault hdeed => ?_, fun i j hi hj =>
      hq'.exists_result horderly hhalted hbefore hi hj⟩
    obtain ⟨hjob, hreaches, hfault⟩ := hr.sound _ hdeed
    have hdone : ⟨i, tx⟩ ∉ Phase.outstanding .started q' (.after stage) := by
      rw [hq'.outstanding_eq_zero horderly hhalted hbefore]
      exact Multiset.notMem_zero _
    have hdeed' := hr'.complete stage _ (hselects.mem_jobs hq.accepted hjob)
      (hselects.reaches_iff.mpr hreaches) hdone
    rwa [hselects.faultOf_eq, ← hfault] at hdeed'

theorem During.unchanged (hidle : ∀ tx ∈ work.block.indexed,
      LeavesOutIdle e handlers work.rules tx) : Unchanged e work q q' := by
  have hmarks (i : Nat) (tx : IndexedTx) (ht : tx ∈ work.block.indexed) :
      (work.marks few tx)[i]? = (work.marks handlers tx)[e i]? :=
    hselects.marks_eq_of_idle (hidle tx ht) (hq.accepted tx ht) i
  refine ⟨?_, ?_, ?_, ?_⟩
  · intro tx ht i
    rw [hq'.eligibility_eq ht, hq.eligibility_eq ht, hmarks i tx ht]
  · intro i j r r' hread hread'
    obtain ⟨tx, htx, rfl, -⟩ := hq.result? hread
    obtain ⟨tx', htx', rfl, -⟩ := hq'.result? hread'
    cases htx.symm.trans htx'
    exact hselects.resultOf_eq (hmarks i tx (List.mem_of_getElem? htx))
  · intro hash
    rw [charge, charge, Gas.Ledger.charge, Gas.Ledger.charge, hq.ledger trivial,
      hq'.ledger trivial, hselects.charge_eq_of_idle hidle hq.accepted]
  · intro i s s' l l' hs hs' hl hl'
    rw [hq.lastLane_eq] at hl
    rw [hq'.lastLane_eq] at hl'
    have hhandler := hselects i
    rw [hq.crew.getElem?_handlers, hq'.crew.getElem?_handlers, hs, hs'] at hhandler
    exact hq.matches_of_eq hq' hs hs' hl hl' (Option.some.inj hhandler).symm
      (hselects.resultsOf_eq (hmarks i))

end TwoRuns

variable {config config' : Config} {registry registry' : Registry F}
  {moves moves' : List (Move F)}

/-- Handlers do not interfere. A block that all handlers accept is not refused for its transactions
when some of them are left out. Whatever those do in `prefetch` and `process`, the others work on
all transactions that they have worked on before and come to the same results; and on those that can
pay for all handlers they decide the same. If none that is left out has ever wanted a transaction of
the block, its results, charges and streams stay the same altogether, the order of announcements
included if the process pool has one worker. -/
theorem handlers_do_not_interfere (hselects : Selects e registry.handlers registry'.handlers)
    (hcreate : create config registry = .ok p) (hrun : p.cleanRun? moves = some q)
    (htask : (tasks moves)[c]? = some work.task) (hwork : q.InWork c)
    (hcreate' : create config' registry' = .ok p') (hrun' : p'.cleanRun? moves' = some q')
    (htask' : (tasks moves')[c']? = some work.task) :
    (∀ failure, q'.calls[c']? = some (.returned (.started (.error failure))) →
      failure = .error .closed ∨ (∃ n, failure = .error (.blockInProgress n)) ∨
        Denied moves' c' failure) ∧
    (q'.InWork c' →
      Retains e registry.handlers registry'.handlers work (p.deedsSince c moves)
        (p'.deedsSince c' moves') q q' ∧
      ((∀ tx ∈ work.block.indexed, LeavesOutIdle e registry.handlers work.rules tx) →
        Unchanged e work q q' ∧
        (config.processWorkers = 1 → config'.processWorkers = 1 → SameOrder e q q'))) := by
  obtain ⟨past, phase, hq, -, hr⟩ := exists_records work hcreate hrun htask hwork
  refine ⟨fun failure hrefused => ?_, fun hwork' => ?_⟩
  · rcases refuses_of_cleanRun? hcreate' hrun' htask' hrefused with (h | h | h) | h
    · exact .inl h
    · exact .inr (.inl h)
    · exact absurd (hselects.accepted hq.accepted) h
    · exact .inr (.inr h)
  obtain ⟨past', phase', hq', hon, hr'⟩ := exists_records work hcreate' hrun' htask' hwork'
  have horderly := orderly_of_run? (orderly_create hcreate') (run?_of_cleanRun? hrun')
  refine ⟨hq.retains hselects hq' hr hr' horderly hon, fun hidle =>
    ⟨hq.unchanged hselects hq' hidle, fun hone hone' i s s' l l' hs hs' hl hl' => ?_⟩⟩
  -- with one worker both are what the transactions and their marks say
  obtain ⟨hsent, hall⟩ := completions_of_lone hcreate hone hrun htask hwork hs hl
  obtain ⟨hsent', hall'⟩ := completions_of_lone hcreate' hone' hrun' htask' hwork' hs' hl'
  have hsame :
      work.completionsOf registry'.handlers i = work.completionsOf registry.handlers (e i) :=
    hselects.completionsOf_eq fun tx ht =>
      hselects.marks_eq_of_idle (hidle tx ht) (hq.accepted tx ht) i
  rw [hsame] at hsent' hall'
  refine ⟨?_, fun hzero hzero' => (hall hzero).trans (hall' hzero').symm⟩
  exact List.prefix_or_prefix_of_prefix hsent hsent'

end Pipeline

/-! ## A run -/

namespace Sample

open Pipeline

/-- The handler `tripping`, but it wants no transaction. -/
def abstaining : Handler flow := { tripping with gas := fun _ _ => .ok none }

/-- A registry in which `adder` comes second. -/
def beside (other : Handler flow) : Registry flow := ⟨[other, adder]⟩

def second : Nat ↪o Nat := OrderEmbedding.ofStrictMono (· + 1) fun _ _ h => Nat.succ_lt_succ h

theorem selects_beside (other : Handler flow) :
    Selects second (beside other).handlers adders.handlers := fun _ => rfl

theorem leavesOutIdle_beside_abstaining (rules : Rules) (tx : IndexedTx) :
    LeavesOutIdle second (beside abstaining).handlers rules tx := by
  intro k handler hhandler hk
  cases k with
  | zero =>
      cases hhandler
      rfl
  | succ k => exact absurd ⟨k, rfl⟩ hk

/-- The block is started for two handlers, in `n` moves once workers have their copies, and the
moves `rest` are made. -/
def attended (n : Nat) (rest : List (List Actor)) : List (Move flow) :=
  .call (.start (3 : Nat) .latest pair) ::
    List.map .act (List.flatten ([
      .replicate 8 (.caller 0),
      [.refresher 0, .refresher 0, .caller 0, .refresher 1, .refresher 1],
      .replicate n (.caller 0),
      [.preparation 0 0, .preparation 1 0, .feeder 0 .prefetch, .feeder 0 .process,
        .receiver 0]] ++ rest))

/-- Both handlers work on the first transaction. -/
def shared : List (Move flow) :=
  attended 11 [
    [.feeder 0 .prefetch, .receiver 1, .feeder 0 .process],
    .replicate 3 (.worker 0), [.receiver 0], .replicate 3 (.worker 0),
    .replicate 5 (.worker 1), [.receiver 1], .replicate 5 (.worker 1)]

/-- Only the second handler works on the first transaction. -/
def unshared : List (Move flow) :=
  attended 13 [[.receiver 1], .replicate 3 (.worker 0), .replicate 5 (.worker 1)]

end Sample

open Pipeline Sample in
/-- The result of `adder` is the same beside a handler that trips over the transaction and when it
works alone, and a handler that wants nothing changes nothing. -/
theorem handlers_do_not_interfere_beside : ∃ q other q' r r',
    (ofConfig oneEach (beside tripping)).cleanRun? shared = some q ∧
    (ofConfig oneEach (beside abstaining)).cleanRun? unshared = some other ∧
    (ofConfig oneEach adders).cleanRun? started = some q' ∧
    q.InWork 0 ∧ other.InWork 0 ∧ q'.InWork 0 ∧
    q.eligibility .latest ⟨0, transaction 1⟩ 1 = .ok (some true) ∧
    q.result? 1 0 = .ok (some r) ∧ q'.result? 0 0 = .ok (some r') ∧ r' = r ∧
    Unchanged second ⟨(3 : Nat), .latest, pair⟩ other q' ∧ SameOrder second other q' := by
  obtain ⟨q, hrun, hwork, hmarked, r, hr, -⟩ : ∃ q,
      (ofConfig oneEach (beside tripping)).cleanRun? shared = some q ∧ q.InWork 0 ∧
        (∃ marked, q.eligibility .latest ⟨0, transaction 1⟩ 1 = .ok (some marked) ∧
          marked = true) ∧
        ∃ r, q.result? 1 0 = .ok (some r) ∧ r.output = some 6 := by
    decide +kernel
  obtain ⟨_, hmarked, rfl⟩ := hmarked
  obtain ⟨other, hother, hwork₂⟩ : ∃ other,
      (ofConfig oneEach (beside abstaining)).cleanRun? unshared = some other ∧ other.InWork 0 := by
    decide +kernel
  obtain ⟨q', hrun', hwork', r', hr', -⟩ : ∃ q',
      (ofConfig oneEach adders).cleanRun? started = some q' ∧ q'.InWork 0 ∧
        ∃ r', q'.result? 0 0 = .ok (some r') ∧ r'.output = some 6 := by
    decide +kernel
  have hcreate (handler : Handler flow) :
      create oneEach (beside handler) = .ok (ofConfig oneEach (beside handler)) := rfl
  have hcreate' : create oneEach adders = .ok (ofConfig oneEach adders) := rfl
  have htask (n : Nat) (rest : List (List Actor)) :
      (tasks (attended n rest))[0]? = some (Work.task ⟨(3 : Nat), .latest, pair⟩) := rfl
  have htask' : (tasks started)[0]? = some (Work.task ⟨(3 : Nat), .latest, pair⟩) := rfl
  obtain ⟨hretains, -⟩ := (handlers_do_not_interfere (selects_beside tripping) (hcreate _) hrun
    (htask _ _) hwork hcreate' hrun' htask').2 hwork'
  obtain ⟨-, hidle⟩ := (handlers_do_not_interfere (selects_beside abstaining) (hcreate _) hother
    (htask _ _) hwork₂ hcreate' hrun' htask').2 hwork'
  obtain ⟨hunchanged, horder⟩ := hidle fun tx _ => leavesOutIdle_beside_abstaining .latest tx
  exact ⟨q, other, q', r, r', hrun, hother, hrun', hwork, hwork₂, hwork', hmarked, hr, hr',
    hretains.result 0 0 _ r r' rfl hmarked hr hr', hunchanged, horder rfl rfl⟩

end TxPipeline
