import TxPipeline.Proofs.Charges
import TxPipeline.Proofs.Deeds
import TxPipeline.Proofs.Termination

/-!
# Faults of workers are contained

A fault of `prefetch` or `process` costs the result of its own job and nothing else: all other
results, the charges and the decisions about transactions are as if it had not been raised. And the
call that finishes the block raises a fault that was caught while workers were at work on this very
block, if there was any.
-/

namespace TxPipeline

variable {F : Flow} {handlers mended : List (Handler F)} {past : List (Work F)} {work : Work F}
  {phase : Phase F} {calm : Prop} {p q q' : Pipeline F} {c f h i : Nat} {job : Job}
  {deeds : List Deed} {r : TxResult F.Output} {tx : IndexedTx}

/-! ## Handlers that fail less often -/

/-- `mended` decides and prepares like `handler`, and does the same wherever `prefetch` and
`process` of `handler` raise no fault. Where they do, `mended` may do anything. -/
structure Handler.Mends (handler mended : Handler F) : Prop where
  gas_eq : mended.gas = handler.gas
  beforeBlock_eq : mended.beforeBlock = handler.beforeBlock
  prefetch_eq : ∀ {store tx common data}, handler.prefetch store tx common = .ok data →
    mended.prefetch store tx common = .ok data
  process_eq : ∀ {store tx common data output},
    handler.process store tx common data = .ok output →
    mended.process store tx common data = .ok output

namespace Work

/-- A job whose stages raise no fault has an output. -/
theorem exists_output (hcommon : (work.commonOf handlers h).isSome = true)
    (hfault : ∀ stage, work.faultOf handlers ⟨h, tx⟩ stage = none) :
    ∃ output, work.outputOf handlers h tx = some output := by
  obtain ⟨common, hcommon⟩ := Option.isSome_iff_exists.mp hcommon
  cases hhandler : handlers[h]? with
  | none => simp [commonOf, hhandler] at hcommon
  | some handler =>
      rw [outputOf_eq tx hhandler (beforeBlock_eq hhandler hcommon)]
      have hprefetch := hfault .prefetch
      have hprocess := hfault .process
      simp only [faultOf, prefetchFault, processFault, dataOf, hhandler, hcommon,
        Option.bind_eq_bind, Option.bind_some] at hprefetch hprocess
      cases hdata : handler.prefetch work.store tx common with
      | error fault => simp [hdata] at hprefetch
      | ok data =>
          simp only [hdata, Except.toOption] at hprocess
          cases houtput : handler.process work.store tx common data with
          | error fault => simp [houtput] at hprocess
          | ok output => exact ⟨output, by simp only [houtput]⟩

theorem outputOf_eq_none {stage : Stage} {fault : Fault}
    (hfault : work.faultOf handlers job stage = some fault) :
    work.outputOf handlers job.handler job.tx = none := by
  cases stage with
  | prefetch =>
      obtain ⟨handler, common, hhandler, hcommon, herror⟩ := exists_of_prefetchFault hfault
      rw [outputOf_eq job.tx hhandler (beforeBlock_eq hhandler hcommon), herror]
  | process =>
      obtain ⟨handler, common, data, hhandler, hcommon, hdata, herror⟩ :=
        exists_of_processFault hfault
      simp [outputOf, hhandler, hcommon, hdata, herror, Except.toOption]

section Mended

variable (hmends : List.Forall₂ Handler.Mends handlers mended)

include hmends

theorem exists_mended {handler : Handler F} (hhandler : handlers[h]? = some handler) :
    ∃ other, mended[h]? = some other ∧ handler.Mends other := by
  obtain ⟨hlt, rfl⟩ := List.getElem?_eq_some_iff.mp hhandler
  have hlt' : h < mended.length := hmends.length_eq ▸ hlt
  exact ⟨mended[h], List.getElem?_eq_getElem hlt', hmends.get hlt hlt'⟩

theorem verdict_mended (rules : Rules) (tx : IndexedTx) :
    verdict mended rules tx = verdict handlers rules tx := by
  have hgas : mended.map (fun handler => handler.gas tx rules) =
      handlers.map fun handler => handler.gas tx rules := by
    induction hmends with
    | nil => rfl
    | cons hmends _ ih => rw [List.map_cons, List.map_cons, ih, hmends.gas_eq]
  rw [verdict, verdict, hgas]

theorem marks_mended (tx : IndexedTx) : work.marks mended tx = work.marks handlers tx := by
  rw [marks, marks, verdict_mended hmends]

theorem jobs_mended : work.jobs mended = work.jobs handlers := by
  simp only [jobs, decisions, marks_mended hmends]

theorem charge_mended (hash : Word) : work.charge mended hash = work.charge handlers hash := by
  have hreserved : reserved mended work.rules = reserved handlers work.rules := by
    funext tx
    rw [reserved, reserved, verdict_mended hmends]
  rw [charge, charge, lastReserved, lastReserved, hreserved]

/-- An output that a handler comes to is not changed by mending it. -/
theorem outputOf_mended {output : F.Output} (houtput : work.outputOf handlers h tx = some output) :
    work.outputOf mended h tx = some output := by
  cases hhandler : handlers[h]? with
  | none => simp [outputOf, hhandler] at houtput
  | some handler =>
      cases hbefore : handler.beforeBlock work.store work.rules work.block with
      | error fault => simp [outputOf, commonOf, hhandler, hbefore, Except.toOption] at houtput
      | ok common =>
          obtain ⟨other, hother, hmended⟩ := exists_mended hmends hhandler
          rw [outputOf_eq tx hhandler hbefore] at houtput
          rw [outputOf_eq tx hother (by rw [hmended.beforeBlock_eq, hbefore])]
          cases hprefetch : handler.prefetch work.store tx common with
          | error fault => simp [hprefetch] at houtput
          | ok data =>
              cases hprocess : handler.process work.store tx common data with
              | error fault => simp [hprefetch, hprocess] at houtput
              | ok made =>
                  simp only [hprefetch, hprocess] at houtput
                  simpa only [hmended.prefetch_eq hprefetch, hmended.process_eq hprocess]
                    using houtput

theorem resultOf_mended {output : F.Output} (houtput : work.outputOf handlers h tx = some output) :
    work.resultOf mended h tx = work.resultOf handlers h tx := by
  rw [resultOf, resultOf, marks_mended hmends, outputOf_mended hmends houtput, houtput]

theorem resultOf_mended_of_not_job (ht : tx ∈ work.block.indexed)
    (hjob : ⟨h, tx⟩ ∉ work.jobs handlers) :
    work.resultOf mended h tx = work.resultOf handlers h tx := by
  have hmark : (work.marks handlers tx)[h]? ≠ some true := fun h => hjob (mem_jobs.mpr ⟨ht, h⟩)
  rw [resultOf, resultOf, marks_mended hmends, if_neg hmark, if_neg hmark]

end Mended

end Work

/-! ## What was caught -/

/-- A stage that was run on the job has raised a fault. -/
def Caught (deeds : List Deed) (job : Job) : Prop :=
  ∃ deed ∈ deeds, deed.job = job ∧ deed.fault.isSome = true

/-- What a call has raised is one of the faults that were caught, and it has raised none only if
there was none. -/
structure Reports (deeds : List Deed) (fault : Option Fault) : Prop where
  caught : ∀ raised, fault = some raised → ∃ deed ∈ deeds, deed.fault = some raised
  missed : fault = none → ∀ deed ∈ deeds, deed.fault = none

namespace Records

variable (hr : Records handlers work phase p deeds)

include hr

/-- Nothing is processed that was not prefetched. -/
theorem eq_prefetch {deed other : Deed} (hdeed : deed ∈ deeds) (hstage : deed.stage = .prefetch)
    (hfault : deed.fault.isSome = true) (hother : other ∈ deeds) (hjob : other.job = deed.job) :
    other.stage = .prefetch := by
  obtain ⟨-, -, heq⟩ := hr.sound deed hdeed
  obtain ⟨-, hreaches, -⟩ := hr.sound other hother
  obtain ⟨fault, hsome⟩ := Option.isSome_iff_exists.mp hfault
  rw [hsome, hstage] at heq
  cases hcase : other.stage with
  | prefetch => rfl
  | process =>
      rw [hjob, hcase] at hreaches
      exact absurd hreaches (Work.not_reaches_process heq.symm)

theorem mem_jobs_of_caught (hcaught : Caught deeds job) :
    job ∈ work.jobs handlers ∧ work.outputOf handlers job.handler job.tx = none := by
  obtain ⟨deed, hdeed, rfl, hfault⟩ := hcaught
  obtain ⟨hjob, -, heq⟩ := hr.sound deed hdeed
  obtain ⟨fault, hsome⟩ := Option.isSome_iff_exists.mp hfault
  rw [hsome] at heq
  exact ⟨hjob, Work.outputOf_eq_none heq.symm⟩

theorem faultOf_eq_none (hnot : ¬ Caught deeds job) (hjob : job ∈ work.jobs handlers)
    {stage : Stage} (hpassed : job ∉ phase.outstanding p (.after stage)) :
    work.faultOf handlers job stage = none := by
  by_contra hne
  obtain ⟨fault, hfault⟩ := Option.ne_none_iff_exists'.mp hne
  have hdeed := hr.complete stage job hjob (Work.reaches_of_faultOf hfault) hpassed
  exact hnot ⟨_, hdeed, rfl, by rw [hfault]; rfl⟩

/-- When nothing is outstanding any more, the fault that is collected is one that was caught. -/
theorem reports {fault : Option Fault} (haccepted : work.Accepted handlers)
    (hpassed : ∀ stage, phase.outstanding p (.after stage) = 0)
    (hcollects : work.Collects handlers handlers.length fault) : Reports deeds fault where
  caught := by
    intro raised hraised
    obtain ⟨job, hjob, -, hraises, -⟩ := hcollects.raised raised hraised
    obtain ⟨stage, hfault⟩ := Work.raises_iff.mp hraises
    have hdeed := hr.complete stage job hjob (Work.reaches_of_faultOf hfault)
      (by rw [hpassed]; exact Multiset.notMem_zero job)
    exact ⟨_, hdeed, hfault⟩
  missed := by
    intro hnone deed hdeed
    obtain ⟨hjob, -, heq⟩ := hr.sound deed hdeed
    rw [heq]
    by_contra hne
    obtain ⟨raised, hraised⟩ := Option.ne_none_iff_exists'.mp hne
    exact hcollects.missed hnone deed.job hjob (Work.lt_of_mem_jobs haccepted hjob) raised
      (Work.raises_iff.mpr ⟨deed.stage, hraised⟩)

end Records

namespace Pipeline

/-- Whoever reads a result finds no output in it if a fault of its job was caught, or if the
transaction was declined, and the output of the reference otherwise. -/
theorem During.caught_iff (hp : p.During calm handlers past work phase)
    (hr : Records handlers work phase p deeds) (hresult : p.result? h i = .ok (some r)) :
    r = work.resultOf handlers h r.tx ∧ work.block.indexed[i]? = some r.tx ∧
      (Caught deeds ⟨h, r.tx⟩ ↔
        ⟨h, r.tx⟩ ∈ work.jobs handlers ∧ work.outputOf handlers h r.tx = none) := by
  obtain ⟨tx, htx, rfl, hlt, hsettled, hcommon⟩ := hp.settled_of_result? hresult
  refine ⟨rfl, htx, hr.mem_jobs_of_caught, ?_⟩
  rintro ⟨hjob, hnone⟩
  by_contra hnot
  obtain ⟨output, houtput⟩ := Work.exists_output (hcommon hjob) fun stage =>
    hr.faultOf_eq_none hnot hjob fun hout => hsettled (hp.traffic.mem_settled hout)
  rw [show work.outputOf handlers h _ = _ from houtput] at hnone
  cases hnone

/-- What two pipelines show of a block, the handlers of the second mended, differs in the results of
those jobs of which a fault was caught, and in nothing else. -/
structure AgreesExcept (deeds deeds' : List Deed) (q q' : Pipeline F) : Prop where
  tx_eq : ∀ {h i : Nat} {r r' : TxResult F.Output}, q.result? h i = .ok (some r) →
    q'.result? h i = .ok (some r') → r'.tx = r.tx
  caught : ∀ {h i : Nat} {r r' : TxResult F.Output}, q.result? h i = .ok (some r) →
    q'.result? h i = .ok (some r') → Caught deeds ⟨h, r.tx⟩ →
    r.output = none ∧ (¬ Caught deeds' ⟨h, r.tx⟩ → r'.output.isSome = true)
  others : ∀ {h i : Nat} {r r' : TxResult F.Output}, q.result? h i = .ok (some r) →
    q'.result? h i = .ok (some r') → ¬ Caught deeds ⟨h, r.tx⟩ → r' = r
  charges : ∀ hash, q'.charge hash = q.charge hash
  eligible : ∀ tx rules, (q'.shouldProcess tx rules).1 = (q.shouldProcess tx rules).1

theorem During.agreesExcept {past' : List (Work F)} {phase' : Phase F} {deeds' : List Deed}
    (hmends : List.Forall₂ Handler.Mends handlers mended)
    (hq : q.During True handlers past work phase) (hr : Records handlers work phase q deeds)
    (hq' : q'.During True mended past' work phase')
    (hr' : Records mended work phase' q' deeds') : AgreesExcept deeds deeds' q q' where
  tx_eq := by
    intro h i r r' hread hread'
    obtain ⟨-, htx, -⟩ := hq.caught_iff hr hread
    obtain ⟨-, htx', -⟩ := hq'.caught_iff hr' hread'
    exact Option.some.inj (htx'.symm.trans htx)
  caught := by
    intro h i r r' hread hread' hcaught
    obtain ⟨heq, htx, -⟩ := hq.caught_iff hr hread
    obtain ⟨heq', htx', hiff⟩ := hq'.caught_iff hr' hread'
    obtain ⟨hjob, hnone⟩ := hr.mem_jobs_of_caught hcaught
    have hsame : r'.tx = r.tx := Option.some.inj (htx'.symm.trans htx)
    rw [hsame] at heq' hiff
    refine ⟨by rw [heq, Work.resultOf_of_job hjob]; exact hnone, fun hnot => ?_⟩
    have hjob' : ⟨h, r.tx⟩ ∈ work.jobs mended := by rwa [Work.jobs_mended hmends]
    rw [heq', Work.resultOf_of_job hjob', Option.isSome_iff_ne_none]
    exact fun hnone' => hnot (hiff.mpr ⟨hjob', hnone'⟩)
  others := by
    intro h i r r' hread hread' hnot
    obtain ⟨heq, htx, hiff⟩ := hq.caught_iff hr hread
    obtain ⟨heq', htx', -⟩ := hq'.caught_iff hr' hread'
    have hsame : r'.tx = r.tx := Option.some.inj (htx'.symm.trans htx)
    rw [hsame] at heq'
    rw [heq, heq']
    by_cases hjob : ⟨h, r.tx⟩ ∈ work.jobs handlers
    · obtain ⟨output, houtput⟩ :=
        Option.ne_none_iff_exists'.mp fun hnone => hnot (hiff.mpr ⟨hjob, hnone⟩)
      exact Work.resultOf_mended hmends houtput
    · exact Work.resultOf_mended_of_not_job hmends (List.mem_of_getElem? htx) hjob
  charges := by
    intro hash
    rw [charge, charge, Gas.Ledger.charge, Gas.Ledger.charge, hq.ledger trivial,
      hq'.ledger trivial, Work.charge_mended hmends]
  eligible := by
    intro tx rules
    rw [shouldProcess_fst hq.crew.handlers_eq, shouldProcess_fst hq'.crew.handlers_eq,
      Work.verdict_mended hmends]

/-! ## The call that finishes a block -/

variable {config : Config} {registry : Registry F} {moves : List (Move F)} {store : F.Store}
  {fault : Option Fault}

/-- A call that has finished a block has returned in some move of its own. -/
theorem exists_return {ok : Pipeline F → Move F → Bool} (hcreate : create config registry = .ok p)
    (hrun : p.runWhile? ok moves = some q)
    (hreturned : q.calls[f]? = some (.returned (.finished fault store))) :
    ∃ before after b r, moves = before ++ .act (.caller f) :: after ∧
      p.runWhile? ok before = some b ∧ ok b (.act (.caller f)) = true ∧
      b.step? (.caller f) = some r ∧ r.calls[f]? = some (.returned (.finished fault store)) ∧
      ∃ given block receipts next, b.calls[f]? = some (.finish given block receipts next) := by
  refine runWhile?_induction (P := fun moves q =>
    q.calls[f]? = some (.returned (.finished fault store)) → ∃ before after b r,
      moves = before ++ .act (.caller f) :: after ∧ p.runWhile? ok before = some b ∧
      ok b (.act (.caller f)) = true ∧ b.step? (.caller f) = some r ∧
      r.calls[f]? = some (.returned (.finished fault store)) ∧
      ∃ given block receipts next, b.calls[f]? = some (.finish given block receipts next))
    hrun ?_ ?_ ?_ ?_ hreturned
  · intro h
    simp [calls_create hcreate] at h
  · intro moves q task _ ih _ h
    rcases getElem?_of_invoke h with h | ⟨-, heq⟩
    · obtain ⟨before, after, b, r, rfl, hrest⟩ := ih h
      exact ⟨before, after ++ [.call task], b, r, by simp, hrest⟩
    · cases task <;> cases heq
  · intro moves q actor next hrun ih hok hstep h
    obtain ⟨old, hold, hturns⟩ := exists_turned_of_step? hstep h
    cases hturns with
    | returned =>
        obtain ⟨before, after, b, r, rfl, hrest⟩ := ih hold
        exact ⟨before, after ++ [.act actor], b, r, by simp, hrest⟩
    | finished given _ block receipts point _ =>
        obtain rfl : actor = .caller f := by
          by_contra hne
          rw [getElem?_calls_of_step? hstep hne, hold] at h
          cases h
        exact ⟨moves, [], q, next, rfl, hrun, hok, hstep, h, given, block, receipts, point, hold⟩
  · intro moves q d reason next hrun ih hdeny h
    have hother : f ≠ d := by
      rintro rfl
      rw [getElem?_of_deny? hdeny] at h
      cases h
    rw [getElem?_calls_of_deny? hdeny hother] at h
    obtain ⟨before, after, b, r, rfl, hrest⟩ := ih h
    exact ⟨before, after ++ [.deny d reason], b, r, by simp, hrest⟩

/-- Between two blocks there is nothing to finish. -/
theorem Between.finished {given : F.Store} {block : Block} {receipts : List Receipt}
    {next : Finishing} (hp : p.Between calm handlers past)
    (hcall : p.calls[f]? = some (.finish given block receipts next))
    (hstep : p.step? (.caller f) = some q)
    (hreturned : q.calls[f]? = some (.returned (.finished fault store))) : fault = none := by
  obtain ⟨rfl, hactive⟩ := hp.eq_take hcall
  rw [step?_of_finish hcall] at hstep
  cases finishMove_of_stepFinish? hstep with
  | miss =>
      rw [getElem?_of_set_calls hcall rfl] at hreturned
      cases hreturned
      rfl
  | take active _ hsome => simp [hactive] at hsome
  | mismatch active _ hsome => simp [hactive] at hsome

/-- With the move by which the block is done, all that was caught for it is known. -/
theorem During.reports {given : F.Store} {block : Block} {receipts : List Receipt}
    {next : Finishing} (hp : p.During calm handlers past work phase) (hon : phase.isOn = true)
    (hr : Records handlers work phase p deeds) (hgoes : p.Proceeds calm (.caller f))
    (hcall : p.calls[f]? = some (.finish given block receipts next))
    (hstep : p.step? (.caller f) = some q)
    (hreturned : q.calls[f]? = some (.returned (.finished fault store))) :
    Reports deeds fault := by
  rw [step?_of_finish hcall] at hstep
  rcases hp.eq_finishing hcall with ⟨rfl, rfl | ⟨_, _, rfl⟩⟩ | ⟨origin, rfl⟩
  · have hsame := (hp.take hcall hstep).finish_eq
    rw [hreturned] at hsame
    cases hsame
  · cases hon
  rcases hp.stepFinish? hgoes hstep with ⟨_, _, hq⟩ | ⟨-, active, kept, rfl, hkept, -, hcollects⟩
  · have hsame := hq.finish_eq
    rw [hreturned] at hsame
    cases hsame
  rw [hreturned] at hkept
  cases hkept
  refine hr.reports hp.accepted (fun stage => ?_) hcollects
  rw [Phase.outstanding, hp.load_eq_zero_of_leaving]
  rfl

/-- What a call comes to that finishes a block: no block was in work, or it has raised what was
caught since the call that started the block, which was made after all calls before it had finished
theirs. -/
theorem reports_of_cleanRun? {given : F.Store} {block : Block} {receipts : List Receipt}
    {next : Finishing} (hcreate : create config registry = .ok p)
    (hrun : p.cleanRun? moves = some q) (hraises : q.raises (.caller f) = false)
    (hcall : q.calls[f]? = some (.finish given block receipts next))
    (hstep : q.step? (.caller f) = some q')
    (hreturned : q'.calls[f]? = some (.returned (.finished fault store))) :
    (∀ c, ¬ q.InWork c) ∧ fault = none ∨ ∃ c, q.InWork c ∧
      (∀ (g : Nat) (other : Option Fault) (made : F.Store),
        q.calls[g]? = some (.returned (.finished other made)) → g < c) ∧
      Reports (p.deedsSince c moves) fault := by
  cases Chronicle.of_cleanRun? hcreate hrun with
  | between past hq hover =>
      exact .inl ⟨fun c hwork => hwork.2 (hover c hwork.1), hq.finished hcall hstep hreturned⟩
  | starting past work c next hq _ _ _ =>
      rcases hq.eq_finishing hcall with ⟨-, h | ⟨_, _, h⟩⟩ | ⟨_, h⟩ <;> cases h
  | started past work phase c _ _ htask hstarted _ hnot =>
      have hwork : q.InWork c := ⟨⟨_, hstarted.returned, rfl⟩, hnot⟩
      obtain ⟨past', phase', hq, hon, hr⟩ := exists_records work hcreate hrun htask hwork
      refine .inr ⟨c, hwork, ?_, hq.reports hon hr (.of_clean hraises) hcall hstep hreturned⟩
      intro g other made hg
      by_contra hge
      rcases Nat.lt_or_eq_of_le (Nat.le_of_not_lt hge) with hlt | rfl
      · exact hnot ⟨g, other, made, hlt, hg⟩
      · rw [hstarted.returned] at hg
        cases hg

theorem During.accepted_of_starting {next : Starting}
    (hp : p.During calm handlers past work (.starting c next)) : p.Accepted c := by
  refine ⟨_, hp.call_eq, ?_⟩
  have hvalid := hp.valid
  cases next <;> first | exact hvalid.elim | rfl

/-! ## Containment -/

/-- Every result of a block can be read once no thread can move any more. -/
theorem During.exists_result (hp : p.During calm handlers past work .started)
    (horderly : p.Orderly) (hhalted : p.Halted)
    (hbefore : ∀ handler ∈ handlers, ∃ common,
      handler.beforeBlock work.store work.rules work.block = .ok common)
    (hh : h < handlers.length) (hi : i < work.block.length) :
    ∃ r, p.result? h i = .ok (some r) := by
  have hload := hp.load_eq_zero_of_halted (by simp) hhalted hbefore horderly
  have hlength : i < (work.resultsOf handlers h).length := by
    rwa [Work.resultsOf, List.length_map, Block.length_indexed]
  exact ⟨_, hp.holdsResults (by simp) hload (fun h => ⟨_, rfl, rfl⟩) h i _ hh
    (List.getElem?_eq_getElem hlength)⟩

/-- Faults of `prefetch` and `process` are contained. Nothing is processed on which `prefetch` has
failed. When no thread can move any more every result can be read, also those of jobs that have
failed; and whatever the schedules, compared with a pipeline whose handlers fail less often, exactly
the results of those jobs have no output, while all other results, the charges and the decisions
about transactions are the same. A call that finishes a block raises a fault if and only if one was
caught since the call that started this block, and it raises one of those. Nothing is run while no
block is in work. -/
theorem faults_contained (hcreate : create config registry = .ok p)
    (hrun : p.cleanRun? moves = some q) :
    (∀ (c : Nat) (work : Work F), (tasks moves)[c]? = some work.task → q.InWork c →
      (∀ deed ∈ p.deedsSince c moves, deed.stage = .prefetch → deed.fault.isSome = true →
        ∀ other ∈ p.deedsSince c moves, other.job = deed.job → other.stage = .prefetch) ∧
      ((∀ handler ∈ registry.handlers, ∃ common,
          handler.beforeBlock work.store work.rules work.block = .ok common) →
        q.isQuiet = true → q.Halted → ∀ h i, h < registry.handlers.length →
        i < work.block.length → ∃ r, q.result? h i = .ok (some r)) ∧
      ∀ {config' : Config} {registry' : Registry F} {p' q' : Pipeline F} {moves' : List (Move F)}
        {c' : Nat}, List.Forall₂ Handler.Mends registry.handlers registry'.handlers →
        create config' registry' = .ok p' → p'.cleanRun? moves' = some q' →
        (tasks moves')[c']? = some work.task → q'.InWork c' →
        AgreesExcept (p.deedsSince c moves) (p'.deedsSince c' moves') q q') ∧
    ((∀ c, ¬ q.InWork c) → ∀ actor r, q.step? actor = some r → q.deeds actor = []) ∧
    ∀ (f : Nat) (fault : Option Fault) (store : F.Store),
      q.calls[f]? = some (.returned (.finished fault store)) →
      ∃ before after b r, moves = before ++ .act (.caller f) :: after ∧
        p.cleanRun? before = some b ∧ b.step? (.caller f) = some r ∧
        b.hasReturned f = false ∧ r.hasReturned f = true ∧
        ((∀ c, ¬ b.InWork c) ∧ fault = none ∨ ∃ c, b.InWork c ∧
          (∀ (g : Nat) (other : Option Fault) (made : F.Store),
            b.calls[g]? = some (.returned (.finished other made)) → g < c) ∧
          Reports (p.deedsSince c before) fault) := by
  refine ⟨fun c work htask hwork => ?_, fun hnone actor r hstep => ?_,
    fun f fault store hreturned => ?_⟩
  · obtain ⟨past, phase, hq, -, hr⟩ := exists_records work hcreate hrun htask hwork
    refine ⟨fun deed hdeed hstage hfault other hother hjob =>
      hr.eq_prefetch hdeed hstage hfault hother hjob, fun hbefore hquiet hhalted h i hh hi => ?_,
      fun hmends hcreate' hrun' htask' hwork' => ?_⟩
    · obtain ⟨past', phase', hq', -, hstarted⟩ := exists_phase work hcreate hrun htask hwork
      obtain rfl := hstarted hquiet
      exact hq'.exists_result (orderly_of_run? (orderly_create hcreate) (run?_of_cleanRun? hrun))
        hhalted hbefore hh hi
    · obtain ⟨past', phase', hq', -, hr'⟩ := exists_records work hcreate' hrun' htask' hwork'
      exact hq.agreesExcept hmends hr hq' hr'
  · cases Chronicle.of_cleanRun? hcreate hrun with
    | between past hq _ => exact hq.deeds_eq_nil hstep
    | starting past work c next hq _ _ hnot =>
        exact absurd ⟨hq.accepted_of_starting, hnot⟩ (hnone c)
    | started past work phase c _ _ _ hstarted _ hnot =>
        exact absurd ⟨⟨_, hstarted.returned, rfl⟩, hnot⟩ (hnone c)
  · rw [cleanRun?_eq] at hrun
    obtain ⟨before, after, b, r, hmoves, hb, hok, hstep, hlast, given, block, receipts, next,
      hcall⟩ := exists_return hcreate hrun hreturned
    rw [← cleanRun?_eq] at hb
    refine ⟨before, after, b, r, hmoves, hb, hstep, by simp [hasReturned, hcall, Call.isReturned],
      by simp [hasReturned, hlast, Call.isReturned], ?_⟩
    exact reports_of_cleanRun? hcreate hb (by simpa [isClean] using hok) hcall hstep hlast

end Pipeline

/-! ## A run -/

namespace Sample

open Pipeline

/-- The handler `adder`, but it cannot process anything. -/
def tripping : Handler flow :=
  { adder with process := fun _ _ _ _ => .error (.raised "tripped") }

def trippers : Registry flow := ⟨[tripping]⟩

theorem tripping_mends : tripping.Mends adder where
  gas_eq := rfl
  beforeBlock_eq := rfl
  prefetch_eq := fun h => h
  process_eq := fun h => by cases h

end Sample

open Pipeline Sample in
/-- Of the two results of `pair`, the one that is worked on has no output because of a fault that
was caught, and the block is finished with such a fault. -/
theorem faults_contained_tripped : ∃ q q' r r',
    (ofConfig oneEach trippers).cleanRun? started = some q ∧
    (ofConfig oneEach adders).cleanRun? started = some q' ∧ q.InWork 0 ∧ q'.InWork 0 ∧
    q.result? 0 0 = .ok (some r) ∧ q'.result? 0 0 = .ok (some r') ∧
    r.output = none ∧ r'.output = some 6 ∧
    Caught ((ofConfig oneEach trippers).deedsSince 0 started) ⟨0, r.tx⟩ ∧
    (∀ hash, q'.charge hash = q.charge hash) ∧
    ∃ fault c before, Reports ((ofConfig oneEach trippers).deedsSince c before) (some fault) := by
  obtain ⟨q, hrun, hwork, r, hr, hnone⟩ : ∃ q,
      (ofConfig oneEach trippers).cleanRun? started = some q ∧ q.InWork 0 ∧
        ∃ r, q.result? 0 0 = .ok (some r) ∧ r.output = none := by
    decide +kernel
  obtain ⟨q', hrun', hwork', r', hr', hsome⟩ : ∃ q',
      (ofConfig oneEach adders).cleanRun? started = some q' ∧ q'.InWork 0 ∧
        ∃ r', q'.result? 0 0 = .ok (some r') ∧ r'.output = some 6 := by
    decide +kernel
  obtain ⟨last, hlast, ⟨fault, store⟩, houtcome, hfault⟩ : ∃ last,
      (ofConfig oneEach trippers).cleanRun? finished = some last ∧
        ∃ outcome, last.outcome? 1 = some outcome ∧ outcome.1.isSome = true := by
    decide +kernel
  have hcreate : create oneEach trippers = .ok (ofConfig oneEach trippers) := rfl
  have htask : (tasks started)[0]? = some (Work.task ⟨(3 : Nat), .latest, pair⟩) := rfl
  obtain ⟨-, -, hagrees⟩ := (faults_contained hcreate hrun).1 0 _ htask hwork
  have hagrees := hagrees (.cons tripping_mends .nil)
    (show create oneEach adders = .ok (ofConfig oneEach adders) from rfl) hrun' htask hwork'
  refine ⟨q, q', r, r', hrun, hrun', hwork, hwork', hr, hr', hnone, hsome, ?_, hagrees.charges, ?_⟩
  · by_contra hnot
    rw [hagrees.others hr hr' hnot, hnone] at hsome
    cases hsome
  · obtain ⟨raised, rfl⟩ := Option.isSome_iff_exists.mp hfault
    obtain ⟨before, -, b, -, -, -, -, -, -, ⟨-, hnone⟩ | ⟨c, -, -, hreports⟩⟩ :=
      (faults_contained hcreate hlast).2.2 1 _ _ (calls_of_outcome? houtcome)
    · cases hnone
    · exact ⟨raised, c, before, hreports⟩

end TxPipeline
