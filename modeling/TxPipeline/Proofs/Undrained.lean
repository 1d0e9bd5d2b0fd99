import TxPipeline.Proofs.Containment
import TxPipeline.Proofs.Noninterference
import TxPipeline.Proofs.Settlement

/-!
# Streams that are not drained

A handler may read as little of its two streams as it likes, and give them up. Only its own
aggregate depends on that: the results, the charges, the faults that are raised and the order in
which the store is changed are as if it had read everything, every thread ends, and nothing is left
for a later block.
-/

namespace TxPipeline

variable {F : Flow} {handlers : List (Handler F)} {past : List (Work F)} {work : Work F}
  {phase : Phase F} {p q : Pipeline F} {actor : Actor} {c h : Nat} {tx : IndexedTx} {job : Job}
  {reads : Nat → F.Common → Nat → Reader (TxResult F.Output) F.Aggregate}

/-! ## Other ways to read -/

/-- The handlers, each with another way to read its streams. -/
def rereading (reads : Nat → F.Common → Nat → Reader (TxResult F.Output) F.Aggregate)
    (handlers : List (Handler F)) : List (Handler F) :=
  handlers.mapIdx fun h handler => { handler with postProcess := reads h }

theorem getElem?_rereading (h : Nat) : (rereading reads handlers)[h]? =
    (handlers[h]?).map fun handler => { handler with postProcess := reads h } :=
  List.getElem?_mapIdx

theorem length_rereading : (rereading reads handlers).length = handlers.length :=
  List.length_mapIdx

theorem verdict_rereading (rules : Rules) (tx : IndexedTx) :
    verdict (rereading reads handlers) rules tx = verdict handlers rules tx := by
  have hgas : (rereading reads handlers).map (fun handler => handler.gas tx rules) =
      handlers.map fun handler => handler.gas tx rules := by
    refine List.ext_getElem? fun h => ?_
    rw [List.getElem?_map, getElem?_rereading, List.getElem?_map, Option.map_map]
    rfl
  rw [verdict, verdict, hgas]

theorem settledStore_rereading (block : Block) (receipts : List Receipt) (origin : F.Store)
    (given : List (Nat × F.Aggregate)) :
    settledStore (rereading reads handlers) block receipts origin given =
      settledStore handlers block receipts origin given := by
  rw [settledStore, settledStore]
  congr 1
  funext store entry
  rw [getElem?_rereading]
  cases handlers[entry.1]? <;> rfl

namespace Work

theorem marks_rereading (tx : IndexedTx) :
    work.marks (rereading reads handlers) tx = work.marks handlers tx := by
  rw [marks, marks, verdict_rereading]

theorem jobs_rereading : work.jobs (rereading reads handlers) = work.jobs handlers := by
  simp only [jobs, decisions, marks_rereading]

theorem charge_rereading (hash : Word) :
    work.charge (rereading reads handlers) hash = work.charge handlers hash := by
  have hreserved :
      reserved (rereading reads handlers) work.rules = reserved handlers work.rules := by
    funext tx
    rw [reserved, reserved, verdict_rereading]
  rw [charge, charge, lastReserved, lastReserved, hreserved]

theorem commonOf_rereading (h : Nat) :
    work.commonOf (rereading reads handlers) h = work.commonOf handlers h := by
  rw [commonOf, commonOf, getElem?_rereading]
  cases handlers[h]? <;> rfl

theorem dataOf_rereading (h : Nat) (tx : IndexedTx) :
    work.dataOf (rereading reads handlers) h tx = work.dataOf handlers h tx := by
  rw [dataOf, dataOf, commonOf_rereading, getElem?_rereading]
  cases handlers[h]? <;> rfl

theorem outputOf_rereading (h : Nat) (tx : IndexedTx) :
    work.outputOf (rereading reads handlers) h tx = work.outputOf handlers h tx := by
  rw [outputOf, outputOf, commonOf_rereading, dataOf_rereading, getElem?_rereading]
  cases handlers[h]? <;> rfl

theorem resultOf_rereading (h : Nat) (tx : IndexedTx) :
    work.resultOf (rereading reads handlers) h tx = work.resultOf handlers h tx := by
  rw [resultOf, resultOf, marks_rereading, outputOf_rereading]

theorem resultsOf_rereading (h : Nat) :
    work.resultsOf (rereading reads handlers) h = work.resultsOf handlers h :=
  List.map_congr_left fun tx _ => resultOf_rereading h tx

theorem prefetchFault_rereading (job : Job) :
    work.prefetchFault (rereading reads handlers) job = work.prefetchFault handlers job := by
  rw [prefetchFault, prefetchFault, commonOf_rereading, getElem?_rereading]
  cases handlers[job.handler]? with
  | none => rfl
  | some handler => cases work.commonOf handlers job.handler <;> rfl

theorem processFault_rereading (job : Job) :
    work.processFault (rereading reads handlers) job = work.processFault handlers job := by
  rw [processFault, processFault, commonOf_rereading, dataOf_rereading, getElem?_rereading]
  cases handlers[job.handler]? with
  | none => rfl
  | some handler =>
      cases work.commonOf handlers job.handler <;>
        cases work.dataOf handlers job.handler job.tx <;> rfl

theorem raises_rereading : work.Raises (rereading reads handlers) = work.Raises handlers := by
  funext job fault
  rw [Raises, Raises, prefetchFault_rereading, processFault_rereading]

theorem Collects.of_rereading {k : Nat} {kept : Option Fault}
    (hc : work.Collects (rereading reads handlers) k kept) : work.Collects handlers k kept := by
  obtain ⟨raised, missed⟩ := hc
  rw [jobs_rereading, raises_rereading] at raised missed
  exact ⟨raised, missed⟩

end Work

namespace Pipeline

/-! ## Clean runs are steady -/

/-- No block is left before it is reset if only worker stages raise faults. -/
theorem Chronicle.cutsShort_eq_false {ts : List (Task F)} (hp : Chronicle True handlers ts p)
    (hraises : p.raises actor = false) (hstep : p.step? actor = some q) :
    p.cutsShort actor = false := by
  by_contra hcut
  have hcut : p.cutsShort actor = true := by simpa using hcut
  obtain ⟨f, given, block, receipts, next, fault, store, rfl, hcall, hleaving, hreturned⟩ :=
    exists_of_cutsShort hcut hstep
  cases hp with
  | between past hq _ => cases hq.finished hcall hstep hreturned
  | starting past work d next' hq _ _ _ =>
      rcases hq.eq_finishing hcall with ⟨-, h | ⟨_, _, h⟩⟩ | ⟨_, h⟩ <;> cases h
  | started past work phase d hq hphase _ _ _ _ =>
      rcases hq.eq_finishing hcall with ⟨-, rfl | ⟨_, _, rfl⟩⟩ | ⟨origin, rfl⟩
      · rw [hq.cutsShort_of_started hstep] at hcut
        cases hcut
      · cases hphase
      · rcases hq.stepFinish? (.of_clean hraises) ((step?_of_finish hcall).symm.trans hstep) with
          ⟨_, _, hr⟩ | ⟨-, active, kept, rfl, -⟩
        · have hgoes := hr.finish_eq
          rw [hreturned] at hgoes
          cases hgoes
        · cases hleaving

variable {config : Config} {registry : Registry F} {moves : List (Move F)}

theorem steadyRun?_of_cleanRun? (hcreate : create config registry = .ok p)
    (hrun : p.cleanRun? moves = some q) : p.steadyRun? moves = some q := by
  refine cleanRun?_induction (P := fun moves q => p.steadyRun? moves = some q) hrun rfl ?_ ?_ ?_
  · intro moves q task _ hq hadmits
    rw [steadyRun?, runWhile?_append, ← steadyRun?, hq, Option.bind_some, runWhile?,
      if_pos (by exact hadmits)]
    rfl
  · intro moves q actor next hr hq hraises hstep
    have hsteady : q.isSteady (.act actor) = true := by
      rw [isSteady, (Chronicle.of_cleanRun? hcreate hr).cutsShort_eq_false hraises hstep]
      rfl
    rw [steadyRun?, runWhile?_append, ← steadyRun?, hq, Option.bind_some, runWhile?, if_pos hsteady]
    exact Option.bind_eq_some_iff.mpr ⟨next, hstep, rfl⟩
  · intro moves q c reason next hr hq hdeny
    have hsteady : q.isSteady (.deny c reason) = true := rfl
    rw [steadyRun?, runWhile?_append, ← steadyRun?, hq, Option.bind_some, runWhile?, if_pos hsteady]
    exact Option.bind_eq_some_iff.mpr ⟨next, hdeny, rfl⟩

/-! ## Two runs -/

/-- The threads of the blocks before have ended, however these were read. -/
theorem During.ended_of_lt {calm : Prop} {s : Station F} {l : Lane F} {lane : Nat}
    (hp : p.During calm handlers past work phase) (hs : p.stations[h]? = some s)
    (hl : s.lanes[lane]? = some l) (hlt : lane < past.length) : l.Ended := by
  have hfits := hp.stations h s hs
  cases hberth : phase.berth work.block.length h with
  | unopened =>
      rw [hberth] at hfits
      exact ended_of_done hfits.2 (List.mem_of_getElem? hl)
  | closed =>
      rw [hberth] at hfits
      exact ended_of_done hfits.2 (List.mem_of_getElem? hl)
  | serving progress =>
      rw [hberth] at hfits
      obtain ⟨old, last, hlanes, hold, -⟩ := hfits
      rw [hlanes, List.getElem?_append_left (hold.length_eq ▸ hlt)] at hl
      exact ended_of_done hold (List.mem_of_getElem? hl)

/-- What two pipelines show of a block when their handlers differ in how they read. -/
structure Resembles (work : Work F) (q q' : Pipeline F) : Prop where
  result : ∀ {h i : Nat} {r r' : TxResult F.Output}, q.result? h i = .ok (some r) →
    q'.result? h i = .ok (some r') → r' = r
  eligibility : ∀ tx ∈ work.block.indexed, ∀ h,
    q'.eligibility work.rules tx h = q.eligibility work.rules tx h
  charges : ∀ hash, q'.charge hash = q.charge hash
  announced : ∀ (h : Nat) s s' l l', q.stations[h]? = some s → q'.stations[h]? = some s' →
    s.lanes[q.lastLane]? = some l → s'.lanes[q'.lastLane]? = some l' →
    (∀ r ∈ l.completions.sent, ∀ r' ∈ l'.completions.sent, r.index = r'.index → r' = r) ∧
      (s.remaining = 0 → s'.remaining = 0 → l.completions.sent.Perm l'.completions.sent)

theorem During.resembles {past' : List (Work F)} {phase' : Phase F} {q' : Pipeline F}
    (hq : q.During True handlers past work phase)
    (hq' : q'.During True (rereading reads handlers) past' work phase') :
    Resembles work q q' where
  result := by
    intro h i r r' hread hread'
    obtain ⟨tx, htx, rfl, -⟩ := hq.result? hread
    obtain ⟨tx', htx', rfl, -⟩ := hq'.result? hread'
    cases htx.symm.trans htx'
    rw [Work.resultOf_rereading]
  eligibility := by
    intro tx ht h
    rw [hq.eligibility_eq ht, hq'.eligibility_eq ht, Work.marks_rereading]
  charges := by
    intro hash
    rw [charge, charge, Gas.Ledger.charge, Gas.Ledger.charge, hq.ledger trivial,
      hq'.ledger trivial, Work.charge_rereading]
  announced := by
    intro h s s' l l' hs hs' hl hl'
    rw [hq.lastLane_eq] at hl
    rw [hq'.lastLane_eq] at hl'
    have hcovers := hq.covers hs hl
    have hcovers' := hq'.covers hs' hl'
    rw [Work.resultsOf_rereading] at hcovers'
    refine ⟨fun r hr r' hr' hindex => ?_, fun hzero hzero' => ?_⟩
    · have hget := Work.getElem?_of_mem_resultsOf hq.length_le (hcovers.mem_of_announced hr)
      rw [hindex,
        Work.getElem?_of_mem_resultsOf hq.length_le (hcovers'.mem_of_announced hr')] at hget
      exact Option.some.inj hget
    · exact (hcovers.perm_of_remaining hzero).trans (hcovers'.perm_of_remaining hzero').symm

/-! ## In a run -/

/-- `postProcess` may stop reading wherever it likes, and give up its streams. Whatever it and those
of earlier blocks have read, the streams carry the results of the block, and nothing else is read
from them. No schedule goes on for ever, and when no thread can move all of them have ended, all
results are written, and every call has returned. Compared with a pipeline whose handlers read in
any other way, for instance everything, the results, the decisions and the charges are the same. So
is what comes of the call that finishes the block: whether it raises a fault, and of which handler,
the order in which it runs `afterBlock`, and what the ledger holds then. The stores are what the
same `afterBlock` make of the aggregates. -/
theorem reading_may_stop (hcreate : create config registry = .ok p)
    (hrun : p.cleanRun? moves = some q) (htask : (tasks moves)[c]? = some work.task)
    (hwork : q.InWork c) :
    (∀ (h : Nat) s, q.stations[h]? = some s →
      (∀ (lane : Nat) l, s.lanes[lane]? = some l → lane < q.lastLane → l.Ended) ∧
      ∀ l, s.lanes[q.lastLane]? = some l →
        s.Covers q.lastLane l (work.resultsOf registry.handlers h) ∧
        ∀ reader, s.Reaches l reader → ∃ common completed i j,
          s.handler.beforeBlock work.store work.rules work.block = .ok common ∧
          l.completions.sent <+: completed ∧ completed.Perm (work.resultsOf registry.handlers h) ∧
          Reader.Follows (work.resultsOf registry.handlers h) completed
            (s.handler.postProcess common work.block.length) reader i j) ∧
    ((∀ handler ∈ registry.handlers, ∃ common,
        handler.beforeBlock work.store work.rules work.block = .ok common) →
      (q.isQuiet = true → q.Halted → q.HoldsResults registry.handlers work) ∧
      (q.calls[c]? = some (.returned (.started (.ok ()))) →
        (∃ bound, ∀ (actors : List Actor) (r : Pipeline F), q.run? (actors.map .act) = some r →
          actors.length ≤ bound) ∧
        ∀ (actors : List Actor) (r : Pipeline F), q.run? (actors.map .act) = some r →
          (r.Halted → r.Exhausted registry.handlers work) ∧
          (r.Stuck → ∀ call ∈ r.calls, call.isReturned = true))) ∧
    ∀ (reads : Nat → F.Common → Nat → Reader (TxResult F.Output) F.Aggregate) {config' : Config}
      {p' q' : Pipeline F} {moves' : List (Move F)} {c' : Nat},
      create config' ⟨rereading reads registry.handlers⟩ = .ok p' →
      p'.cleanRun? moves' = some q' → (tasks moves')[c']? = some work.task → q'.InWork c' →
      Resembles work q q' ∧
      ∀ {origin : F.Store} {executed : Block} {receipts : List Receipt}
        {after after' : List (Move F)} {r r' : Pipeline F} {fault fault' : Option Fault}
        {store store' : F.Store},
        q.cleanRun? (.call (.finish origin executed receipts) :: after) = some r →
        after.getLast? = some (.act (.caller q.calls.length)) →
        r.calls[q.calls.length]? = some (.returned (.finished fault store)) →
        q'.cleanRun? (.call (.finish origin executed receipts) :: after') = some r' →
        after'.getLast? = some (.act (.caller q'.calls.length)) →
        r'.calls[q'.calls.length]? = some (.returned (.finished fault' store')) →
        fault.isSome = fault'.isSome ∧
        (∀ f f', fault = some f → fault' = some f' → ∃ h,
          work.RaisedFirstBy registry.handlers h f ∧ work.RaisedFirstBy registry.handlers h f') ∧
        (∀ hash, r.charge hash = .error (.unknownTransaction hash) ∧
          r'.charge hash = .error (.unknownTransaction hash)) ∧
        ∃ given given', given = q.collect settlements (.call (.finish origin executed receipts) ::
            after) ∧
          given' = q'.collect settlements (.call (.finish origin executed receipts) :: after') ∧
          given.map Prod.fst = List.range registry.handlers.length ∧
          given'.map Prod.fst = given.map Prod.fst ∧
          store = settledStore registry.handlers executed receipts origin given ∧
          store' = settledStore registry.handlers executed receipts origin given' := by
  obtain ⟨past, phase, hq, -, hstarted⟩ := exists_phase work hcreate hrun htask hwork
  have horderly := orderly_of_run? (orderly_create hcreate) (run?_of_cleanRun? hrun)
  refine ⟨fun h s hs => ?_, fun hbefore => ⟨fun hquiet hhalted => ?_, fun hreturned => ?_⟩,
    fun reads config' p' q' moves' c' hcreate' hrun' htask' hwork' => ?_⟩
  · rw [hq.lastLane_eq]
    exact ⟨fun lane l hl hlt => hq.ended_of_lt hs hl hlt, fun l hl =>
      ⟨hq.covers hs hl, fun reader hreaches => hq.follows hs hl hreaches⟩⟩
  · obtain rfl := hstarted hquiet
    have hload := hq.load_eq_zero_of_halted (by simp) hhalted hbefore horderly
    exact hq.holdsResults (by simp) hload fun h => ⟨_, rfl, rfl⟩
  · have hsteady := steadyRun?_of_cleanRun? hcreate hrun
    have hchronicle := Chronicle.of_steadyRun? hcreate hsteady
    obtain ⟨past', hp⟩ := hchronicle.aftermath htask hreturned hwork.2
    refine ⟨⟨q.effort registry.handlers work, fun actors r hr => ?_⟩, fun actors r hr => ?_⟩
    · exact (Nat.le_add_right _ _).trans (hp.length_le_effort hr)
    · have hlater := hp.run? hr
      have horderly := orderly_of_run? horderly hr
      exact ⟨hlater.exhausted horderly hbefore, hlater.isReturned_of_stuck horderly hbefore⟩
  · obtain ⟨past', phase', hq', -, hstarted'⟩ := exists_phase work hcreate' hrun' htask' hwork'
    refine ⟨hq.resembles hq', ?_⟩
    intro origin executed receipts after after' r r' fault fault' store store' hr hlast hcall hr'
      hlast' hcall'
    obtain ⟨hsettles, hcollects, hledger⟩ := settles_of_return hq hstarted hr hlast hcall
    obtain ⟨hsettles', hcollects', hledger'⟩ := settles_of_return hq' hstarted' hr' hlast' hcall'
    rw [length_rereading] at hcollects' hsettles'
    have hcollects' := hcollects'.of_rereading
    refine ⟨hcollects.isSome_eq hcollects', fun f f' hf hf' => ?_,
      fun hash => ⟨hledger hash, hledger' hash⟩, _, _, rfl, rfl, hsettles.order,
      hsettles'.order.trans hsettles.order.symm, hsettles.store_eq, ?_⟩
    · obtain rfl := hf
      obtain rfl := hf'
      exact hcollects.exists_first_of_both hcollects'
    · rw [hsettles'.store_eq, settledStore_rereading]

end Pipeline

/-! ## A run -/

namespace Sample

open Pipeline

/-- A way to read everything, and to make of it what `adder` makes of the first result. -/
def thorough (_ _ n : Nat) : Reader (TxResult Nat) Nat :=
  .drain n fun byIndex _ => .ok (((byIndex.getD []).head?.bind (·.output)).getD 0)

/-- All that is left to do for the block of `started` if everything is read, and the moves of the
call that finishes it. -/
def drained : List (Move flow) :=
  List.map .act (List.flatten [.replicate 4 (.replay 0 0), .replicate 8 (.aggregation 0 0),
    .replicate 14 (.caller 1)])

end Sample

open Pipeline Sample in
/-- The handler `adder` has stopped reading after one result, and finishes its block like one that
has read everything. -/
theorem reading_may_stop_finished : ∃ q q' r r' : Pipeline flow,
    (ofConfig oneEach adders).cleanRun? started = some q ∧
    (ofConfig oneEach ⟨rereading thorough adders.handlers⟩).cleanRun? started = some q' ∧
    q.cleanRun? (.call (.finish (3 : Nat) pair []) :: concluding 1) = some r ∧
    q'.cleanRun? (.call (.finish (3 : Nat) pair []) :: drained) = some r' ∧
    r.outcome? 1 = some (none, 9) ∧ r'.outcome? 1 = some (none, 9) ∧
    Resembles ⟨(3 : Nat), .latest, pair⟩ q q' ∧
    (q.collect settlements (.call (.finish (3 : Nat) pair []) :: concluding 1)).map Prod.fst = [0] ∧
    (q'.collect settlements (.call (.finish (3 : Nat) pair []) :: drained)).map Prod.fst = [0] := by
  obtain ⟨q, hrun, hwork, hlength, r, hr, houtcome⟩ : ∃ q,
      (ofConfig oneEach adders).cleanRun? started = some q ∧ q.InWork 0 ∧ q.calls.length = 1 ∧
        ∃ r, q.cleanRun? (.call (.finish (3 : Nat) pair []) :: concluding 1) = some r ∧
          r.outcome? 1 = some (none, 9) := by
    decide +kernel
  obtain ⟨q', hrun', hwork', hlength', r', hr', houtcome'⟩ : ∃ q',
      (ofConfig oneEach ⟨rereading thorough adders.handlers⟩).cleanRun? started = some q' ∧
        q'.InWork 0 ∧ q'.calls.length = 1 ∧
        ∃ r', q'.cleanRun? (.call (.finish (3 : Nat) pair []) :: drained) = some r' ∧
          r'.outcome? 1 = some (none, 9) := by
    decide +kernel
  have htask : (tasks started)[0]? = some (Work.task ⟨(3 : Nat), .latest, pair⟩) := rfl
  obtain ⟨-, -, hother⟩ := reading_may_stop (show create oneEach adders = .ok _ from rfl) hrun htask
    hwork
  obtain ⟨hresembles, hfinishes⟩ := hother thorough
    (show create oneEach ⟨rereading thorough adders.handlers⟩ = .ok _ from rfl) hrun' htask hwork'
  have hcall := calls_of_outcome? houtcome
  have hcall' := calls_of_outcome? houtcome'
  rw [← hlength] at hcall
  rw [← hlength'] at hcall'
  obtain ⟨-, -, -, given, given', rfl, rfl, horder, horder', -⟩ := hfinishes hr
    (by rw [hlength]; rfl) hcall hr' (by rw [hlength']; rfl) hcall'
  exact ⟨q, q', r, r', hrun, hrun', hr, hr', houtcome, houtcome', hresembles, horder,
    horder'.trans horder⟩

end TxPipeline
