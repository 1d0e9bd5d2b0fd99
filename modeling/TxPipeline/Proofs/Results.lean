import TxPipeline.Pipeline.Schedule
import TxPipeline.Proofs.Invariant.Run

/-!
# Results

Two pools of workers race through two queues, and yet a result depends on nothing but the handler,
the transaction, the block and the store that the block was started with.
-/

namespace TxPipeline

variable {F : Flow} {handlers : List (Handler F)} {past : List (Work F)} {work : Work F}
  {phase : Phase F} {calm : Prop} {p q : Pipeline F} {c h i : Nat} {r : TxResult F.Output}

theorem Work.beforeBlock_eq {handler : Handler F} {common : F.Common}
    (hhandler : handlers[h]? = some handler) (hcommon : work.commonOf handlers h = some common) :
    handler.beforeBlock work.store work.rules work.block = .ok common := by
  cases hbefore : handler.beforeBlock work.store work.rules work.block with
  | error fault => simp [Work.commonOf, hhandler, hbefore, Except.toOption] at hcommon
  | ok made =>
      obtain rfl : made = common := by
        simpa [Work.commonOf, hhandler, hbefore, Except.toOption] using hcommon
      rfl

theorem Work.outputOf_eq {handler : Handler F} {common : F.Common} (tx : IndexedTx)
    (hhandler : handlers[h]? = some handler)
    (hcommon : handler.beforeBlock work.store work.rules work.block = .ok common) :
    work.outputOf handlers h tx =
      match handler.prefetch work.store tx common with
      | .error _ => none
      | .ok data =>
          match handler.process work.store tx common data with
          | .error _ => none
          | .ok output => some output := by
  have hc : work.commonOf handlers h = some common := by
    simp [Work.commonOf, hhandler, hcommon, Except.toOption]
  cases hprefetch : handler.prefetch work.store tx common with
  | error fault => simp [Work.outputOf, Work.dataOf, hhandler, hc, hprefetch, Except.toOption]
  | ok data =>
      cases hprocess : handler.process work.store tx common data <;>
        simp [Work.outputOf, Work.dataOf, hhandler, hc, hprefetch, hprocess, Except.toOption]

theorem Work.exists_of_prefetchFault {job : Job} {fault : Fault}
    (hfault : work.prefetchFault handlers job = some fault) :
    ∃ handler common, handlers[job.handler]? = some handler ∧
      work.commonOf handlers job.handler = some common ∧
      handler.prefetch work.store job.tx common = .error fault := by
  unfold prefetchFault at hfault
  split at hfault
  · rename_i handler common hhandler hcommon
    split at hfault <;> cases hfault
    exact ⟨handler, common, hhandler, hcommon, ‹_›⟩
  · cases hfault

theorem Work.exists_of_processFault {job : Job} {fault : Fault}
    (hfault : work.processFault handlers job = some fault) :
    ∃ handler common data, handlers[job.handler]? = some handler ∧
      work.commonOf handlers job.handler = some common ∧
      work.dataOf handlers job.handler job.tx = some data ∧
      handler.process work.store job.tx common data = .error fault := by
  unfold processFault at hfault
  split at hfault
  · rename_i handler common data hhandler hcommon hdata
    split at hfault <;> cases hfault
    exact ⟨handler, common, data, hhandler, hcommon, hdata, ‹_›⟩
  · cases hfault

namespace Pipeline

theorem During.settled_of_result? (hp : p.During calm handlers past work phase)
    (hresult : p.result? h i = .ok (some r)) :
    ∃ tx, work.block.indexed[i]? = some tx ∧ r = work.resultOf handlers h tx ∧
      h < handlers.length ∧ ⟨h, tx⟩ ∉ phase.outstanding p .settled ∧
      (⟨h, tx⟩ ∈ work.jobs handlers → (work.commonOf handlers h).isSome) := by
  unfold Pipeline.result? at hresult
  cases hs : p.stations[h]? with
  | none => simp [hs] at hresult
  | some s =>
      simp only [hs, Station.result?] at hresult
      split at hresult
      · rename_i hlt
        have hvalue : valueAt s.results i = some r := by simpa [valueAt] using hresult
        have hfits := hp.stations h s hs
        cases hberth : phase.berth work.block.length h with
        | unopened =>
            rw [hberth] at hfits
            rw [hfits.1.blockLength] at hlt
            exact absurd hlt (Nat.not_lt_zero _)
        | closed =>
            rw [hberth] at hfits
            rw [hfits.1.blockLength] at hlt
            exact absurd hlt (Nat.not_lt_zero _)
        | serving progress =>
            rw [hberth] at hfits
            obtain ⟨old, l, -, -, hserves⟩ := hfits
            -- a cell holds the result of the reference, once it is not due any more
            rw [hserves.settled.values] at hvalue
            obtain ⟨tx, htx, hif⟩ := Option.bind_eq_some_iff.mp hvalue
            split at hif
            · rename_i hdue
              cases hif
              refine ⟨tx, htx, rfl, hp.crew.lt_of_station hs, hdue.2, ?_⟩
              intro hjob
              exact hserves.supplied.gathered tx hjob fun hdeposited =>
                hdue.2 (hp.traffic.mem_settled hdeposited)
            · cases hif
      · cases hresult

theorem During.result? (hp : p.During calm handlers past work phase)
    (hresult : p.result? h i = .ok (some r)) :
    ∃ tx, work.block.indexed[i]? = some tx ∧ r = work.resultOf handlers h tx ∧
      h < handlers.length ∧
      (⟨h, tx⟩ ∈ work.jobs handlers → (work.commonOf handlers h).isSome) := by
  obtain ⟨tx, htx, hr, hlt, -, hcommon⟩ := hp.settled_of_result? hresult
  exact ⟨tx, htx, hr, hlt, hcommon⟩

variable {config : Config} {registry : Registry F} {moves : List (Move F)} {store : F.Store}
  {rules : Rules} {block : Block}

/-- A block comes into work only if all its transactions are accepted, and then every state decides
about them as the reference does. -/
theorem During.shouldProcess_eq (hp : p.During calm handlers past work phase) {tx : IndexedTx}
    (ht : tx ∈ work.block.indexed) :
    (p.shouldProcess tx work.rules).1 = .ok (work.marks handlers tx) := by
  obtain ⟨reservation, hverdict⟩ := hp.accepted tx ht
  rw [shouldProcess_fst hp.crew.handlers_eq, hverdict, Work.marks, hverdict]
  rfl

/-- The pipeline refines its sequential reference: a result that is read while its block is in
work is the one that `beforeBlock`, `prefetch` and `process` come to one after the other, on the
store as it was at the start. So it is the same in any two runs. -/
theorem result?_refines (hcreate : create config registry = .ok p)
    (hrun : p.cleanRun? moves = some q)
    (htask : (tasks moves)[c]? = some (.start store rules block))
    (hwork : q.InWork c) (hresult : q.result? h i = .ok (some r)) :
    (∃ handler tx eligible marked, registry.handlers[h]? = some handler ∧
      block.indexed[i]? = some tx ∧ (q.shouldProcess tx rules).1 = .ok eligible ∧
      eligible[h]? = some marked ∧ r.tx = tx ∧ (marked = false → r.output = none) ∧
      (marked = true → ∃ common, handler.beforeBlock store rules block = .ok common ∧
        r.output =
          match handler.prefetch store tx common with
          | .error _ => none
          | .ok data =>
              match handler.process store tx common data with
              | .error _ => none
              | .ok output => some output)) ∧
      ∀ {config' : Config} {p' q' : Pipeline F} {moves' : List (Move F)} {c' : Nat}
        {r' : TxResult F.Output}, create config' registry = .ok p' →
        p'.cleanRun? moves' = some q' → (tasks moves')[c']? = some (.start store rules block) →
        q'.InWork c' → q'.result? h i = .ok (some r') → r' = r := by
  obtain ⟨past, phase, hq, -⟩ := exists_phase (Work.mk store rules block) hcreate hrun htask hwork
  obtain ⟨tx, htx, hr, hlt, hcommon⟩ := hq.result? hresult
  refine ⟨?_, ?_⟩
  · have ht := List.mem_of_getElem? htx
    have hmarks : h < (Work.marks registry.handlers ⟨store, rules, block⟩ tx).length := by
      rwa [Work.length_marks hq.accepted ht]
    refine ⟨registry.handlers[h], tx, _, _, List.getElem?_eq_getElem hlt, htx,
      hq.shouldProcess_eq ht, List.getElem?_eq_getElem hmarks, by rw [hr]; rfl, ?_, ?_⟩
    · intro hdeclined
      rw [hr, Work.resultOf, List.getElem?_eq_getElem hmarks, hdeclined]
      rfl
    · intro hmarked
      have hget := List.getElem?_eq_getElem hmarks
      rw [hmarked] at hget
      have hjob : Job.mk h tx ∈ Work.jobs registry.handlers ⟨store, rules, block⟩ :=
        Work.mem_jobs.mpr ⟨ht, hget⟩
      obtain ⟨common, hcommon⟩ := Option.isSome_iff_exists.mp (hcommon hjob)
      have hbefore := Work.beforeBlock_eq (List.getElem?_eq_getElem hlt) hcommon
      refine ⟨common, hbefore, ?_⟩
      rw [hr, Work.resultOf_of_job hjob]
      exact Work.outputOf_eq tx (List.getElem?_eq_getElem hlt) hbefore
  · intro config' p' q' moves' c' r' hcreate' hrun' htask' hwork' hresult'
    obtain ⟨past', phase', hq', -⟩ :=
      exists_phase (Work.mk store rules block) hcreate' hrun' htask' hwork'
    obtain ⟨tx', htx', hr', -⟩ := hq'.result? hresult'
    obtain rfl : tx = tx' := by simpa [htx] using htx'
    rw [hr, hr']

end Pipeline

/-! ## A run -/

namespace Sample

open Pipeline

/-- All that flows are numbers. -/
abbrev flow : Flow := ⟨Nat, Nat, Nat, Nat, Nat⟩

/-- A handler that works on the first transaction of a block, and adds what it made to the store. -/
def adder : Handler flow where
  name := "adder"
  gas tx _ := .ok (if tx.index = 0 then some 7 else none)
  beforeBlock store _ _ := .ok store
  prefetch store tx _ := .ok (store + tx.index)
  process _ _ common data := .ok (common + data)
  postProcess _ _ := .nextByIndex fun r => .done (.ok ((r.bind (·.output)).getD 0))
  afterBlock store a _ _ := (store + a, none)

def adders : Registry flow := ⟨[adder]⟩

def transaction (n : Nat) : Transaction := ⟨Word.ofNat n, some 0, 22000, [], []⟩

def pair : Block := ⟨⟨1, []⟩, [transaction 1, transaction 2]⟩

/-- One worker for each stage, and queues for one job. -/
def oneEach : Config := ⟨1, 1, 1⟩

/-- The block is started on the store 3, and everything that was dispatched is worked on. -/
def started : List (Move flow) :=
  .call (.start (3 : Nat) .latest pair) ::
    [.caller 0, .caller 0, .caller 0, .caller 0, .caller 0, .caller 0, .caller 0, .refresher 0,
      .refresher 1, .refresher 0, .refresher 1, .caller 0, .caller 0, .caller 0, .caller 0,
      .caller 0, .preparation 0 0, .caller 0, .caller 0, .caller 0, .caller 0, .feeder 0 .prefetch,
      .feeder 0 .process, .receiver 0, .worker 0, .receiver 1, .worker 1, .aggregation 0 0,
      .caller 0, .worker 0, .aggregation 0 0, .worker 0, .worker 1, .worker 1, .worker 1,
      .worker 1].map .act

/-- Why the operating system denies a thread. -/
def unavailable : String := "Resource temporarily unavailable"

/-- The call to start the block is denied a thread. -/
def denied : List (Move flow) :=
  .call (.start (3 : Nat) .latest pair) :: [.act (.caller 0), .act (.caller 0), .deny 0 unavailable]

/-- All that is left to do for the block in this lane once everything that was dispatched is worked
on, and the moves of call `c`, which finishes it. -/
def concludingIn (c lane : Nat) : List (Move flow) :=
  [.caller c, .replay 0 lane, .caller c, .replay 0 lane, .aggregation 0 lane, .caller c,
    .replay 0 lane, .aggregation 0 lane, .caller c, .replay 0 lane, .aggregation 0 lane, .caller c,
    .caller c, .caller c, .caller c, .caller c, .caller c, .caller c, .caller c, .caller c,
    .caller c].map .act

/-- The same for the block of `started`. -/
def concluding (c : Nat) : List (Move flow) := concludingIn c 0

/-- The block is started and finished. -/
def finished : List (Move flow) :=
  started ++ .call (.finish (3 : Nat) pair []) :: concluding 1

end Sample

namespace Pipeline

open Sample

/-- How a call to finish a block has ended, with a store that is a number. -/
def outcome? (p : Pipeline flow) (c : Nat) : Option (Option Fault × Nat) :=
  match p.calls[c]? with
  | some (.returned (.finished fault store)) => some (fault, store)
  | _ => none

theorem calls_of_outcome? {p : Pipeline flow} {fault : Option Fault} {store : Nat}
    (h : p.outcome? c = some (fault, store)) :
    p.calls[c]? = some (.returned (.finished fault store)) := by
  unfold outcome? at h
  split at h
  · rename_i hcall
    cases h
    exact hcall
  · cases h

/-- Whether call `c` is to finish `block` from the store `3`, and has not begun. -/
def isAboutToFinish (p : Pipeline flow) (c : Nat) (block : Block) : Bool :=
  match p.calls[c]? with
  | some (.finish store b [] .take) => decide (store = (3 : Nat)) && decide (b = block)
  | _ => false

theorem calls_of_isAboutToFinish {p : Pipeline flow} {block : Block}
    (h : p.isAboutToFinish c block = true) :
    p.calls[c]? = some (.finish (3 : Nat) block [] .take) := by
  unfold isAboutToFinish at h
  split at h
  · rename_i store b hcall
    obtain ⟨hstore, hb⟩ := Bool.and_eq_true_iff.mp h
    rw [hcall, of_decide_eq_true hstore, of_decide_eq_true hb]
  · cases h

end Pipeline

open Pipeline Sample in
theorem result?_refines_started : ∃ q r, (ofConfig oneEach adders).cleanRun? started = some q ∧
    q.InWork 0 ∧ q.result? 0 0 = .ok (some r) ∧ r.output = some 6 ∧ r.tx = ⟨0, transaction 1⟩ := by
  obtain ⟨q, hrun, hwork, r, hresult, houtput⟩ : ∃ q,
      (ofConfig oneEach adders).cleanRun? started = some q ∧ q.InWork 0 ∧
        ∃ r, q.result? 0 0 = .ok (some r) ∧ r.output = some 6 := by
    decide +kernel
  refine ⟨q, r, hrun, hwork, hresult, houtput, ?_⟩
  obtain ⟨handler, tx, eligible, marked, -, htx, -, -, hr, -, -⟩ :=
    (result?_refines (c := 0) (show create oneEach adders = .ok _ from rfl) hrun rfl hwork
      hresult).1
  cases htx
  exact hr

end TxPipeline
