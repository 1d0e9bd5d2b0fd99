import TxPipeline.Pipeline.Step
import TxPipeline.Proofs.Scan

/-!
# What a move can be

For each kind of call, for workers and for feeders, the moves as a relation: a constructor for each
way a move can come out, with everything that was found on the way. Whatever holds of all these
moves is proved by cases on the relations.
-/

namespace TxPipeline.Pipeline

variable {F : Flow} {p q : Pipeline F} {c w lane : Nat} {stage : Stage}

theorem step?_of_start {store : F.Store} {rules : Rules} {block : Block} {next : Starting}
    (hcall : p.calls[c]? = some (.start store rules block next)) :
    p.step? (.caller c) = p.stepStart? c store rules block next := by
  change p.stepCall? c = _
  rw [stepCall?, hcall]

theorem step?_of_finish {store : F.Store} {block : Block} {receipts : List Receipt}
    {next : Finishing} (hcall : p.calls[c]? = some (.finish store block receipts next)) :
    p.step? (.caller c) = p.stepFinish? c store block receipts next := by
  change p.stepCall? c = _
  rw [stepCall?, hcall]

theorem step?_of_close {next : Closing} (hcall : p.calls[c]? = some (.close next)) :
    p.step? (.caller c) = p.stepClose? c next := by
  change p.stepCall? c = _
  rw [stepCall?, hcall]

/-- A move of call `c`, by what the call is about. -/
inductive CallMove (p : Pipeline F) (c : Nat) (q : Pipeline F) : Prop
  | start (store : F.Store) (rules : Rules) (block : Block) (next : Starting)
      (hcall : p.calls[c]? = some (.start store rules block next))
      (hstart : p.stepStart? c store rules block next = some q)
  | finish (store : F.Store) (block : Block) (receipts : List Receipt) (next : Finishing)
      (hcall : p.calls[c]? = some (.finish store block receipts next))
      (hfinish : p.stepFinish? c store block receipts next = some q)
  | close (next : Closing) (hcall : p.calls[c]? = some (.close next))
      (hclose : p.stepClose? c next = some q)

theorem callMove_of_stepCall? (hstep : p.stepCall? c = some q) : p.CallMove c q := by
  unfold stepCall? at hstep
  split at hstep
  · exact .start _ _ _ _ ‹_› hstep
  · exact .finish _ _ _ _ ‹_› hstep
  · exact .close _ ‹_› hstep
  · cases hstep

/-- Somebody else than a caller moves, or one of the calls goes on. -/
theorem thread_or_callMove {actor : Actor} (hstep : p.step? actor = some q) :
    (∀ c, actor ≠ .caller c) ∨ ∃ c, actor = .caller c ∧ p.CallMove c q := by
  cases actor with
  | caller c => exact .inr ⟨c, rfl, callMove_of_stepCall? hstep⟩
  | _ => exact .inl fun _ heq => by cases heq

/-- A move of call `c`, which starts a block. -/
inductive StartMove (p : Pipeline F) (c : Nat) (store : F.Store) (rules : Rules) (block : Block) :
    Starting → Pipeline F → Prop
  | refuse (active : ActiveBlock) (hunlocked : p.locked = false)
      (hactive : p.active = some active) : StartMove p c store rules block .acquire
        (p.setCall c (.returned (.started (.error (.error (.blockInProgress active.number))))))
  | acquire (hunlocked : p.locked = false) (hactive : p.active = none) :
      StartMove p c store rules block .acquire
        ({ p with locked := true }.setCall c (.start store rules block .enter))
  | enter (hopen : p.isOpen = true) :
      StartMove p c store rules block .enter (p.setCall c (.start store rules block .scan))
  | closed (hopen : p.isOpen = false) :
      StartMove p c store rules block .enter (p.endStart c (.error (.error .closed)))
  | scanFault (fault : Fault) (tx : IndexedTx) (ledger : Gas.Ledger) (log : List Event)
      (hscan : p.scan rules block.indexed = (.error (.fault fault, tx), { p with ledger, log })) :
      StartMove p c store rules block .scan
        ({ p with ledger, log }.endStart c (.error (.fault fault)))
  | scanError (error : Error) (tx : IndexedTx) (ledger : Gas.Ledger) (log : List Event)
      (hscan : p.scan rules block.indexed = (.error (.error error, tx), { p with ledger, log })) :
      StartMove p c store rules block .scan
        ({ p with ledger := ledger.clear (block.hashes.take (tx.index + 1)), log }.endStart c
          (.error (.error error)))
  | scan (decisions : List (IndexedTx × List Bool)) (ledger : Gas.Ledger) (log : List Event)
      (hscan : p.scan rules block.indexed = (.ok decisions, { p with ledger, log })) :
      StartMove p c store rules block .scan
        ({ p with ledger, log }.addFeeders.setCall c (.start store rules block
          (.opening ⟨p.feeders.length, jobsOf false decisions, jobsOf true decisions⟩ 0)))
  | openStation (plan : Plan) (h : Nat) (s : Station F) (hs : p.stations[h]? = some s) :
      StartMove p c store rules block (.opening plan h)
        ((p.setStation h (s.openBlock block.length)).setCall c
          (.start store rules block (.opening plan (h + 1))))
  | opened (plan : Plan) (h : Nat) (hs : p.stations[h]? = none) :
      StartMove p c store rules block (.opening plan h)
        (p.setCall c (.start store rules block (.distributing plan .publish)))
  | distribute (plan : Plan) (next rest : Snapshot.Distribution) (relay : Snapshot.Relay F.Store)
      (hdistribute : p.relay.distribute? store next = some (relay, some rest)) :
      StartMove p c store rules block (.distributing plan next)
        ({ p with relay, copies := p.copies + next.copies }.setCall c
          (.start store rules block (.distributing plan rest)))
  | distributed (plan : Plan) (next : Snapshot.Distribution) (relay : Snapshot.Relay F.Store)
      (hdistribute : p.relay.distribute? store next = some (relay, none)) :
      StartMove p c store rules block (.distributing plan next)
        (({ p with relay }.note (.snapshotsDistributed relay.distributor.workers)).setCall c
          (.start store rules block (.preparing plan)))
  | prepare (plan : Plan) :
      StartMove p c store rules block (.preparing plan)
        ((p.prepareAll plan.lane store rules block).setCall c
          (.start store rules block (.declining plan plan.declined)))
  | declined (plan : Plan) :
      StartMove p c store rules block (.declining plan [])
        (p.setCall c (.start store rules block (.dispatching plan)))
  | skipAnnounce (plan : Plan) (job : Job) (rest : List Job)
      (hs : p.stations[job.handler]? = none) :
      StartMove p c store rules block (.declining plan (job :: rest))
        (p.setCall c (.start store rules block (.declining plan rest)))
  | announceFault (plan : Plan) (job : Job) (rest : List Job) (s : Station F) (fault : Fault)
      (hs : p.stations[job.handler]? = some s)
      (hannounce : s.announce (.declined job.tx) = .error fault) :
      StartMove p c store rules block (.declining plan (job :: rest))
        (p.endStart c (.error (.fault fault)))
  | announce (plan : Plan) (job : Job) (rest : List Job) (s s' : Station F)
      (hs : p.stations[job.handler]? = some s)
      (hannounce : s.announce (.declined job.tx) = .ok s') :
      StartMove p c store rules block (.declining plan (job :: rest))
        ((p.setStation job.handler s').setCall c
          (.start store rules block (.settling plan job rest)))
  | skipSettle (plan : Plan) (job : Job) (rest : List Job)
      (hs : p.stations[job.handler]? = none) :
      StartMove p c store rules block (.settling plan job rest)
        (p.setCall c (.start store rules block (.declining plan rest)))
  | settleFault (plan : Plan) (job : Job) (rest : List Job) (s : Station F) (fault : Fault)
      (hs : p.stations[job.handler]? = some s)
      (hsettle : s.settle (.declined job.tx) = .error fault) :
      StartMove p c store rules block (.settling plan job rest)
        (p.endStart c (.error (.fault fault)))
  | settle (plan : Plan) (job : Job) (rest : List Job) (s s' : Station F)
      (hs : p.stations[job.handler]? = some s)
      (hsettle : s.settle (.declined job.tx) = .ok s') :
      StartMove p c store rules block (.settling plan job rest)
        ((p.setStation job.handler s').setCall c
          (.start store rules block (.declining plan rest)))
  | dispatch (plan : Plan) :
      StartMove p c store rules block (.dispatching plan)
        ((p.dispatchAll plan).setCall c (.start store rules block (.activating plan)))
  | activate (plan : Plan) :
      StartMove p c store rules block (.activating plan)
        ((p.activate block plan).endStart c (.ok ()))

theorem startMove_of_stepStart? {store : F.Store} {rules : Rules} {block : Block} {next : Starting}
    (hstep : p.stepStart? c store rules block next = some q) :
    p.StartMove c store rules block next q := by
  cases next with
  | acquire =>
      simp only [stepStart?] at hstep
      split at hstep
      · cases hstep
      · rename_i hlocked
        have hunlocked : p.locked = false := by simpa using hlocked
        split at hstep <;> cases hstep
        · exact .refuse _ hunlocked ‹_›
        · exact .acquire hunlocked ‹_›
  | enter =>
      simp only [stepStart?] at hstep
      split at hstep <;> cases hstep
      · exact .enter ‹_›
      · rename_i hclosed
        exact .closed (by simpa using hclosed)
  | scan =>
      obtain ⟨ledger, log, hsnd⟩ := scan_snd p rules block.indexed
      simp only [stepStart?] at hstep
      split at hstep <;> rename_i hscan <;> rw [hscan] at hsnd <;> cases hsnd <;> cases hstep
      · exact .scanFault _ _ ledger log hscan
      · exact .scanError _ _ ledger log hscan
      · exact .scan _ ledger log hscan
  | opening plan h =>
      simp only [stepStart?] at hstep
      split at hstep <;> cases hstep
      · exact .openStation plan h _ ‹_›
      · exact .opened plan h ‹_›
  | distributing plan next =>
      simp only [stepStart?] at hstep
      split at hstep <;> cases hstep
      · exact .distribute plan next _ _ ‹_›
      · exact .distributed plan next _ ‹_›
  | preparing plan =>
      cases hstep
      exact .prepare plan
  | declining plan rest =>
      cases rest with
      | nil =>
          cases hstep
          exact .declined plan
      | cons job rest =>
          simp only [stepStart?] at hstep
          split at hstep
          · cases hstep
            exact .skipAnnounce plan job rest ‹_›
          · split at hstep <;> cases hstep
            · exact .announceFault plan job rest _ _ ‹_› ‹_›
            · exact .announce plan job rest _ _ ‹_› ‹_›
  | settling plan job rest =>
      simp only [stepStart?] at hstep
      split at hstep
      · cases hstep
        exact .skipSettle plan job rest ‹_›
      · split at hstep <;> cases hstep
        · exact .settleFault plan job rest _ _ ‹_› ‹_›
        · exact .settle plan job rest _ _ ‹_› ‹_›
  | dispatching plan =>
      cases hstep
      exact .dispatch plan
  | activating plan =>
      cases hstep
      exact .activate plan

/-- Call `c` to start a block is denied a thread after its scan. -/
inductive DenyMove (p : Pipeline F) (c : Nat) (reason : String) : Pipeline F → Prop
  | deny (store : F.Store) (rules : Rules) (block : Block)
      (decisions : List (IndexedTx × List Bool)) (ledger : Gas.Ledger) (log : List Event)
      (hcall : p.calls[c]? = some (.start store rules block .scan))
      (hscan : p.scan rules block.indexed = (.ok decisions, { p with ledger, log })) :
      DenyMove p c reason ({ p with ledger := ledger.clear block.hashes, log }.endStart c
        (.error (.error (.spawn reason))))

theorem denyMove_of_deny? {reason : String} (hdeny : p.deny? c reason = some q) :
    p.DenyMove c reason q := by
  unfold deny? at hdeny
  split at hdeny
  · rename_i store rules block hcall
    obtain ⟨ledger, log, hsnd⟩ := scan_snd p rules block.indexed
    split at hdeny
    · cases hdeny
    · rename_i hscan
      rw [hscan] at hsnd
      cases hsnd
      cases hdeny
      exact .deny store rules block _ ledger log hcall hscan
  · cases hdeny

/-- A move of call `c`, which finishes a block. -/
inductive FinishMove (p : Pipeline F) (c : Nat) (store : F.Store) (block : Block)
    (receipts : List Receipt) : Finishing → Pipeline F → Prop
  | miss (hunlocked : p.locked = false) (hactive : p.active = none) :
      FinishMove p c store block receipts .take
        ((p.note (.finishedWithoutBlock block.number)).endFinish c store none)
  | take (active : ActiveBlock) (hunlocked : p.locked = false) (hactive : p.active = some active)
      (hnumber : active.number = block.number) :
      FinishMove p c store block receipts .take
        ({ p with active := none }.setCall c
          (.finish store block receipts (.joinPreparation active 0)))
  | mismatch (active : ActiveBlock) (hunlocked : p.locked = false)
      (hactive : p.active = some active) (hnumber : active.number ≠ block.number) :
      FinishMove p c store block receipts .take
        ({ p with active := none }.endFinish c store
          (some (.blockMismatch active.number block.number)))
  | prepared (active : ActiveBlock) (h : Nat) (hs : p.stations[h]? = none) :
      FinishMove p c store block receipts (.joinPreparation active h)
        (p.setCall c (.finish store block receipts (.joinFeeders active)))
  | joinPreparation (active : ActiveBlock) (h : Nat) (s : Station F)
      (hs : p.stations[h]? = some s) (hended : s.preparation? active.lane = some .ended) :
      FinishMove p c store block receipts (.joinPreparation active h)
        (p.setCall c (.finish store block receipts (.joinPreparation active (h + 1))))
  | preparationDead (active : ActiveBlock) (h : Nat) (s : Station F) (fault : Fault)
      (hs : p.stations[h]? = some s) (hdead : s.preparation? active.lane = some (.dead fault)) :
      FinishMove p c store block receipts (.joinPreparation active h)
        (p.endFinish c store (some fault))
  | joinFeeders (active : ActiveBlock) (hfeeders : p.feeders[active.lane]? = some ⟨[], []⟩) :
      FinishMove p c store block receipts (.joinFeeders active)
        (p.setCall c (.finish store block receipts (.joinAggregation active 0)))
  | aggregated (active : ActiveBlock) (h : Nat) (hs : p.stations[h]? = none) :
      FinishMove p c store block receipts (.joinAggregation active h)
        (p.setCall c (.finish store block receipts (.ending active 0 none)))
  | joinAggregation (active : ActiveBlock) (h : Nat) (s : Station F)
      (hs : p.stations[h]? = some s) (hended : s.aggregation? active.lane = some .ended) :
      FinishMove p c store block receipts (.joinAggregation active h)
        (p.setCall c (.finish store block receipts (.conclude active h)))
  | aggregationDead (active : ActiveBlock) (h : Nat) (s : Station F) (fault : Fault)
      (hs : p.stations[h]? = some s) (hdead : s.aggregation? active.lane = some (.dead fault)) :
      FinishMove p c store block receipts (.joinAggregation active h)
        (p.endFinish c store (some fault))
  | concludeFault (active : ActiveBlock) (h : Nat) (s s' : Station F) (a : F.Aggregate)
      (fault : Fault) (store' : F.Store) (hs : p.stations[h]? = some s)
      (htake : s.takeAggregate? = some (a, s'))
      (hafter : s.handler.afterBlock store a block receipts = (store', some fault)) :
      FinishMove p c store block receipts (.conclude active h)
        ((p.setStation h s').endFinish c store' (some fault))
  | conclude (active : ActiveBlock) (h : Nat) (s s' : Station F) (a : F.Aggregate)
      (store' : F.Store) (hs : p.stations[h]? = some s)
      (htake : s.takeAggregate? = some (a, s'))
      (hafter : s.handler.afterBlock store a block receipts = (store', none)) :
      FinishMove p c store block receipts (.conclude active h)
        ((p.setStation h s').setCall c
          (.finish store' block receipts (.joinAggregation active (h + 1))))
  | reset (active : ActiveBlock) (h : Nat) (kept : Option Fault) (hs : p.stations[h]? = none) :
      FinishMove p c store block receipts (.ending active h kept)
        (p.setCall c (.finish store block receipts (.leaving active kept)))
  | beginReset (active : ActiveBlock) (h : Nat) (kept : Option Fault) (s : Station F)
      (hs : p.stations[h]? = some s) :
      FinishMove p c store block receipts (.ending active h kept)
        (p.setCall c (.finish store block receipts (.draining active h 0 s.blockLength kept)))
  | drain (active : ActiveBlock) (h i length : Nat) (kept : Option Fault) (s s' : Station F)
      (hlt : i < length) (hs : p.stations[h]? = some s) (hdrain : s.drain? i = some s') :
      FinishMove p c store block receipts (.draining active h i length kept)
        ((p.setStation h s').setCall c
          (.finish store block receipts (.draining active h (i + 1) length kept)))
  | drained (active : ActiveBlock) (h i length : Nat) (kept : Option Fault) (hle : length ≤ i) :
      FinishMove p c store block receipts (.draining active h i length kept)
        (p.setCall c (.finish store block receipts (.closing active h kept)))
  | closeStation (active : ActiveBlock) (h : Nat) (kept : Option Fault) (s : Station F)
      (hs : p.stations[h]? = some s) :
      FinishMove p c store block receipts (.closing active h kept)
        ((p.setStation h s.closeBlock).setCall c
          (.finish store block receipts (.ending active (h + 1) (kept <|> s.fault))))
  | leaveFault (active : ActiveBlock) (fault : Fault) :
      FinishMove p c store block receipts (.leaving active (some fault))
        ({ p with ledger := p.ledger.clear active.hashes }.endFinish c store (some fault))
  | leave (active : ActiveBlock) :
      FinishMove p c store block receipts (.leaving active none)
        (({ p with ledger := p.ledger.clear active.hashes }.note
          (.blockFinished active.number active.hashes.length)).endFinish c store none)

theorem finishMove_of_stepFinish? {store : F.Store} {block : Block} {receipts : List Receipt}
    {next : Finishing} (hstep : p.stepFinish? c store block receipts next = some q) :
    p.FinishMove c store block receipts next q := by
  cases next with
  | take =>
      simp only [stepFinish?] at hstep
      split at hstep
      · cases hstep
      · rename_i hlocked
        have hunlocked : p.locked = false := by simpa using hlocked
        split at hstep
        · cases hstep
          exact .miss hunlocked ‹_›
        · split at hstep <;> cases hstep
          · exact .take _ hunlocked ‹_› ‹_›
          · exact .mismatch _ hunlocked ‹_› ‹_›
  | joinPreparation active h =>
      simp only [stepFinish?] at hstep
      split at hstep
      · cases hstep
        exact .prepared active h ‹_›
      · split at hstep <;> cases hstep
        · exact .joinPreparation active h _ ‹_› ‹_›
        · exact .preparationDead active h _ _ ‹_› ‹_›
  | joinFeeders active =>
      simp only [stepFinish?] at hstep
      split at hstep <;> cases hstep
      exact .joinFeeders active ‹_›
  | joinAggregation active h =>
      simp only [stepFinish?] at hstep
      split at hstep
      · cases hstep
        exact .aggregated active h ‹_›
      · split at hstep <;> cases hstep
        · exact .joinAggregation active h _ ‹_› ‹_›
        · exact .aggregationDead active h _ _ ‹_› ‹_›
  | conclude active h =>
      simp only [stepFinish?] at hstep
      obtain ⟨s, hs, hstep⟩ := Option.bind_eq_some_iff.mp hstep
      obtain ⟨⟨a, s'⟩, htake, hstep⟩ := Option.bind_eq_some_iff.mp hstep
      dsimp only at hstep
      split at hstep <;> cases hstep
      · exact .concludeFault active h s s' a _ _ hs htake ‹_›
      · exact .conclude active h s s' a _ hs htake ‹_›
  | ending active h kept =>
      simp only [stepFinish?] at hstep
      split at hstep <;> cases hstep
      · exact .reset active h kept ‹_›
      · exact .beginReset active h kept _ ‹_›
  | draining active h i length kept =>
      simp only [stepFinish?] at hstep
      split at hstep
      · obtain ⟨s, hs, hstep⟩ := Option.bind_eq_some_iff.mp hstep
        obtain ⟨s', hdrain, hstep⟩ := Option.bind_eq_some_iff.mp hstep
        cases hstep
        exact .drain active h i length kept s s' ‹_› hs hdrain
      · cases hstep
        exact .drained active h i length kept (Nat.le_of_not_lt ‹_›)
  | closing active h kept =>
      obtain ⟨s, hs, hstep⟩ := Option.bind_eq_some_iff.mp hstep
      cases hstep
      exact .closeStation active h kept s hs
  | leaving active kept =>
      cases kept with
      | none =>
          cases hstep
          exact .leave active
      | some fault =>
          cases hstep
          exact .leaveFault active fault

/-- A move of call `c`, which closes the pipeline. -/
inductive CloseMove (p : Pipeline F) (c : Nat) : Closing → Pipeline F → Prop
  | take (hopen : p.isOpen = true) :
      CloseMove p c .take ({ p with isOpen := false }.setCall c (.close .check))
  | miss (hopen : p.isOpen = false) :
      CloseMove p c .take ((p.note .alreadyClosed).setCall c (.returned .closed))
  | check (log : List Event) (hunlocked : p.locked = false) :
      CloseMove p c .check ({ p with poolSenders := false, log }.setCall c (.close (.join 0)))
  | closed (w : Nat) (hw : p.workers[w]? = none) :
      CloseMove p c (.join w) ((p.note .processorClosed).setCall c (.returned .closed))
  | join (w : Nat) (worker : Worker F) (hw : p.workers[w]? = some worker)
      (hexited : worker.activity = .exited) :
      CloseMove p c (.join w) (p.setCall c (.close (.join (w + 1))))
  | lost (w : Nat) (worker : Worker F) (fault : Fault) (hw : p.workers[w]? = some worker)
      (hdead : worker.activity = .dead fault) :
      CloseMove p c (.join w) ((p.note .workerLost).setCall c (.close (.join (w + 1))))

theorem closeMove_of_stepClose? {next : Closing} (hstep : p.stepClose? c next = some q) :
    p.CloseMove c next q := by
  cases next with
  | take =>
      simp only [stepClose?] at hstep
      split at hstep <;> cases hstep
      · exact .take ‹_›
      · rename_i hclosed
        exact .miss (by simpa using hclosed)
  | check =>
      simp only [stepClose?] at hstep
      split at hstep <;> cases hstep
      rename_i hlocked
      have hunlocked : p.locked = false := by simpa using hlocked
      split
      · exact .check _ hunlocked
      · exact .check _ hunlocked
  | join w =>
      simp only [stepClose?] at hstep
      split at hstep
      · cases hstep
        exact .closed w ‹_›
      · split at hstep <;> cases hstep
        · exact .join w _ ‹_› ‹_›
        · exact .lost w _ _ ‹_› ‹_›

/-- A move of worker `w`, which is busy with its job. -/
inductive WorkMove (p : Pipeline F) (w : Nat) : Activity F → Pipeline F → Prop
  | prefetchGather (job : Job) (common : F.Common) (s : Station F)
      (hs : p.stations[job.handler]? = some s) (hcommon : s.common.value = some common) :
      WorkMove p w (.prefetchGather job) (p.setActivity w (.prefetchRun job common))
  | prefetchRun (job : Job) (common : F.Common) (s : Station F) (store : F.Store) (data : F.Data)
      (hs : p.stations[job.handler]? = some s) (hstore : p.relay.copy? w = some store)
      (hresult : s.handler.prefetch store job.tx common = .ok data) :
      WorkMove p w (.prefetchRun job common)
        (p.setActivity w (.prefetchDeposit job (some data)))
  | prefetchFault (job : Job) (common : F.Common) (s : Station F) (store : F.Store) (fault : Fault)
      (hs : p.stations[job.handler]? = some s) (hstore : p.relay.copy? w = some store)
      (hresult : s.handler.prefetch store job.tx common = .error fault) :
      WorkMove p w (.prefetchRun job common)
        ((p.catchFault .prefetch job s fault).setActivity w (.prefetchDeposit job none))
  | prefetchDeposit (job : Job) (data : Option F.Data) (s : Station F)
      (hs : p.stations[job.handler]? = some s) :
      WorkMove p w (.prefetchDeposit job data)
        (p.advance w job.handler (s.deposit job.tx.index data) .idle)
  | processGather (job : Job) (common : F.Common) (s : Station F)
      (hs : p.stations[job.handler]? = some s) (hcommon : s.common.value = some common) :
      WorkMove p w (.processGather job) (p.setActivity w (.processAwait job common))
  | outOfBounds (job : Job) (common : F.Common) (s : Station F)
      (hs : p.stations[job.handler]? = some s) (hcell : s.data[job.tx.index]? = none) :
      WorkMove p w (.processAwait job common)
        (p.setActivity w (.dead (.outOfBounds job.tx.index s.data.length)))
  | processAwait (job : Job) (common : F.Common) (s : Station F) (cell : Cell (Option F.Data))
      (data : F.Data) (hs : p.stations[job.handler]? = some s)
      (hcell : s.data[job.tx.index]? = some cell) (hvalue : cell.value = some (some data)) :
      WorkMove p w (.processAwait job common) (p.setActivity w (.processRun job common data))
  | processSkip (job : Job) (common : F.Common) (s : Station F) (cell : Cell (Option F.Data))
      (hs : p.stations[job.handler]? = some s) (hcell : s.data[job.tx.index]? = some cell)
      (hvalue : cell.value = some none) :
      WorkMove p w (.processAwait job common)
        (p.setActivity w (.processAnnounce ⟨job.tx, none⟩ job.handler))
  | processRun (job : Job) (common : F.Common) (data : F.Data) (s : Station F) (store : F.Store)
      (output : F.Output) (hs : p.stations[job.handler]? = some s)
      (hstore : p.relay.copy? w = some store)
      (hresult : s.handler.process store job.tx common data = .ok output) :
      WorkMove p w (.processRun job common data)
        (p.setActivity w (.processAnnounce ⟨job.tx, some output⟩ job.handler))
  | processFault (job : Job) (common : F.Common) (data : F.Data) (s : Station F) (store : F.Store)
      (fault : Fault) (hs : p.stations[job.handler]? = some s)
      (hstore : p.relay.copy? w = some store)
      (hresult : s.handler.process store job.tx common data = .error fault) :
      WorkMove p w (.processRun job common data)
        ((p.catchFault .process job s fault).setActivity w
          (.processAnnounce ⟨job.tx, none⟩ job.handler))
  | processAnnounce (r : TxResult F.Output) (h : Nat) (s : Station F)
      (hs : p.stations[h]? = some s) :
      WorkMove p w (.processAnnounce r h) (p.advance w h (s.announce r) (.processSettle r h))
  | processSettle (r : TxResult F.Output) (h : Nat) (s : Station F)
      (hs : p.stations[h]? = some s) :
      WorkMove p w (.processSettle r h) (p.advance w h (s.settle r) .idle)

theorem workMove_of_work? (hstep : p.work? w = some q) :
    ∃ worker, p.workers[w]? = some worker ∧ p.WorkMove w worker.activity q := by
  unfold work? at hstep
  obtain ⟨⟨stage, activity⟩, hw, hstep⟩ := Option.bind_eq_some_iff.mp hstep
  refine ⟨_, hw, ?_⟩
  cases activity with
  | idle => cases hstep
  | exited => cases hstep
  | dead fault => cases hstep
  | prefetchGather job =>
      obtain ⟨s, hs, hstep⟩ := Option.bind_eq_some_iff.mp hstep
      obtain ⟨common, hcommon, hstep⟩ := Option.bind_eq_some_iff.mp hstep
      cases hstep
      exact .prefetchGather job common s hs hcommon
  | prefetchRun job common =>
      obtain ⟨s, hs, hstep⟩ := Option.bind_eq_some_iff.mp hstep
      obtain ⟨store, hstore, hstep⟩ := Option.bind_eq_some_iff.mp hstep
      split at hstep
      · cases hstep
        exact .prefetchRun job common s store _ hs hstore ‹_›
      · cases hstep
        exact .prefetchFault job common s store _ hs hstore ‹_›
  | prefetchDeposit job data =>
      obtain ⟨s, hs, hstep⟩ := Option.bind_eq_some_iff.mp hstep
      cases hstep
      exact .prefetchDeposit job data s hs
  | processGather job =>
      obtain ⟨s, hs, hstep⟩ := Option.bind_eq_some_iff.mp hstep
      obtain ⟨common, hcommon, hstep⟩ := Option.bind_eq_some_iff.mp hstep
      cases hstep
      exact .processGather job common s hs hcommon
  | processAwait job common =>
      obtain ⟨s, hs, hstep⟩ := Option.bind_eq_some_iff.mp hstep
      split at hstep
      · cases hstep
        exact .outOfBounds job common s hs ‹_›
      · rename_i cell hcell
        obtain ⟨value, hvalue, hstep⟩ := Option.bind_eq_some_iff.mp hstep
        cases value with
        | some data =>
            cases hstep
            exact .processAwait job common s cell data hs hcell hvalue
        | none =>
            cases hstep
            exact .processSkip job common s cell hs hcell hvalue
  | processRun job common data =>
      obtain ⟨s, hs, hstep⟩ := Option.bind_eq_some_iff.mp hstep
      obtain ⟨store, hstore, hstep⟩ := Option.bind_eq_some_iff.mp hstep
      split at hstep
      · cases hstep
        exact .processRun job common data s store _ hs hstore ‹_›
      · cases hstep
        exact .processFault job common data s store _ hs hstore ‹_›
  | processAnnounce r h =>
      obtain ⟨s, hs, hstep⟩ := Option.bind_eq_some_iff.mp hstep
      cases hstep
      exact .processAnnounce r h s hs
  | processSettle r h =>
      obtain ⟨s, hs, hstep⟩ := Option.bind_eq_some_iff.mp hstep
      cases hstep
      exact .processSettle r h s hs

theorem WorkMove.work?_eq {worker : Worker F} (h : p.WorkMove w worker.activity q)
    (hw : p.workers[w]? = some worker) : p.work? w = some q := by
  obtain ⟨stage, activity⟩ := worker
  cases h <;> simp_all [work?]

/-- A move of the feeder of `stage` in `lane`. -/
inductive FeedMove (p : Pipeline F) (lane : Nat) (stage : Stage) : Pipeline F → Prop
  | enqueue (feeders : Feeders) (job : Job) (rest : List Job) (hf : p.feeders[lane]? = some feeders)
      (hpending : feeders.pending stage = job :: rest) (hreceiver : p.hasReceiver stage = true)
      (hroom : (p.queue stage).length < p.config.queueDepth) :
      FeedMove p lane stage
        ({ p with feeders := p.feeders.set lane (feeders.setPending rest stage) }.setQueue
          (p.queue stage ++ [job]) stage)
  | giveUp (feeders : Feeders) (job : Job) (rest : List Job) (hf : p.feeders[lane]? = some feeders)
      (hpending : feeders.pending stage = job :: rest) (hreceiver : p.hasReceiver stage = false) :
      FeedMove p lane stage { p with feeders := p.feeders.set lane (feeders.setPending [] stage) }

theorem feedMove_of_feed? (hstep : p.feed? lane stage = some q) : p.FeedMove lane stage q := by
  obtain ⟨feeders, hf, hstep⟩ := Option.bind_eq_some_iff.mp hstep
  split at hstep
  · cases hstep
  · rename_i job rest hpending
    split at hstep
    · split at hstep <;> cases hstep
      exact .enqueue feeders job rest hf hpending ‹_› ‹_›
    · rename_i hreceiver
      cases hstep
      exact .giveUp feeders job rest hf hpending (by simpa using hreceiver)

/-- A feeder in `lane` hands its next job to worker `w`. -/
inductive HandOverMove (p : Pipeline F) (lane w : Nat) : Pipeline F → Prop
  | handOver (feeders : Feeders) (worker : Worker F) (job : Job) (rest : List Job)
      (hf : p.feeders[lane]? = some feeders) (hw : p.workers[w]? = some worker)
      (hpending : feeders.pending worker.stage = job :: rest) (hdepth : p.config.queueDepth = 0)
      (hfree : p.isFree w = true) :
      HandOverMove p lane w
        ({ p with feeders := p.feeders.set lane (feeders.setPending rest worker.stage) }.accept w
          worker.stage job)

theorem handOverMove_of_handOver? (hstep : p.handOver? lane w = some q) :
    p.HandOverMove lane w q := by
  obtain ⟨feeders, hf, hstep⟩ := Option.bind_eq_some_iff.mp hstep
  obtain ⟨worker, hw, hstep⟩ := Option.bind_eq_some_iff.mp hstep
  split at hstep
  · cases hstep
  · rename_i job rest hpending
    split at hstep
    · rename_i hif
      cases hstep
      obtain ⟨hdepth, hfree⟩ := Bool.and_eq_true_iff.mp hif
      exact .handOver feeders worker job rest hf hw hpending (of_decide_eq_true hdepth) hfree
    · cases hstep

end TxPipeline.Pipeline
