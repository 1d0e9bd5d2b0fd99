import TxPipeline.Proofs.Erasure.Dropping
import TxPipeline.Proofs.Invariant.Run

/-!
# The same pipeline without some calls

A pipeline in which some calls were never made is compared with one in which they were. If these
have left nothing behind, no thread sees a difference. Workers of a pipeline that was never closed
do not leave, but wait where the others have left.
-/

namespace TxPipeline

variable {F : Flow}

/-- A worker as it would be if the pools had not been closed. -/
def Worker.revive (revived : Bool) (worker : Worker F) : Worker F :=
  match revived, worker.activity with
  | true, .exited => { worker with activity := .idle }
  | _, _ => worker

namespace Worker

variable {revived : Bool} {worker : Worker F}

@[simp] theorem stage_revive : (worker.revive revived).stage = worker.stage := by
  unfold revive
  split <;> rfl

theorem revive_of_ne (h : worker.activity ≠ .exited) : worker.revive revived = worker := by
  unfold revive
  split
  · exact absurd ‹_› h
  · rfl

theorem map_revive_false (workers : List (Worker F)) :
    workers.map (Worker.revive false) = workers :=
  (List.map_congr_left fun _ _ => rfl).trans (List.map_id workers)

end Worker

namespace Pipeline

/-- `p'` is what `p` would be without the dropped calls, and if `revived`, without ever having been
closed. Who holds the lock can differ, and what is logged. -/
structure Erases (revived : Bool) (dropped : Nat → Bool) (p p' : Pipeline F) : Prop where
  config : p'.config = p.config
  stations : p'.stations = p.stations
  relay : p'.relay = p.relay
  prefetchQueue : p'.prefetchQueue = p.prefetchQueue
  processQueue : p'.processQueue = p.processQueue
  workers : p'.workers = p.workers.map (Worker.revive revived)
  feeders : p'.feeders = p.feeders
  ledger : ∀ hash, p'.ledger.find? hash = p.ledger.find? hash
  isOpen : p'.isOpen = (revived || p.isOpen)
  poolSenders : p'.poolSenders = (revived || p.poolSenders)
  active : p'.active = p.active
  calls : p'.calls = keep dropped p.calls
  copies : p'.copies = p.copies

variable {revived : Bool} {dropped : Nat → Bool} {handlers : List (Handler F)}
  {p p' q : Pipeline F} {w h lane c : Nat} {stage : Stage} {worker : Worker F} {job : Job}

namespace Erases

variable (hp : p.Erases revived dropped p')

include hp

/-! ## Workers and feeders -/

theorem getElem?_workers (hw : p.workers[w]? = some worker) (hne : worker.activity ≠ .exited) :
    p'.workers[w]? = some worker := by
  rw [hp.workers, List.getElem?_map, hw, Option.map_some, Worker.revive_of_ne hne]

theorem queue (stage : Stage) : p'.queue stage = p.queue stage := by
  cases stage
  · exact hp.prefetchQueue
  · exact hp.processQueue

theorem setActivity (w : Nat) {activity : Activity F} (hne : activity ≠ .exited) :
    (p.setActivity w activity).Erases revived dropped (p'.setActivity w activity) :=
  { hp with
    workers := by
      simp only [Pipeline.setActivity, hp.workers]
      refine List.ext_getElem? fun i => ?_
      rw [List.getElem?_modify, List.getElem?_map, List.getElem?_map, List.getElem?_modify]
      cases p.workers[i]? with
      | none => simp
      | some worker =>
          by_cases hi : w = i
          · simp [hi, Worker.revive_of_ne, hne]
          · simp [hi] }

theorem setStation (h : Nat) (s : Station F) :
    (p.setStation h s).Erases revived dropped (p'.setStation h s) :=
  { hp with stations := by simp only [Pipeline.setStation, hp.stations] }

theorem setQueue (jobs : List Job) (stage : Stage) :
    (p.setQueue jobs stage).Erases revived dropped (p'.setQueue jobs stage) := by
  cases stage
  · exact { hp with prefetchQueue := rfl }
  · exact { hp with processQueue := rfl }

theorem setFeeders (lane : Nat) (feeders : Feeders) :
    ({ p with feeders := p.feeders.set lane feeders } : Pipeline F).Erases revived dropped
      { p' with feeders := p'.feeders.set lane feeders } :=
  { hp with feeders := by simp only [hp.feeders] }

theorem note (event : Event) : (p.note event).Erases revived dropped (p'.note event) :=
  { hp with }

theorem accept (w : Nat) (stage : Stage) (job : Job) :
    (p.accept w stage job).Erases revived dropped (p'.accept w stage job) := by
  unfold Pipeline.accept
  rw [hp.relay]
  split
  · exact hp.setActivity w (by simp)
  · cases stage
    · exact hp.setActivity w (by simp)
    · exact hp.setActivity w (by simp)

omit hp in
theorem eq_of_isFree (hfree : p.isFree w = true) (hw : p.workers[w]? = some worker) :
    worker = ⟨worker.stage, .idle⟩ := by
  obtain ⟨stage, activity⟩ := worker
  cases activity <;> first | rfl | simp [Pipeline.isFree, hw, Activity.isIdle] at hfree

omit hp in
theorem ne_of_isFree (hfree : p.isFree w = true) (hw : p.workers[w]? = some worker) :
    worker.activity ≠ .exited := by
  rw [eq_of_isFree hfree hw]
  simp

theorem isFree (hfree : p.isFree w = true) : p'.isFree w = true := by
  unfold Pipeline.isFree at hfree ⊢
  cases hw : p.workers[w]? with
  | none => simp [hw] at hfree
  | some worker =>
      rw [hp.getElem?_workers hw (ne_of_isFree ‹_› hw), hp.relay]
      simpa [hw] using hfree

theorem refresh? (hstep : p.refresh? w = some q) :
    ∃ q', p'.refresh? w = some q' ∧ q.Erases revived dropped q' := by
  unfold Pipeline.refresh? at hstep ⊢
  split at hstep
  · rename_i stage hw
    rw [hp.getElem?_workers hw (by simp), hp.relay]
    dsimp only
    split at hstep
    · rename_i relay hread
      cases hstep
      refine ⟨_, rfl, { hp with relay := rfl, copies := ?_ }⟩
      simp only [hp.copies]
    · obtain ⟨relay, hadopt, rfl⟩ := Option.map_eq_some_iff.mp hstep
      rw [hadopt]
      exact ⟨_, rfl, { hp with relay := rfl }⟩
  · cases hstep

omit hp in
theorem hasSender (hp : p.Erases false dropped p') (hsender : p.hasSender stage = false) :
    p'.hasSender stage = false := by
  simp only [Pipeline.hasSender, Bool.or_eq_false_iff] at hsender ⊢
  obtain ⟨⟨hpools, hfeeders⟩, hcalls⟩ := hsender
  refine ⟨⟨by rw [hp.poolSenders, hpools]; rfl, by rw [hp.feeders, hfeeders]⟩, ?_⟩
  rw [List.any_eq_false] at hcalls ⊢
  rw [hp.calls]
  exact fun call hmem => hcalls call (mem_of_mem_keep hmem)

/-- A worker that leaves stays where it is in a pipeline that has not been closed. -/
theorem receive? (hstep : p.receive? w = some q) :
    (∃ q', p'.receive? w = some q' ∧ q.Erases revived dropped q') ∨
      revived = true ∧ q.Erases revived dropped p' := by
  unfold Pipeline.receive? at hstep ⊢
  split at hstep
  · rename_i hfree
    rw [hp.isFree hfree]
    simp only [if_true]
    split at hstep
    · cases hstep
    · rename_i worker hw
      have hne := ne_of_isFree hfree hw
      rw [hp.getElem?_workers hw hne]
      dsimp only
      rw [hp.queue]
      split at hstep
      · cases hstep
        exact .inl ⟨_, rfl, (hp.setQueue _ worker.stage).accept w worker.stage _⟩
      · split at hstep
        · cases hstep
        · rename_i hsender
          cases hstep
          cases revived with
          | true =>
              have hsame : ({ worker with activity := .exited } : Worker F).revive true =
                  worker.revive true := by
                rw [eq_of_isFree hfree hw]
                rfl
              refine .inr ⟨rfl, { hp with workers := ?_ }⟩
              rw [hp.workers, Pipeline.setActivity, modify_eq_set hw, map_set_of_eq hw hsame]
          | false =>
              rw [hp.hasSender (by simpa using hsender)]
              refine .inl ⟨_, rfl, { hp with workers := ?_ }⟩
              simp only [Pipeline.setActivity, hp.workers, Worker.map_revive_false]
  · cases hstep

theorem advance (w h : Nat) (outcome : Except Fault (Station F)) {next : Activity F}
    (hne : next ≠ .exited) : (p.advance w h outcome next).Erases revived dropped
      (p'.advance w h outcome next) := by
  cases outcome with
  | ok s => exact (hp.setStation h s).setActivity w hne
  | error fault => exact hp.setActivity w (by simp)

theorem catchFault (stage : Stage) (job : Job) (s : Station F) (fault : Fault) :
    (p.catchFault stage job s fault).Erases revived dropped (p'.catchFault stage job s fault) :=
  (hp.setStation job.handler (s.keep fault)).note _

theorem work? (hstep : p.work? w = some q) :
    ∃ q', p'.work? w = some q' ∧ q.Erases revived dropped q' := by
  obtain ⟨⟨stage, activity⟩, hw, hmove⟩ := workMove_of_work? hstep
  have hne : activity ≠ .exited := by
    rintro rfl
    cases hmove
  suffices hsame : ∃ q', p'.WorkMove w activity q' ∧ q.Erases revived dropped q' by
    obtain ⟨q', hmove', herases⟩ := hsame
    exact ⟨q', hmove'.work?_eq (hp.getElem?_workers hw hne), herases⟩
  have hstation {h : Nat} {s : Station F} (hs : p.stations[h]? = some s) :
      p'.stations[h]? = some s := by rwa [hp.stations]
  have hcopy {store : F.Store} (hstore : p.relay.copy? w = some store) :
      p'.relay.copy? w = some store := by rwa [hp.relay]
  cases hmove with
  | prefetchGather job common s hs hcommon =>
      exact ⟨_, .prefetchGather job common s (hstation hs) hcommon, hp.setActivity w (by simp)⟩
  | prefetchRun job common s store data hs hstore hresult =>
      exact ⟨_, .prefetchRun job common s store data (hstation hs) (hcopy hstore) hresult,
        hp.setActivity w (by simp)⟩
  | prefetchFault job common s store fault hs hstore hresult =>
      exact ⟨_, .prefetchFault job common s store fault (hstation hs) (hcopy hstore) hresult,
        (hp.catchFault .prefetch job s _).setActivity w (by simp)⟩
  | prefetchDeposit job data s hs =>
      exact ⟨_, .prefetchDeposit job data s (hstation hs), hp.advance w job.handler _ (by simp)⟩
  | processGather job common s hs hcommon =>
      exact ⟨_, .processGather job common s (hstation hs) hcommon, hp.setActivity w (by simp)⟩
  | outOfBounds job common s hs hcell =>
      exact ⟨_, .outOfBounds job common s (hstation hs) hcell, hp.setActivity w (by simp)⟩
  | processAwait job common s cell data hs hcell hvalue =>
      exact ⟨_, .processAwait job common s cell data (hstation hs) hcell hvalue,
        hp.setActivity w (by simp)⟩
  | processSkip job common s cell hs hcell hvalue =>
      exact ⟨_, .processSkip job common s cell (hstation hs) hcell hvalue,
        hp.setActivity w (by simp)⟩
  | processRun job common data s store output hs hstore hresult =>
      exact ⟨_, .processRun job common data s store output (hstation hs) (hcopy hstore) hresult,
        hp.setActivity w (by simp)⟩
  | processFault job common data s store fault hs hstore hresult =>
      exact ⟨_, .processFault job common data s store fault (hstation hs) (hcopy hstore) hresult,
        (hp.catchFault .process job s _).setActivity w (by simp)⟩
  | processAnnounce r h s hs =>
      exact ⟨_, .processAnnounce r h s (hstation hs), hp.advance w h _ (by simp)⟩
  | processSettle r h s hs =>
      exact ⟨_, .processSettle r h s (hstation hs), hp.advance w h _ (by simp)⟩

theorem feed? (hcrew : p.Crew handlers) (hstep : p.feed? lane stage = some q) :
    ∃ q', p'.feed? lane stage = some q' ∧ q.Erases revived dropped q' := by
  cases feedMove_of_feed? hstep with
  | giveUp feeders job rest hf hpending hreceiver =>
      rw [hcrew.hasReceiver (List.mem_of_getElem? hf) (by simp [hpending])] at hreceiver
      cases hreceiver
  | enqueue feeders job rest hf hpending hreceiver hroom =>
      have hreceiver' : p'.hasReceiver stage = true := by
        obtain ⟨worker, hworker, hstage⟩ := List.any_eq_true.mp hreceiver
        refine List.any_eq_true.mpr ⟨worker, ?_, hstage⟩
        have hne : worker.activity ≠ .exited := by
          rintro heq
          simp [heq, Activity.isOver] at hstage
        have hsame : worker.revive revived = worker := Worker.revive_of_ne hne
        rw [hp.workers, ← hsame]
        exact List.mem_map_of_mem hworker
      refine ⟨({ p' with feeders := p'.feeders.set lane (feeders.setPending rest stage) }.setQueue
        (p'.queue stage ++ [job]) stage), ?_, ?_⟩
      · simp [Pipeline.feed?, hp.feeders, hf, hpending, hreceiver', hp.queue, hp.config, hroom]
      · rw [hp.queue]
        exact (hp.setFeeders lane _).setQueue _ stage

theorem handOver? (hstep : p.handOver? lane w = some q) :
    ∃ q', p'.handOver? lane w = some q' ∧ q.Erases revived dropped q' := by
  obtain ⟨feeders, worker, job, rest, hf, hw, hpending, hdepth, hfree⟩ :=
    handOverMove_of_handOver? hstep
  have hw' := hp.getElem?_workers hw (ne_of_isFree hfree hw)
  refine ⟨({ p' with feeders := p'.feeders.set lane (feeders.setPending rest worker.stage)
    }.accept w worker.stage job), ?_, ?_⟩
  · simp [Pipeline.handOver?, hp.feeders, hf, hw', hpending, hp.config, hdepth, hp.isFree hfree]
  · exact (hp.setFeeders lane _).accept w worker.stage job

theorem stepStation? {move : Station F → Option (Station F)}
    (hstep : p.stepStation? h move = some q) :
    ∃ q', p'.stepStation? h move = some q' ∧ q.Erases revived dropped q' := by
  obtain ⟨s, s', hs, hs', rfl⟩ := eq_of_stepStation? hstep
  refine ⟨p'.setStation h s', ?_, hp.setStation h s'⟩
  simp [Pipeline.stepStation?, hp.stations, hs, hs']

/-- A thread makes the same move without the dropped calls, or leaves as nobody would. -/
theorem stepThread? {actor : Actor} (hcrew : p.Crew handlers) (hactor : ∀ c, actor ≠ .caller c)
    (hstep : p.step? actor = some q) :
    (∃ q', p'.step? actor = some q' ∧ q.Erases revived dropped q') ∨
      revived = true ∧ q.Erases revived dropped p' := by
  cases actor with
  | caller c => exact absurd rfl (hactor c)
  | refresher w => exact .inl (hp.refresh? hstep)
  | receiver w => exact hp.receive? hstep
  | worker w => exact .inl (hp.work? hstep)
  | feeder lane stage => exact .inl (hp.feed? hcrew hstep)
  | handOver lane w => exact .inl (hp.handOver? hstep)
  | preparation h lane => exact .inl (hp.stepStation? hstep)
  | replay h lane => exact .inl (hp.stepStation? hstep)
  | aggregation h lane => exact .inl (hp.stepStation? hstep)

end Erases

end Pipeline

end TxPipeline
