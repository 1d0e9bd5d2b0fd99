import TxPipeline.Proofs.History
import TxPipeline.Proofs.Invariant.Queues

/-!
# What a move does to workers

A worker takes a job, works on it step by step and is free again. Callers and the threads of the
lanes leave all workers alone. No move of a thread brings a job that was not there before.
-/

namespace TxPipeline

variable {F : Flow}

/-- The job in the hands of a worker. -/
def Activity.job? : Activity F → Option Job
  | .prefetchGather job => some job
  | .prefetchRun job _ => some job
  | .prefetchDeposit job _ => some job
  | .processGather job => some job
  | .processAwait job _ => some job
  | .processRun job _ _ => some job
  | .processAnnounce r h => some ⟨h, r.tx⟩
  | .processSettle r h => some ⟨h, r.tx⟩
  | .idle => none
  | .exited => none
  | .dead _ => none

theorem exists_due_of_job? {activity : Activity F} {job : Job} (h : activity.job? = some job) :
    ∃ c, job ∈ activity.due c := by
  cases activity <;> simp only [Activity.job?, Option.some.injEq, reduceCtorEq] at h <;> subst h <;>
    first
    | exact ⟨.deposited, Multiset.mem_singleton_self _⟩
    | exact ⟨.settled, Multiset.mem_singleton_self _⟩

/-- The stage to which the activity belongs, if a job is in hand. -/
def Activity.stage? : Activity F → Option Stage
  | .prefetchGather _ => some .prefetch
  | .prefetchRun _ _ => some .prefetch
  | .prefetchDeposit _ _ => some .prefetch
  | .processGather _ => some .process
  | .processAwait _ _ => some .process
  | .processRun _ _ _ => some .process
  | .processAnnounce _ _ => some .process
  | .processSettle _ _ => some .process
  | .idle => none
  | .exited => none
  | .dead _ => none

/-- What a worker can go on to with the job in its hands. -/
inductive Activity.Turns : Activity F → Activity F → Prop
  | prefetchGather (job : Job) (common : F.Common) :
      Turns (.prefetchGather job) (.prefetchRun job common)
  | prefetchRun (job : Job) (common : F.Common) (data : Option F.Data) :
      Turns (.prefetchRun job common) (.prefetchDeposit job data)
  | prefetchDeposit (job : Job) (data : Option F.Data) : Turns (.prefetchDeposit job data) .idle
  | processGather (job : Job) (common : F.Common) :
      Turns (.processGather job) (.processAwait job common)
  | processAwait (job : Job) (common : F.Common) (data : F.Data) :
      Turns (.processAwait job common) (.processRun job common data)
  | processSkip (job : Job) (common : F.Common) :
      Turns (.processAwait job common) (.processAnnounce ⟨job.tx, none⟩ job.handler)
  | processRun (job : Job) (common : F.Common) (data : F.Data) (output : Option F.Output) :
      Turns (.processRun job common data) (.processAnnounce ⟨job.tx, output⟩ job.handler)
  | processAnnounce (r : TxResult F.Output) (h : Nat) :
      Turns (.processAnnounce r h) (.processSettle r h)
  | processSettle (r : TxResult F.Output) (h : Nat) : Turns (.processSettle r h) .idle
  | die {activity : Activity F} (job : Job) (fault : Fault) (hjob : activity.job? = some job)
      (hfault : ∀ stage i, fault ≠ .beforeSnapshot stage i) : Turns activity (.dead fault)

/-- What a worker whose copy of the store is `copy` can turn into. -/
inductive Worker.Turns (copy : Option F.Store) : Worker F → Worker F → Prop
  | stay (worker : Worker F) : Turns copy worker worker
  | accept (stage : Stage) (job : Job) (hcopy : copy.isSome = true) :
      Turns copy ⟨stage, .idle⟩ ⟨stage, Pipeline.gatherOf stage job⟩
  | strand (stage : Stage) (job : Job) (hcopy : copy = none) :
      Turns copy ⟨stage, .idle⟩ ⟨stage, .dead (.beforeSnapshot stage job.tx.index)⟩
  | leave (stage : Stage) : Turns copy ⟨stage, .idle⟩ ⟨stage, .exited⟩
  | work (stage : Stage) {activity activity' : Activity F} (h : activity.Turns activity') :
      Turns copy ⟨stage, activity⟩ ⟨stage, activity'⟩

theorem Activity.Turns.stage? {activity activity' : Activity F} (h : activity.Turns activity') :
    activity'.stage? = none ∨ activity'.stage? = activity.stage? := by
  cases h <;> first | exact .inl rfl | exact .inr rfl

/-- A worker works on no job but those of its stage. -/
def Worker.Suits (worker : Worker F) : Prop :=
  worker.activity.stage? = none ∨ worker.activity.stage? = some worker.stage

theorem Worker.Turns.suits {copy : Option F.Store} {worker worker' : Worker F}
    (h : worker.Turns copy worker') (hsuits : worker.Suits) : worker'.Suits := by
  cases h with
  | stay => exact hsuits
  | accept stage job hcopy => cases stage <;> exact .inr rfl
  | strand stage job hcopy => exact .inl rfl
  | leave stage => exact .inl rfl
  | work stage h =>
      rcases h.stage? with hnone | hsame
      · exact .inl hnone
      · exact hsuits.imp hsame.trans hsame.trans

namespace Pipeline

variable {p q : Pipeline F} {c w h lane : Nat} {stage : Stage} {worker : Worker F}

theorem beforeSnapshot_ne_of_announce {s : Station F} {r : TxResult F.Output} {fault : Fault}
    (h : s.announce r = .error fault) (stage : Stage) (i : Nat) :
    fault ≠ .beforeSnapshot stage i := by
  unfold Station.announce at h
  split at h <;> cases h
  simp

theorem beforeSnapshot_ne_of_settle {s : Station F} {r : TxResult F.Output} {fault : Fault}
    (h : s.settle r = .error fault) (stage : Stage) (i : Nat) :
    fault ≠ .beforeSnapshot stage i := by
  unfold Station.settle at h
  split at h
  · cases h
    simp
  · split at h <;> cases h
    simp

theorem beforeSnapshot_ne_of_deposit {s : Station F} {index : Nat} {data : Option F.Data}
    {fault : Fault} (h : s.deposit index data = .error fault) (stage : Stage) (i : Nat) :
    fault ≠ .beforeSnapshot stage i := by
  unfold Station.deposit at h
  split at h
  · cases h
    simp
  · split at h <;> cases h
    simp

/-- The worker that moves goes on with its job, and all others stay as they are. -/
theorem exists_turns_of_work? (hstep : p.work? w = some q) : ∃ worker activity,
    p.workers[w]? = some worker ∧ worker.activity.Turns activity ∧
      q.workers = p.workers.set w { worker with activity } := by
  obtain ⟨⟨stage, activity⟩, hw, hmove⟩ := workMove_of_work? hstep
  have hmodify (next : Activity F) :
      (p.workers.modify w fun worker => { worker with activity := next }) =
        p.workers.set w ⟨stage, next⟩ := modify_eq_set hw _
  cases hmove with
  | prefetchGather job common => exact ⟨_, _, hw, .prefetchGather job common, hmodify _⟩
  | prefetchRun job common => exact ⟨_, _, hw, .prefetchRun job common _, hmodify _⟩
  | prefetchFault job common => exact ⟨_, _, hw, .prefetchRun job common _, hmodify _⟩
  | prefetchDeposit job data s =>
      cases hdeposit : s.deposit job.tx.index data with
      | ok s' => exact ⟨_, _, hw, .prefetchDeposit job data, hmodify _⟩
      | error fault =>
          exact ⟨_, _, hw, .die job fault rfl (beforeSnapshot_ne_of_deposit hdeposit), hmodify _⟩
  | processGather job common => exact ⟨_, _, hw, .processGather job common, hmodify _⟩
  | outOfBounds job common => exact ⟨_, _, hw, .die job _ rfl (by simp), hmodify _⟩
  | processAwait job common => exact ⟨_, _, hw, .processAwait job common _, hmodify _⟩
  | processSkip job common => exact ⟨_, _, hw, .processSkip job common, hmodify _⟩
  | processRun job common data => exact ⟨_, _, hw, .processRun job common data _, hmodify _⟩
  | processFault job common data => exact ⟨_, _, hw, .processRun job common data _, hmodify _⟩
  | processAnnounce r h s =>
      cases hannounce : s.announce r with
      | ok s' => exact ⟨_, _, hw, .processAnnounce r h, hmodify _⟩
      | error fault =>
          exact ⟨_, _, hw, .die ⟨h, r.tx⟩ fault rfl (beforeSnapshot_ne_of_announce hannounce),
            hmodify _⟩
  | processSettle r h s =>
      cases hsettle : s.settle r with
      | ok s' => exact ⟨_, _, hw, .processSettle r h, hmodify _⟩
      | error fault =>
          exact ⟨_, _, hw, .die ⟨h, r.tx⟩ fault rfl (beforeSnapshot_ne_of_settle hsettle),
            hmodify _⟩

/-- Callers touch neither the workers nor their queues. -/
theorem workers_of_stepCall? (hstep : p.stepCall? c = some q) :
    q.workers = p.workers ∧ q.prefetchQueue = p.prefetchQueue ∧
      q.processQueue = p.processQueue := by
  cases callMove_of_stepCall? hstep with
  | start store rules block next hcall hstart =>
      obtain ⟨_, _, _, _, _, _, _, _, _, rfl⟩ := eq_of_stepStart? hstart
      exact ⟨rfl, rfl, rfl⟩
  | finish store block receipts next hcall hfinish =>
      obtain ⟨_, _, _, _, _, rfl⟩ := eq_of_stepFinish? hfinish
      exact ⟨rfl, rfl, rfl⟩
  | close next hcall hclose =>
      obtain ⟨_, _, _, _, rfl⟩ := eq_of_stepClose? hclose
      exact ⟨rfl, rfl, rfl⟩

/-- Every worker of `after` is what became of the worker of `before` in its place. -/
def Employs (relay : Snapshot.Relay F.Store) (before after : List (Worker F)) : Prop :=
  after.length = before.length ∧ ∀ w worker', after[w]? = some worker' →
    ∃ worker, before[w]? = some worker ∧ Worker.Turns (relay.copy? w) worker worker'

theorem Employs.refl (relay : Snapshot.Relay F.Store) (workers : List (Worker F)) :
    Employs relay workers workers :=
  ⟨rfl, fun _ worker hw => ⟨worker, hw, .stay worker⟩⟩

theorem Employs.set {relay : Snapshot.Relay F.Store} {workers : List (Worker F)}
    {worker' : Worker F} (hw : workers[w]? = some worker)
    (hturns : Worker.Turns (relay.copy? w) worker worker') :
    Employs relay workers (workers.set w worker') := by
  refine ⟨List.length_set, ?_⟩
  intro i other hother
  rw [List.getElem?_set] at hother
  split at hother
  · rename_i heq
    subst heq
    split at hother <;> cases hother
    exact ⟨worker, hw, hturns⟩
  · exact ⟨other, hother, .stay other⟩

theorem employs_accept (hw : p.workers[w]? = some worker) (hidle : worker.activity = .idle)
    (job : Job) : Employs p.relay p.workers (p.accept w worker.stage job).workers := by
  obtain ⟨stage, activity⟩ := worker
  obtain rfl : activity = .idle := hidle
  cases hcopy : p.relay.copy? w with
  | none =>
      have haccept : (p.accept w stage job).workers =
          p.workers.set w ⟨stage, .dead (.beforeSnapshot stage job.tx.index)⟩ := by
        simp only [accept, hcopy]
        exact modify_eq_set hw _
      rw [haccept]
      exact .set hw (hcopy ▸ .strand stage job rfl)
  | some store =>
      have haccept : (p.accept w stage job).workers =
          p.workers.set w ⟨stage, gatherOf stage job⟩ := by
        rw [accept_eq hcopy]
        exact modify_eq_set hw _
      rw [haccept]
      exact .set hw (hcopy ▸ .accept stage job rfl)

theorem employs_receive? (hstep : p.receive? w = some q) :
    Employs p.relay p.workers q.workers := by
  unfold receive? at hstep
  split at hstep
  · rename_i hfree
    split at hstep
    · cases hstep
    · rename_i worker hw
      have hidle := idle_of_isFree hw hfree
      split at hstep
      · rename_i job rest hqueue
        cases hstep
        obtain ⟨first, second, hset⟩ := exists_setQueue p rest worker.stage
        rw [hset]
        exact employs_accept
          (p := { p with prefetchQueue := first, processQueue := second }) hw hidle job
      · split at hstep <;> cases hstep
        rw [show (p.setActivity w .exited).workers =
          p.workers.set w { worker with activity := .exited } from modify_eq_set hw _]
        obtain ⟨stage, activity⟩ := worker
        obtain rfl : activity = .idle := hidle
        exact .set hw (.leave stage)
  · cases hstep

theorem employs_handOver? (hstep : p.handOver? lane w = some q) :
    Employs p.relay p.workers q.workers := by
  obtain ⟨feeders, worker, job, rest, -, hw, -, -, hfree⟩ := handOverMove_of_handOver? hstep
  exact employs_accept
    (p := { p with feeders := p.feeders.set lane (feeders.setPending rest worker.stage) }) hw
    (idle_of_isFree hw hfree) job

/-- Whoever moves, each worker stays or goes on with what it does. -/
theorem employs_of_step? {actor : Actor} (hstep : p.step? actor = some q) :
    Employs p.relay p.workers q.workers := by
  have hstation {h : Nat} {move : Station F → Option (Station F)}
      (hstep : p.stepStation? h move = some q) : Employs p.relay p.workers q.workers := by
    obtain ⟨s, s', -, -, rfl⟩ := eq_of_stepStation? hstep
    exact .refl _ _
  cases actor with
  | caller c => exact (workers_of_stepCall? hstep).1 ▸ .refl _ _
  | receiver w => exact employs_receive? hstep
  | handOver lane w => exact employs_handOver? hstep
  | worker w =>
      obtain ⟨worker, activity, hw, hturns, hq⟩ := exists_turns_of_work? hstep
      rw [hq]
      exact .set hw (.work worker.stage hturns)
  | refresher w =>
      obtain ⟨relay, copies, rfl, -⟩ := eq_of_refresh? hstep
      exact .refl _ _
  | feeder lane stage =>
      obtain ⟨prefetchQueue, processQueue, feeders, rfl⟩ := eq_of_feed? hstep
      exact .refl _ _
  | preparation h lane => exact hstation hstep
  | replay h lane => exact hstation hstep
  | aggregation h lane => exact hstation hstep

/-! ## Threads bring no jobs -/

theorem due_le_of_turns {activity activity' : Activity F} (h : activity.Turns activity')
    (c : Checkpoint) : activity'.due c ≤ activity.due c := by
  cases h with
  | die job fault hjob hfault => exact Multiset.zero_le _
  | _ => cases c <;> simp [Activity.due, Checkpoint.stage]

theorem load_setActivity_le {activity : Activity F} {c : Checkpoint}
    (hw : p.workers[w]? = some worker) (hdue : activity.due c ≤ worker.activity.due c) :
    (p.setActivity w activity).load c ≤ p.load c := by
  have hset := load_setActivity hw activity c
  refine le_of_add_le_add_right (a := worker.activity.due c) ?_
  rw [hset]
  exact add_le_add_right hdue (p.load c)

theorem load_accept_le (hw : p.workers[w]? = some worker)
    (hidle : worker.activity = .idle) (stage : Stage) (job : Job) (c : Checkpoint) :
    (p.accept w stage job).load c ≤ p.load c + if c.stage = stage then {job} else 0 := by
  have hzero : worker.activity.due c = 0 := by
    rw [hidle]
    rfl
  cases hcopy : p.relay.copy? w with
  | none =>
      have hset := load_setActivity hw (.dead (.beforeSnapshot stage job.tx.index)) c
      rw [hzero, add_zero] at hset
      simp only [accept, hcopy]
      rw [hset]
      exact add_le_add_right (Multiset.zero_le _) (p.load c)
  | some store =>
      have hset := load_setActivity hw (gatherOf stage job) c
      rw [hzero, add_zero, due_gatherOf] at hset
      rw [accept_eq hcopy, hset]

theorem load_work?_le (hstep : p.work? w = some q) (c : Checkpoint) : q.load c ≤ p.load c := by
  obtain ⟨worker, activity, hw, hturns, hworkers⟩ := exists_turns_of_work? hstep
  obtain ⟨stations, workers, log, rfl⟩ := eq_of_work? hstep
  obtain rfl : workers = p.workers.set w { worker with activity } := hworkers
  have hload := load_setActivity_le (c := c) hw (due_le_of_turns hturns c)
  rwa [setActivity, modify_eq_set hw] at hload

theorem load_receive?_le (hstep : p.receive? w = some q) (c : Checkpoint) :
    q.load c ≤ p.load c := by
  unfold receive? at hstep
  split at hstep
  swap
  · cases hstep
  rename_i hfree
  split at hstep
  · cases hstep
  rename_i worker hw
  have hidle := idle_of_isFree hw hfree
  split at hstep
  · rename_i job rest hqueue
    cases hstep
    have haccept := load_accept_le (p := p.setQueue rest worker.stage)
      (by rwa [workers_setQueue]) hidle worker.stage job c
    refine haccept.trans (le_of_eq ?_)
    rw [load, load, workers_setQueue, feeders_setQueue, queue_setQueue]
    split
    · rename_i heq
      rw [heq, hqueue, ← Multiset.cons_coe, ← Multiset.singleton_add]
      abel
    · rw [add_zero]
  · split at hstep <;> cases hstep
    exact load_setActivity_le hw (Multiset.zero_le _)

theorem load_feed?_le (hstep : p.feed? lane stage = some q) (c : Checkpoint) :
    q.load c ≤ p.load c := by
  cases feedMove_of_feed? hstep with
  | enqueue feeders job rest hf hpending => exact (load_feed hf hpending c).le
  | giveUp feeders job rest hf =>
      have hsum := sum_map_set (fun f : Feeders => (f.pending c.stage : Multiset Job)) hf
        (feeders.setPending [] stage)
      have hle : pendingLoad (p.feeders.set lane (feeders.setPending [] stage)) c ≤
          pendingLoad p.feeders c := by
        refine le_of_add_le_add_right (a := (feeders.pending c.stage : Multiset Job)) ?_
        rw [pendingLoad, hsum, pendingLoad]
        apply add_le_add_right
        rw [Feeders.pending_setPending]
        split
        · exact Multiset.zero_le _
        · exact le_rfl
      exact add_le_add_left (add_le_add_left hle _) _

theorem load_handOver?_le (hstep : p.handOver? lane w = some q) (c : Checkpoint) :
    q.load c ≤ p.load c := by
  obtain ⟨feeders, worker, job, rest, hf, hw, hpending, -, hfree⟩ :=
    handOverMove_of_handOver? hstep
  have hidle := idle_of_isFree hw hfree
  have haccept := load_accept_le
    (p := { p with feeders := p.feeders.set lane (feeders.setPending rest worker.stage) })
    hw hidle worker.stage job c
  refine haccept.trans (le_of_eq ?_)
  rw [load, load, ← pendingLoad_set hf hpending c]
  change _ + (p.queue c.stage : Multiset Job) + _ + _ = _
  abel

/-- Only callers dispatch jobs. -/
theorem load_le_of_step? {actor : Actor} (hactor : ∀ c, actor ≠ .caller c)
    (hstep : p.step? actor = some q)
    (c : Checkpoint) : q.load c ≤ p.load c := by
  have hstation {h : Nat} {move : Station F → Option (Station F)}
      (hstep : p.stepStation? h move = some q) : q.load c ≤ p.load c := by
    obtain ⟨s, s', -, -, rfl⟩ := eq_of_stepStation? hstep
    exact le_rfl
  cases actor with
  | caller d => exact absurd rfl (hactor d)
  | refresher w =>
      obtain ⟨relay, copies, rfl, -⟩ := eq_of_refresh? hstep
      exact le_rfl
  | receiver w => exact load_receive?_le hstep c
  | worker w => exact load_work?_le hstep c
  | feeder lane stage => exact load_feed?_le hstep c
  | handOver lane w => exact load_handOver?_le hstep c
  | preparation h lane => exact hstation hstep
  | replay h lane => exact hstation hstep
  | aggregation h lane => exact hstation hstep

end Pipeline

end TxPipeline
