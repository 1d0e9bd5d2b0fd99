import TxPipeline.Proofs.Invariant.Workers

/-!
# Queues and copies keep the invariant

Jobs move from the feeders through the queues to workers that hold a copy of the store of the block.
A worker leaves only when nobody can send to it any more, so that a feeder always finds a receiver.
-/

namespace TxPipeline.Pipeline

variable {F : Flow} {calm : Prop} {handlers : List (Handler F)} {past : List (Work F)}
  {work : Work F} {phase : Phase F} {p q : Pipeline F} {w lane : Nat} {worker : Worker F}
  {stage : Stage} {job : Job} {rest : List Job} {feeders : Feeders}

/-- What a worker begins with when it takes a job. -/
def gatherOf : Stage → Job → Activity F
  | .prefetch, job => .prefetchGather job
  | .process, job => .processGather job

theorem accept_eq {store : F.Store} (hcopy : p.relay.copy? w = some store) :
    p.accept w stage job = p.setActivity w (gatherOf stage job) := by
  unfold accept
  rw [hcopy]
  cases stage <;> rfl

theorem due_gatherOf (c : Checkpoint) :
    (gatherOf stage job : Activity F).due c = if c.stage = stage then {job} else 0 := by
  cases stage <;> rfl

theorem fits_gatherOf : (gatherOf stage job : Activity F).Fits handlers work := by
  cases stage <;> trivial

theorem gatherOf_ne_dead (fault : Fault) : (gatherOf stage job : Activity F) ≠ .dead fault := by
  cases stage <;> simp [gatherOf]

theorem gatherOf_ne_exited : (gatherOf stage job : Activity F) ≠ .exited := by
  cases stage <;> simp [gatherOf]

theorem idle_of_isFree (hw : p.workers[w]? = some worker) (hfree : p.isFree w = true) :
    worker.activity = .idle := by
  simp only [isFree, hw, Bool.and_eq_true] at hfree
  cases hactivity : worker.activity <;> simp [hactivity, Activity.isIdle] at hfree
  rfl

theorem exists_checkpoint (stage : Stage) : ∃ c : Checkpoint, c.stage = stage := by
  cases stage
  · exact ⟨.deposited, rfl⟩
  · exact ⟨.settled, rfl⟩

theorem pending_of_hasSender (hsender : p.hasSender stage = false) :
    p.poolSenders = false ∧ ∀ feeders ∈ p.feeders, feeders.pending stage = [] := by
  simp only [hasSender, Bool.or_eq_false_iff, List.any_eq_false] at hsender
  obtain ⟨⟨hsenders, hpending⟩, -⟩ := hsender
  exact ⟨hsenders, fun feeders hf => by simpa using hpending feeders hf⟩

namespace Crew

/-- A crew does not notice that jobs move, as long as none comes to where a worker has left. -/
theorem moveJobs (hc : p.Crew handlers) {feeders : List Feeders} {first second : List Job}
    (hexited : ∀ worker ∈ p.workers, worker.activity = .exited →
      ({ p with feeders, prefetchQueue := first, processQueue := second } : Pipeline F).queue
        worker.stage = [] ∧
      ∀ f ∈ feeders, f.pending worker.stage = []) :
    ({ p with feeders, prefetchQueue := first, processQueue := second } : Pipeline F).Crew
      handlers :=
  { hc with
    exited := fun worker hworker hexit =>
      ⟨(hc.exited worker hworker hexit).1, hexited worker hworker hexit⟩ }

theorem hasReceiver (hc : p.Crew handlers) (hf : feeders ∈ p.feeders)
    (hpending : feeders.pending stage ≠ []) : p.hasReceiver stage = true := by
  obtain ⟨worker, hworker, rfl⟩ := List.mem_map.mp (hc.staffed stage)
  refine List.any_eq_true.mpr ⟨worker, hworker, ?_⟩
  cases hactivity : worker.activity with
  | exited => exact absurd ((hc.exited worker hworker hactivity).2.2 feeders hf) hpending
  | dead fault => exact absurd hactivity (hc.alive worker hworker fault)
  | _ => simp [Activity.isOver]

theorem exited_of_isOver (hc : p.Crew handlers) (hworker : worker ∈ p.workers)
    (hover : worker.activity.isOver = true) : worker.activity = .exited := by
  cases hactivity : worker.activity with
  | exited => rfl
  | dead fault => exact absurd hactivity (hc.alive worker hworker fault)
  | _ => simp [hactivity, Activity.isOver] at hover

end Crew

/-! ## While a block is in work -/

namespace During

variable (hp : p.During calm handlers past work phase)

include hp

/-- No worker of a stage has left as long as there is a job for it. -/
theorem ne_exited {c : Checkpoint} (hj : job ∈ p.queue c.stage ∨
      ∃ feeders ∈ p.feeders, job ∈ feeders.pending c.stage) (hworker : worker ∈ p.workers)
    (hstage : worker.stage = c.stage) : worker.activity ≠ .exited := by
  intro hexit
  obtain ⟨-, hqueue, hpending⟩ := hp.crew.exited worker hworker hexit
  rw [hstage] at hqueue hpending
  rcases hj with hj | ⟨feeders, hf, hj⟩
  · rw [hqueue] at hj
    cases hj
  · rw [hpending feeders hf] at hj
    cases hj

/-- A free worker takes the oldest job of its queue, or leaves because there will be none. -/
theorem receive?_cases (hstep : p.receive? w = some q) : ∃ worker, p.workers[w]? = some worker ∧
    worker.activity = .idle ∧
    ((∃ job rest, p.queue worker.stage = job :: rest ∧
        q = (p.setQueue rest worker.stage).setActivity w (gatherOf worker.stage job)) ∨
      (p.queue worker.stage = [] ∧ p.hasSender worker.stage = false ∧
        q = p.setActivity w .exited)) := by
  unfold Pipeline.receive? at hstep
  split at hstep
  swap
  · cases hstep
  rename_i hfree
  split at hstep
  · cases hstep
  rename_i worker hw
  refine ⟨worker, hw, idle_of_isFree hw hfree, ?_⟩
  split at hstep
  · rename_i job rest hqueue
    cases hstep
    obtain ⟨c, hc⟩ := exists_checkpoint worker.stage
    have hj : job ∈ p.queue c.stage := by
      rw [hc, hqueue]
      exact List.mem_cons_self
    have hcopy := hp.copy?_eq hw (mem_load_of_queue hj)
    obtain ⟨first, second, hset⟩ := exists_setQueue p rest worker.stage
    refine .inl ⟨job, rest, hqueue, ?_⟩
    rw [hset]
    exact accept_eq (p := { p with prefetchQueue := first, processQueue := second }) hcopy
  · rename_i hqueue
    split at hstep
    · cases hstep
    · rename_i hsender
      cases hstep
      exact .inr ⟨hqueue, by simpa using hsender, rfl⟩

theorem receive? (hstep : p.receive? w = some q) : q.During calm handlers past work phase := by
  obtain ⟨worker, hw, hidle, ⟨job, rest, hqueue, rfl⟩ | ⟨hqueue, hsender, rfl⟩⟩ :=
    hp.receive?_cases hstep
  · obtain ⟨c, hc⟩ := exists_checkpoint worker.stage
    have hj : job ∈ p.queue c.stage := by
      rw [hc, hqueue]
      exact List.mem_cons_self
    have hstays (c : Checkpoint) :=
      load_receive hw hidle hqueue
        (show (gatherOf worker.stage job : Activity F).due c = _ from due_gatherOf c)
    have hqueues := queue_setQueue p rest worker.stage
    obtain ⟨first, second, hset⟩ := exists_setQueue p rest worker.stage
    rw [hset] at hstays hqueues ⊢
    have hcrew : Crew handlers { p with prefetchQueue := first, processQueue := second } := by
      apply hp.crew.moveJobs
      intro other hother hexit
      obtain ⟨-, hnil, hpending⟩ := hp.crew.exited other hother hexit
      refine ⟨?_, hpending⟩
      rw [hqueues, if_neg, hnil]
      exact fun heq => hp.ne_exited (.inl hj) hother (heq.trans hc.symm) hexit
    exact hp.shift
      (hcrew.setActivity hw gatherOf_ne_dead fun h => absurd h gatherOf_ne_exited)
      hstays (hp.calls.congr rfl rfl rfl rfl) rfl rfl rfl rfl
      (fits_setActivity (p := { p with prefetchQueue := _, processQueue := _ }) hp.activities
        hw fits_gatherOf)
  · obtain ⟨hsenders, hpending⟩ := pending_of_hasSender hsender
    refine hp.turn .exited hw ?_ trivial (by simp) fun _ => ⟨hsenders, hqueue, hpending⟩
    intro c
    rw [hidle]
    rfl

/-- As long as a feeder has a job for a stage, only workers of the other stage have left. -/
theorem exited_setPending (hf : p.feeders[lane]? = some feeders)
    (hpending : feeders.pending stage = job :: rest) (hworker : worker ∈ p.workers)
    (hexit : worker.activity = .exited) : worker.stage ≠ stage ∧ p.queue worker.stage = [] ∧
      ∀ f ∈ p.feeders.set lane (feeders.setPending rest stage), f.pending worker.stage = [] := by
  obtain ⟨c, rfl⟩ := exists_checkpoint stage
  have hj : job ∈ feeders.pending c.stage := by
    rw [hpending]
    exact List.mem_cons_self
  have hne : worker.stage ≠ c.stage := fun heq =>
    hp.ne_exited (.inr ⟨feeders, List.mem_of_getElem? hf, hj⟩) hworker heq hexit
  obtain ⟨-, hqueue, hother⟩ := hp.crew.exited worker hworker hexit
  refine ⟨hne, hqueue, ?_⟩
  intro f hmem
  rcases List.mem_or_eq_of_mem_set hmem with hmem | rfl
  · exact hother f hmem
  · rw [Feeders.pending_setPending, if_neg hne]
    exact hother feeders (List.mem_of_getElem? hf)

/-- A feeder finds somebody who can receive, and puts its next job into the queue. -/
theorem feed?_cases (hstep : p.feed? lane stage = some q) : ∃ feeders job rest,
    p.feeders[lane]? = some feeders ∧ feeders.pending stage = job :: rest ∧
    q = { p with feeders := p.feeders.set lane (feeders.setPending rest stage) }.setQueue
      (p.queue stage ++ [job]) stage := by
  cases feedMove_of_feed? hstep with
  | enqueue feeders job rest hf hpending => exact ⟨feeders, job, rest, hf, hpending, rfl⟩
  | giveUp feeders job rest hf hpending hreceiver =>
      rw [hp.crew.hasReceiver (List.mem_of_getElem? hf) (by simp [hpending])] at hreceiver
      cases hreceiver

theorem feed? (hstep : p.feed? lane stage = some q) : q.During calm handlers past work phase := by
  obtain ⟨feeders, job, rest, hf, hpending, rfl⟩ := hp.feed?_cases hstep
  have hstays := load_feed hf hpending
  have hqueues := queue_setQueue
    { p with feeders := p.feeders.set lane (feeders.setPending rest stage) }
    (p.queue stage ++ [job]) stage
  obtain ⟨first, second, hset⟩ := exists_setQueue
    { p with feeders := p.feeders.set lane (feeders.setPending rest stage) }
    (p.queue stage ++ [job]) stage
  rw [hset] at hstays hqueues ⊢
  refine hp.shift (hp.crew.moveJobs ?_) hstays (hp.calls.congr rfl rfl rfl rfl) rfl rfl
    List.length_set rfl hp.activities
  intro other hother hexit
  obtain ⟨hne, hqueue, hnil⟩ := hp.exited_setPending hf hpending hother hexit
  refine ⟨?_, hnil⟩
  rw [hqueues, if_neg hne]
  exact hqueue

/-- A feeder hands its next job to a free worker. -/
theorem handOver?_cases (hstep : p.handOver? lane w = some q) : ∃ feeders worker job rest,
    p.feeders[lane]? = some feeders ∧ p.workers[w]? = some worker ∧ worker.activity = .idle ∧
    feeders.pending worker.stage = job :: rest ∧
    q = { p with feeders := p.feeders.set lane (feeders.setPending rest worker.stage) }.setActivity
      w (gatherOf worker.stage job) := by
  obtain ⟨feeders, worker, job, rest, hf, hw, hpending, -, hfree⟩ :=
    handOverMove_of_handOver? hstep
  obtain ⟨c, hc⟩ := exists_checkpoint worker.stage
  have hj : job ∈ feeders.pending c.stage := by
    rw [hc, hpending]
    exact List.mem_cons_self
  have hload : job ∈ p.load c := mem_load_of_pending (List.mem_of_getElem? hf) hj
  have haccept (fs : List Feeders) : ({ p with feeders := fs } : Pipeline F).accept w
      worker.stage job = ({ p with feeders := fs } : Pipeline F).setActivity w
        (gatherOf worker.stage job) := accept_eq (hp.copy?_eq hw hload)
  exact ⟨feeders, worker, job, rest, hf, hw, idle_of_isFree hw hfree, hpending, haccept _⟩

theorem handOver? (hstep : p.handOver? lane w = some q) :
    q.During calm handlers past work phase := by
  obtain ⟨feeders, worker, job, rest, hf, hw, hidle, hpending, rfl⟩ := hp.handOver?_cases hstep
  have hcrew : Crew handlers { p with
      feeders := p.feeders.set lane (feeders.setPending rest worker.stage) } :=
    hp.crew.moveJobs fun other hother hexit =>
      (hp.exited_setPending hf hpending hother hexit).2
  refine hp.shift (hcrew.setActivity hw gatherOf_ne_dead fun h => absurd h gatherOf_ne_exited)
    (fun c => load_handOver hf hpending hw hidle (due_gatherOf c))
    (hp.calls.congr rfl rfl rfl rfl) rfl rfl ?_ rfl
    (fits_setActivity (p := { p with feeders := _ }) hp.activities hw fits_gatherOf)
  exact List.length_set

theorem setRelay {relay : Snapshot.Relay F.Store} (copies : Nat)
    (hrelay : phase.Distributes work relay)
    (hsizes : relay.receivers.length = p.relay.receivers.length ∧
      relay.distributor.workers = p.relay.distributor.workers) :
    ({ p with relay := relay, copies := copies } : Pipeline F).During calm handlers past work
      phase :=
  { hp with
    crew := { hp.crew with
      receivers := hsizes.1.trans hp.crew.receivers
      reports := hsizes.2.trans (hp.crew.reports.trans hsizes.1.symm) }
    calls := hp.calls.congr rfl rfl rfl rfl
    relay := hrelay
    traffic := hp.traffic.of_load_eq fun _ => rfl }

theorem refresh? (hstep : p.refresh? w = some q) : q.During calm handlers past work phase := by
  unfold Pipeline.refresh? at hstep
  split at hstep
  · obtain ⟨c, plan, next, rfl⟩ | ⟨copy, hrests⟩ := hp.relay.distributing_or_rests
    · split at hstep
      · rename_i relay hread
        cases hstep
        exact hp.setRelay _ (Snapshot.Relay.Distributes.read? hp.relay hread)
          (Snapshot.Relay.sizes_of_read? hread)
      · obtain ⟨relay, hadopt, rfl⟩ := Option.map_eq_some_iff.mp hstep
        exact hp.setRelay p.copies (Snapshot.Relay.Distributes.adopt? hp.relay hadopt)
          (Snapshot.Relay.sizes_of_adopt? hadopt)
    · simp [hrests.read?, hrests.adopt?] at hstep
  · cases hstep

/-- Between two moves of workers that hold a job, and of callers, no job passes anything. -/
theorem load_eq_of_step? {actor : Actor} (hcaller : ∀ c, actor ≠ .caller c)
    (hworker : ∀ w, actor ≠ .worker w) (hstep : p.step? actor = some q) (c : Checkpoint) :
    q.load c = p.load c := by
  have hstation {h : Nat} {move : Station F → Option (Station F)}
      (hstep : p.stepStation? h move = some q) : q.load c = p.load c := by
    obtain ⟨s, s', -, -, rfl⟩ := eq_of_stepStation? hstep
    rfl
  cases actor with
  | caller d => exact absurd rfl (hcaller d)
  | worker w => exact absurd rfl (hworker w)
  | refresher w =>
      obtain ⟨relay, copies, rfl, -⟩ := eq_of_refresh? hstep
      rfl
  | receiver w =>
      obtain ⟨worker, hw, hidle, ⟨job, rest, hqueue, rfl⟩ | ⟨-, -, rfl⟩⟩ :=
        hp.receive?_cases hstep
      · exact load_receive hw hidle hqueue (due_gatherOf c)
      · apply load_setActivity_of_eq hw
        rw [hidle]
        rfl
  | feeder lane stage =>
      obtain ⟨feeders, job, rest, hf, hpending, rfl⟩ := hp.feed?_cases hstep
      exact load_feed hf hpending c
  | handOver lane w =>
      obtain ⟨feeders, worker, job, rest, hf, hw, hidle, hpending, rfl⟩ :=
        hp.handOver?_cases hstep
      exact load_handOver hf hpending hw hidle (due_gatherOf c)
  | preparation h lane => exact hstation hstep
  | replay h lane => exact hstation hstep
  | aggregation h lane => exact hstation hstep

end During

/-! ## Nothing to do -/

theorem refresh?_of_rests {copy : Option F.Store} (hrests : p.relay.Rests copy) :
    p.refresh? w = none := by
  unfold Pipeline.refresh?
  split
  · simp [hrests.read?, hrests.adopt?]
  · rfl

section Unloaded

variable (hload : ∀ c, p.load c = 0)

include hload

theorem idle_or_over_of_unloaded (hworker : worker ∈ p.workers) :
    worker.activity = .idle ∨ worker.activity.isOver = true := by
  have hdue (c : Checkpoint) : worker.activity.due c = 0 := by
    apply Multiset.eq_zero_of_forall_notMem
    intro job hj
    have hmem : job ∈ p.load c :=
      Multiset.mem_add.mpr (.inr (mem_sum_map.mpr ⟨worker, hworker, hj⟩))
    rw [hload] at hmem
    exact Multiset.notMem_zero _ hmem
  have hdeposited := hdue .deposited
  have hsettled := hdue .settled
  cases hactivity : worker.activity with
  | idle => exact .inl rfl
  | exited => exact .inr rfl
  | dead fault => exact .inr rfl
  | _ => simp [hactivity, Activity.due, Checkpoint.stage] at hdeposited hsettled

theorem queue_eq_nil_of_unloaded (stage : Stage) : p.queue stage = [] := by
  obtain ⟨c, rfl⟩ := exists_checkpoint stage
  apply List.eq_nil_iff_forall_not_mem.mpr
  intro job hj
  have hmem : job ∈ p.load c := mem_load_of_queue hj
  rw [hload] at hmem
  exact Multiset.notMem_zero _ hmem

theorem pending_eq_nil_of_unloaded (hf : feeders ∈ p.feeders) (stage : Stage) :
    feeders.pending stage = [] := by
  obtain ⟨c, rfl⟩ := exists_checkpoint stage
  apply List.eq_nil_iff_forall_not_mem.mpr
  intro job hj
  have hmem : job ∈ p.load c := mem_load_of_pending hf hj
  rw [hload] at hmem
  exact Multiset.notMem_zero _ hmem

theorem work?_of_unloaded : p.work? w = none := by
  unfold Pipeline.work?
  cases hw : p.workers[w]? with
  | none => rfl
  | some worker =>
      obtain ⟨stage, activity⟩ := worker
      rcases idle_or_over_of_unloaded hload (List.mem_of_getElem? hw) with hidle | hover
      · obtain rfl : activity = .idle := hidle
        rfl
      · cases activity <;> first | rfl | cases hover

theorem feed?_of_unloaded : p.feed? lane stage = none := by
  unfold Pipeline.feed?
  cases hf : p.feeders[lane]? with
  | none => rfl
  | some feeders => simp [pending_eq_nil_of_unloaded hload (List.mem_of_getElem? hf)]

theorem handOver?_of_unloaded : p.handOver? lane w = none := by
  unfold Pipeline.handOver?
  cases hf : p.feeders[lane]? with
  | none => rfl
  | some feeders =>
      cases hw : p.workers[w]? with
      | none => rfl
      | some worker => simp [pending_eq_nil_of_unloaded hload (List.mem_of_getElem? hf)]

/-- A worker that finds nothing in its queue can only leave. -/
theorem eq_exited_of_unloaded (hstep : p.receive? w = some q) :
    ∃ worker, p.workers[w]? = some worker ∧ worker.activity = .idle ∧
      p.hasSender worker.stage = false ∧ q = p.setActivity w .exited := by
  unfold Pipeline.receive? at hstep
  split at hstep
  · rename_i hfree
    split at hstep
    · cases hstep
    · rename_i worker hw
      simp only [queue_eq_nil_of_unloaded hload worker.stage] at hstep
      split at hstep
      · cases hstep
      · rename_i hsender
        cases hstep
        exact ⟨worker, hw, idle_of_isFree hw hfree, by simpa using hsender, rfl⟩
  · cases hstep

theorem load_exited_of_unloaded (hw : p.workers[w]? = some worker)
    (hidle : worker.activity = .idle) (c : Checkpoint) : (p.setActivity w .exited).load c = 0 := by
  rw [← hload c]
  apply load_setActivity_of_eq hw
  rw [hidle]
  rfl

end Unloaded

/-! ## Between two blocks -/

namespace Between

variable (hp : p.Between calm handlers past)

include hp

theorem idle_or_exited (hworker : worker ∈ p.workers) :
    worker.activity = .idle ∨ worker.activity = .exited := by
  exact (idle_or_over_of_unloaded hp.load hworker).imp_right (hp.crew.exited_of_isOver hworker)

theorem queue_eq_nil (stage : Stage) : p.queue stage = [] := queue_eq_nil_of_unloaded hp.load stage

theorem pending_eq_nil (hf : feeders ∈ p.feeders) (stage : Stage) :
    feeders.pending stage = [] := pending_eq_nil_of_unloaded hp.load hf stage

theorem work? : p.work? w = none := work?_of_unloaded hp.load

theorem feed? : p.feed? lane stage = none := feed?_of_unloaded hp.load

theorem handOver? : p.handOver? lane w = none := handOver?_of_unloaded hp.load

theorem refresh? : p.refresh? w = none := by
  obtain ⟨copy, hrests⟩ := hp.relay
  exact refresh?_of_rests hrests

theorem receive? (hstep : p.receive? w = some q) : q.Between calm handlers past := by
  obtain ⟨worker, hw, hidle, hsender, rfl⟩ := eq_exited_of_unloaded hp.load hstep
  obtain ⟨hsenders, hpending⟩ := pending_of_hasSender hsender
  exact { hp with
    crew := hp.crew.setActivity hw (by simp) fun _ =>
      ⟨hsenders, hp.queue_eq_nil worker.stage, hpending⟩
    calls := hp.calls.imp (fun h => h.congr rfl rfl rfl)
      fun ⟨c, work, next, h⟩ => ⟨c, work, next, h.congr rfl rfl rfl rfl⟩
    load := load_exited_of_unloaded hp.load hw hidle }

end Between

end TxPipeline.Pipeline
