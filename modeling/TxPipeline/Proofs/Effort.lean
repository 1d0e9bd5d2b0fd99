import TxPipeline.Proofs.Activities
import TxPipeline.Proofs.Invariant.Aftermath
import TxPipeline.Proofs.Service.Effort
import TxPipeline.Proofs.Stations

/-!
# What is left to do in a pipeline

After the start of a block every move, whoever makes it, takes away from one number: what the jobs
on their way, the threads of the lanes and the calls have left to do. So whatever the schedule, all
of them come to a stop.
-/

namespace TxPipeline

variable {F : Flow}

/-! ## Jobs -/

/-- What a worker has left to do until it is free and can leave. -/
def Activity.effort : Activity F → Nat
  | .processGather _ => 6
  | .processAwait _ _ => 5
  | .processRun _ _ _ => 4
  | .prefetchGather _ => 4
  | .processAnnounce _ _ => 3
  | .prefetchRun _ _ => 3
  | .processSettle _ _ => 2
  | .prefetchDeposit _ _ => 2
  | .idle => 1
  | .exited => 0
  | .dead _ => 0

theorem Activity.Turns.effort_lt {activity activity' : Activity F} (h : activity.Turns activity') :
    activity'.effort < activity.effort := by
  cases h with
  | die job fault hjob hfault =>
      cases activity <;> simp [Activity.effort, Activity.job?] at hjob ⊢
  | _ => simp [Activity.effort]

/-- A job that a feeder has is further from its end than any job that a queue or a worker has. -/
def Feeders.effort (feeders : Feeders) : Nat :=
  8 * (feeders.prefetch.length + feeders.process.length)

theorem Feeders.effort_setPending (feeders : Feeders) (jobs : List Job) (stage : Stage) :
    (feeders.setPending jobs stage).effort + 8 * (feeders.pending stage).length =
      feeders.effort + 8 * jobs.length := by
  cases stage <;> simp only [effort, setPending, pending] <;> omega

/-! ## Calls -/

/-- What a call that closes a pipeline of so many workers has left to do. -/
def Closing.effort (workers : Nat) : Closing → Nat
  | .take => workers + 3
  | .check => workers + 2
  | .join w => workers - w + 1

/-- What a call that finishes a block of at most `n` transactions has left to do, with so many
handlers. -/
def Finishing.effort (handlers n : Nat) : Finishing → Nat
  | .take => (n + 4) * handlers + 3 * handlers + 6
  | .joinPreparation _ h => (n + 4) * handlers + 2 * handlers + 5 + (handlers - h)
  | .joinFeeders _ => (n + 4) * handlers + 2 * handlers + 4
  | .joinAggregation _ h => (n + 4) * handlers + 3 + 2 * (handlers - h)
  | .conclude _ h => (n + 4) * handlers + 2 + 2 * (handlers - h)
  | .ending _ h _ => (n + 4) * (handlers - h) + 2
  | .draining _ h index length _ => (n + 4) * (handlers - (h + 1)) + 4 + (length - index)
  | .closing _ h _ => (n + 4) * (handlers - (h + 1)) + 3
  | .leaving _ _ => 1

/-- What a call has left to do. A call that starts a block is refused with its first move. -/
def Call.effort (workers handlers n : Nat) : Call F → Nat
  | .start _ _ _ _ => 1
  | .finish _ _ _ next => next.effort handlers n
  | .close next => next.effort workers
  | .returned _ => 0

namespace Pipeline

variable {handlers : List (Handler F)} {past : List (Work F)} {work : Work F} {p q : Pipeline F}
  {actor : Actor} {actors : List Actor} {stage : Stage} {worker : Worker F} {job : Job}
  {rest : List Job} {c h n w lane : Nat} {s s' : Station F}

/-- What is left to do with the jobs that were dispatched. -/
def jobEffort (p : Pipeline F) : Nat :=
  (p.feeders.map Feeders.effort).sum + 7 * (p.prefetchQueue.length + p.processQueue.length) +
    (p.workers.map fun worker => worker.activity.effort).sum

/-- What the threads of the lanes have left to do. -/
def laneEffort (handlers : List (Handler F)) (work : Work F) (p : Pipeline F) : Nat :=
  (p.stations.mapIdx fun h s => s.effort handlers work h).sum

/-- What the calls have left to do, with a block of `n` transactions. -/
def callEffort (n : Nat) (p : Pipeline F) : Nat :=
  (p.calls.map (Call.effort p.workers.length p.stations.length n)).sum

/-- A bound for the moves that can be made without a new call. -/
def effort (handlers : List (Handler F)) (work : Work F) (p : Pipeline F) : Nat :=
  p.jobEffort + p.laneEffort handlers work + p.callEffort work.block.length

/-! ## Workers and feeders -/

theorem jobEffort_setQueue (p : Pipeline F) (jobs : List Job) (stage : Stage) :
    (p.setQueue jobs stage).jobEffort + 7 * (p.queue stage).length =
      p.jobEffort + 7 * jobs.length := by
  cases stage <;> simp only [jobEffort, setQueue, queue] <;> omega

theorem jobEffort_setActivity (hw : p.workers[w]? = some worker) (activity : Activity F) :
    (p.setActivity w activity).jobEffort + worker.activity.effort =
      p.jobEffort + activity.effort := by
  have hsum := sum_map_set (fun worker : Worker F => worker.activity.effort) hw
    { worker with activity }
  dsimp only at hsum
  simp only [jobEffort, setActivity, modify_eq_set hw]
  omega

theorem jobEffort_accept (hw : p.workers[w]? = some worker) (hidle : worker.activity = .idle)
    (stage : Stage) (job : Job) : (p.accept w stage job).jobEffort ≤ p.jobEffort + 5 := by
  have hset (activity : Activity F) (hle : activity.effort ≤ 6) :
      (p.setActivity w activity).jobEffort ≤ p.jobEffort + 5 := by
    have hset := jobEffort_setActivity hw activity
    rw [hidle, Activity.effort] at hset
    omega
  unfold accept
  split
  · exact hset _ (Nat.zero_le _)
  · cases stage <;> exact hset _ (by simp [Activity.effort])

theorem jobEffort_work? (hstep : p.work? w = some q) : q.jobEffort < p.jobEffort := by
  obtain ⟨worker, activity, hw, hturns, hworkers⟩ := exists_turns_of_work? hstep
  obtain ⟨stations, workers, log, rfl⟩ := eq_of_work? hstep
  obtain rfl : workers = p.workers.set w { worker with activity } := hworkers
  have hset := jobEffort_setActivity hw activity
  have hlt := hturns.effort_lt
  rw [setActivity, modify_eq_set hw] at hset
  simp only [jobEffort] at hset ⊢
  omega

theorem jobEffort_receive? (hstep : p.receive? w = some q) : q.jobEffort < p.jobEffort := by
  unfold receive? at hstep
  split at hstep
  swap
  · cases hstep
  rename_i hfree
  split at hstep
  · cases hstep
  rename_i worker hw
  have hidle := idle_of_isFree hw hfree
  split at hstep
  · rename_i job rest hqueue
    cases hstep
    have hset := jobEffort_setQueue p rest worker.stage
    have haccept := jobEffort_accept (p := p.setQueue rest worker.stage) (by rwa [workers_setQueue])
      hidle worker.stage job
    rw [hqueue, List.length_cons] at hset
    omega
  · split at hstep <;> cases hstep
    have hset := jobEffort_setActivity hw .exited
    rw [hidle] at hset
    simp only [Activity.effort] at hset
    omega

theorem jobEffort_setPending {feeders : Feeders} (hf : p.feeders[lane]? = some feeders)
    (jobs : List Job) (stage : Stage) :
    ({ p with feeders := p.feeders.set lane (feeders.setPending jobs stage) } :
      Pipeline F).jobEffort + 8 * (feeders.pending stage).length =
        p.jobEffort + 8 * jobs.length := by
  have hsum := sum_map_set Feeders.effort hf (feeders.setPending jobs stage)
  have hset := feeders.effort_setPending jobs stage
  simp only [jobEffort]
  omega

theorem jobEffort_feed? (hstep : p.feed? lane stage = some q) : q.jobEffort < p.jobEffort := by
  cases feedMove_of_feed? hstep with
  | enqueue feeders job rest hf hpending =>
      have hset := jobEffort_setPending hf rest stage
      have hqueue := jobEffort_setQueue
        { p with feeders := p.feeders.set lane (feeders.setPending rest stage) }
        (p.queue stage ++ [job]) stage
      have hsame : ({ p with feeders := p.feeders.set lane (feeders.setPending rest stage) } :
          Pipeline F).queue stage = p.queue stage := by cases stage <;> rfl
      rw [hpending, List.length_cons] at hset
      rw [hsame, List.length_append, List.length_singleton] at hqueue
      omega
  | giveUp feeders job rest hf hpending =>
      have hset := jobEffort_setPending hf [] stage
      rw [hpending, List.length_cons, List.length_nil] at hset
      omega

theorem jobEffort_handOver? (hstep : p.handOver? lane w = some q) : q.jobEffort < p.jobEffort := by
  obtain ⟨feeders, worker, job, rest, hf, hw, hpending, -, hfree⟩ :=
    handOverMove_of_handOver? hstep
  have hidle := idle_of_isFree hw hfree
  have hset := jobEffort_setPending hf rest worker.stage
  have haccept := jobEffort_accept
    (p := { p with feeders := p.feeders.set lane (feeders.setPending rest worker.stage) }) hw hidle
    worker.stage job
  rw [hpending, List.length_cons] at hset
  omega

/-! ## Lanes -/

theorem laneEffort_setStation (hs : p.stations[h]? = some s)
    (hlt : s'.effort handlers work h < s.effort handlers work h) :
    (p.setStation h s').laneEffort handlers work < p.laneEffort handlers work := by
  have hget : (p.stations.mapIdx fun h s => s.effort handlers work h)[h]? =
      some (s.effort handlers work h) := by
    rw [List.getElem?_mapIdx, hs, Option.map_some]
  have hsum := sum_set hget (s'.effort handlers work h)
  simp only [laneEffort, setStation, List.mapIdx_set]
  omega

theorem laneEffort_of_edited (h : Edited p.stations q.stations) :
    q.laneEffort handlers work = p.laneEffort handlers work := by
  rw [laneEffort, laneEffort]
  congr 1
  apply List.ext_getElem (by simp [h.length_eq])
  intro i hi hi'
  rw [List.length_mapIdx] at hi hi'
  have hedits := (List.forall₂_iff_get.mp h).2 i hi' hi
  simp only [List.getElem_mapIdx, Station.effort]
  exact congrArg List.sum
    (hedits.map_lanes (Lane.effort handlers work i) fun _ _ => rfl).2

/-! ## Callers -/

theorem callEffort_set {call next : Call F} (hcall : p.calls[c]? = some call)
    (hq : q.calls = p.calls.set c next) (hworkers : q.workers = p.workers)
    (hstations : q.stations.length = p.stations.length)
    (hlt : next.effort p.workers.length p.stations.length n <
      call.effort p.workers.length p.stations.length n) : q.callEffort n < p.callEffort n := by
  have hsum := sum_map_set (Call.effort p.workers.length p.stations.length n) hcall next
  rw [callEffort, callEffort, hq, hworkers, hstations]
  omega

theorem exists_effort_of_stepClose? {next : Closing} (hstep : p.stepClose? c next = some q)
    (handlers n : Nat) : ∃ call : Call F, q.calls = p.calls.set c call ∧
      call.effort p.workers.length handlers n < next.effort p.workers.length := by
  cases closeMove_of_stepClose? hstep with
  | join w worker hw | lost w worker fault hw =>
      have hlt := (List.getElem?_eq_some_iff.mp hw).1
      refine ⟨_, rfl, ?_⟩
      simp only [Call.effort, Closing.effort]
      omega
  | _ => exact ⟨_, rfl, by simp [Call.effort, Closing.effort]⟩

theorem exists_effort_of_stepFinish? {store : F.Store} {block : Block} {receipts : List Receipt}
    {next : Finishing} (hstep : p.stepFinish? c store block receipts next = some q)
    (hle : ∀ s ∈ p.stations, s.blockLength ≤ n) (workers : Nat) :
    ∃ call : Call F, q.calls = p.calls.set c call ∧
      call.effort workers p.stations.length n < next.effort p.stations.length n := by
  have hlt {k : Nat} {s : Station F} (hs : p.stations[k]? = some s) : k < p.stations.length :=
    (List.getElem?_eq_some_iff.mp hs).1
  cases finishMove_of_stepFinish? hstep with
  | take | prepared | joinFeeders | aggregated | drain | drained =>
      refine ⟨_, rfl, ?_⟩
      simp only [Call.effort, Finishing.effort, Nat.sub_zero]
      omega
  | joinPreparation active k s hs | conclude active k s s' a store' hs =>
      have hk := hlt hs
      refine ⟨_, rfl, ?_⟩
      simp only [Call.effort, Finishing.effort]
      omega
  | beginReset active k kept s hs =>
      refine ⟨_, rfl, ?_⟩
      have hlength := hle s (List.mem_of_getElem? hs)
      -- the share of handler `k` pays for the removal of its results
      obtain ⟨m, hm⟩ : ∃ m, p.stations.length = k + 1 + m := Nat.exists_eq_add_of_le (hlt hs)
      simp only [Call.effort, Finishing.effort, hm, Nat.add_sub_cancel_left,
        show k + 1 + m - k = m + 1 by omega, Nat.mul_succ]
      omega
  | _ => exact ⟨_, rfl, by simp [Call.effort, Finishing.effort]⟩

/-! ## All moves -/

theorem effort_lt_of_job (hlt : q.jobEffort < p.jobEffort)
    (hedited : Edited p.stations q.stations) (hcalls : q.calls = p.calls)
    (hworkers : q.workers.length = p.workers.length) :
    q.effort handlers work < p.effort handlers work := by
  have hcall : q.callEffort work.block.length = p.callEffort work.block.length := by
    rw [callEffort, callEffort, hcalls, hworkers, hedited.length_eq]
  rw [effort, effort, laneEffort_of_edited hedited, hcall]
  omega

theorem effort_lt_of_stepStation? {move : Station F → Option (Station F)}
    (hstep : p.stepStation? h move = some q)
    (hmove : ∀ s s', p.stations[h]? = some s → move s = some s' →
      s'.effort handlers work h < s.effort handlers work h) :
    q.effort handlers work < p.effort handlers work := by
  obtain ⟨s, s', hs, hs', rfl⟩ := eq_of_stepStation? hstep
  have hlt := laneEffort_setStation hs (hmove s s' hs hs')
  have hcall : (p.setStation h s').callEffort work.block.length =
      p.callEffort work.block.length := by
    simp [callEffort, setStation]
  have hjob : (p.setStation h s').jobEffort = p.jobEffort := rfl
  rw [effort, effort, hcall, hjob]
  omega

namespace Aftermath

variable (hp : p.Aftermath handlers past work)

include hp

theorem effort_stepCall? (hstep : p.stepCall? c = some q) :
    q.effort handlers work < p.effort handlers work := by
  have hlt (hjob : q.jobEffort = p.jobEffort) (hedited : Edited p.stations q.stations)
      (hcall : q.callEffort work.block.length < p.callEffort work.block.length) :
      q.effort handlers work < p.effort handlers work := by
    rw [effort, effort, hjob, laneEffort_of_edited hedited]
    omega
  cases callMove_of_stepCall? hstep with
  | start store rules block next hcall hstart =>
      obtain ⟨rfl, hactive⟩ := hp.refuses hcall
      obtain ⟨active, hactive⟩ := Option.isSome_iff_exists.mp hactive
      simp only [stepStart?, hp.unlocked, hactive] at hstart
      cases hstart
      exact hlt rfl (.refl _) (callEffort_set hcall rfl rfl rfl (by simp [Call.effort]))
  | finish store block receipts next hcall hfinish =>
      have hedited := edited_of_stepFinish? hfinish
      obtain ⟨call, hcalls, heffort⟩ := exists_effort_of_stepFinish? hfinish
        (fun s => hp.blockLength_le) p.workers.length
      obtain ⟨stations, ledger, active, calls, log, rfl⟩ := eq_of_stepFinish? hfinish
      exact hlt rfl hedited (callEffort_set hcall hcalls rfl hedited.length_eq.symm heffort)
  | close next hcall hclose =>
      obtain ⟨call, hcalls, heffort⟩ :=
        exists_effort_of_stepClose? hclose p.stations.length work.block.length
      obtain ⟨isOpen, poolSenders, calls, log, rfl⟩ := eq_of_stepClose? hclose
      exact hlt rfl (.refl _) (callEffort_set hcall hcalls rfl rfl heffort)

/-- Whoever moves, less is left to do. -/
theorem effort_lt (hstep : p.step? actor = some q) :
    q.effort handlers work < p.effort handlers work := by
  have hworkers := (employs_of_step? hstep).1
  cases actor with
  | caller c => exact hp.effort_stepCall? hstep
  | refresher w =>
      obtain ⟨copy, hrests⟩ := hp.rests
      change p.refresh? w = some q at hstep
      rw [refresh?_of_rests hrests] at hstep
      cases hstep
  | worker w =>
      have hedited := edited_of_work? hstep
      have hjob := jobEffort_work? hstep
      obtain ⟨stations, workers, log, rfl⟩ := eq_of_work? hstep
      exact effort_lt_of_job hjob hedited rfl hworkers
  | receiver w =>
      have hjob := jobEffort_receive? hstep
      obtain ⟨prefetchQueue, processQueue, workers, rfl⟩ := eq_of_receive? hstep
      exact effort_lt_of_job hjob (.refl _) rfl hworkers
  | feeder lane stage =>
      have hjob := jobEffort_feed? hstep
      obtain ⟨prefetchQueue, processQueue, feeders, rfl⟩ := eq_of_feed? hstep
      exact effort_lt_of_job hjob (.refl _) rfl hworkers
  | handOver lane w =>
      have hjob := jobEffort_handOver? hstep
      obtain ⟨feeders, workers, rfl⟩ := eq_of_handOver? hstep
      exact effort_lt_of_job hjob (.refl _) rfl hworkers
  | preparation h lane =>
      exact effort_lt_of_stepStation? hstep fun _ _ _ => Station.effort_stepPreparation?
  | replay h lane =>
      exact effort_lt_of_stepStation? hstep fun _ _ _ => Station.effort_stepReplay?
  | aggregation h lane =>
      refine effort_lt_of_stepStation? hstep fun s s' hs hmove => ?_
      rcases hp.station hs with ⟨phase, progress, -, -, -, hfits⟩ | ⟨-, hdone⟩
      · refine hfits.effort_stepAggregation? ?_ hmove
        rw [hp.crew.getElem?_handlers, hs, Option.map_some]
      · rw [stepAggregation?_of_done hdone] at hmove
        cases hmove

/-- No run without a new call is longer than what was left to do at its beginning. -/
theorem length_le_effort (hrun : p.run? (actors.map .act) = some q) :
    actors.length + q.effort handlers work ≤ p.effort handlers work := by
  induction actors generalizing p with
  | nil =>
      cases hrun
      simp
  | cons actor rest ih =>
      obtain ⟨next, hstep, hrest⟩ := Option.bind_eq_some_iff.mp hrun
      have hlt := hp.effort_lt hstep
      have hle := ih (hp.step? hstep) hrest
      rw [List.length_cons]
      omega

end Aftermath

end Pipeline

end TxPipeline
