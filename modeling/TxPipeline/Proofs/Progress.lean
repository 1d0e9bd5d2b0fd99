import TxPipeline.Proofs.Activities
import TxPipeline.Proofs.Invariant.Aftermath
import TxPipeline.Proofs.Service.Progress
import TxPipeline.Proofs.Streams

/-!
# Nobody waits in a circle

Who waits for whom after the start of a block has an order. The preparations wait for nobody. A
worker of the prefetch pool waits for a preparation, a feeder for a free worker or for room, a
worker of the process pool for a prefetch, a reader for a result, and a caller for any of them. So
when nobody can move, nobody has anything left to do.
-/

namespace TxPipeline

variable {F : Flow}

/-- Whether the actor is no caller. -/
def Actor.isThread : Actor → Bool
  | .caller _ => false
  | _ => true

/-- Whether the call has begun to reset the stations. -/
def Finishing.isResetting : Finishing → Bool
  | .ending _ _ _ => true
  | .draining _ _ _ _ _ => true
  | .closing _ _ _ => true
  | .leaving _ _ => true
  | _ => false

/-- Once the block is started, what is outstanding is on its way. -/
theorem Phase.outstanding_eq_load {phase : Phase F} (hphase : ∀ d next, phase ≠ .starting d next)
    (p : Pipeline F) (c : Checkpoint) : phase.outstanding p c = p.load c := by
  cases phase with
  | starting d next => exact absurd rfl (hphase d next)
  | _ => exact zero_add _

namespace Pipeline

variable {handlers : List (Handler F)} {past : List (Work F)} {work : Work F} {phase : Phase F}
  {calm : Prop} {p q : Pipeline F} {stage : Stage} {worker : Worker F} {job : Job}
  {c h w lane : Nat} {s : Station F} {feeders : Feeders} {config : Config}
  {registry : Registry F} {moves : List (Move F)}

/-- No thread can move. Callers may be able to. -/
def Halted (p : Pipeline F) : Prop := ∀ actor : Actor, actor.isThread = true → p.step? actor = none

/-- Workers have no jobs but those of their own stage, and nobody waits for workers to leave while
the pools still hold their queues open. -/
structure Orderly (p : Pipeline F) : Prop where
  suits : ∀ worker ∈ p.workers, worker.Suits
  joins : ∀ (c w : Nat), p.calls[c]? = some (.close (.join w)) → p.poolSenders = false

theorem orderly_create (hcreate : create config registry = .ok p) : p.Orderly where
  suits := by
    obtain ⟨-, rfl⟩ := eq_ofConfig hcreate
    intro worker hworker
    exact .inl (by rw [mem_crew hworker]; rfl)
  joins := fun c w hcall => by simp [calls_create hcreate] at hcall

theorem Orderly.invoke (hp : p.Orderly) (task : Task F) : (p.invoke task).Orderly where
  suits := hp.suits
  joins := fun c w hcall => by
    rcases getElem?_of_invoke hcall with hcall | ⟨-, heq⟩
    · exact hp.joins c w hcall
    · cases task <;> cases heq

/-- A call comes to wait for the workers only by dropping the sending ends of the queues. -/
theorem senders_of_stepClose? {next : Closing} (hcall : p.calls[c]? = some (.close next))
    (hstep : p.stepClose? c next = some q) :
    q.poolSenders = false ∨ q.poolSenders = p.poolSenders ∧
      ∀ w, q.calls[c]? = some (.close (.join w)) → ∃ v, next = .join v := by
  cases closeMove_of_stepClose? hstep with
  | check => exact .inl rfl
  | closed w | join w | lost w => exact .inr ⟨rfl, fun _ _ => ⟨w, rfl⟩⟩
  | take | miss =>
      refine .inr ⟨rfl, fun w hjoin => ?_⟩
      rw [getElem?_of_set_calls hcall rfl] at hjoin
      cases hjoin

/-- Nobody opens the queues again once the pools have let go of them. -/
theorem poolSenders_of_step? {actor : Actor} (hstep : p.step? actor = some q)
    (hsenders : p.poolSenders = false) : q.poolSenders = false := by
  rcases thread_or_callMove hstep with hactor | ⟨c, rfl, hmove⟩
  · exact (frames_of_stepThread? hactor hstep).poolSenders.trans hsenders
  cases hmove with
  | start store rules block next hcall hstart =>
      obtain ⟨_, _, _, _, _, _, _, _, _, rfl⟩ := eq_of_stepStart? hstart
      exact hsenders
  | finish store block receipts next hcall hfinish =>
      obtain ⟨_, _, _, _, _, rfl⟩ := eq_of_stepFinish? hfinish
      exact hsenders
  | close next hcall hclose =>
      exact (senders_of_stepClose? hcall hclose).elim id fun h => h.1.trans hsenders

theorem Orderly.step? {actor : Actor} (hp : p.Orderly) (hstep : p.step? actor = some q) :
    q.Orderly where
  suits := fun worker' hworker' => by
    obtain ⟨w, hw'⟩ := List.mem_iff_getElem?.mp hworker'
    obtain ⟨worker, hw, hturns⟩ := (employs_of_step? hstep).2 w worker' hw'
    exact hturns.suits (hp.suits worker (List.mem_of_getElem? hw))
  joins := fun c w hcall => by
    have hstays {w : Nat} (h : p.calls[c]? = some (.close (.join w))) : q.poolSenders = false :=
      poolSenders_of_step? hstep (hp.joins c w h)
    by_cases hactor : actor = .caller c
    · subst hactor
      have hturn {call : Call F} (hold : p.calls[c]? = some call) :
          call.Turns (.close (.join w)) := by
        obtain ⟨next, hnext, hturns⟩ := exists_turns_of_step? hstep hold
        obtain rfl := Option.some.inj (hnext.symm.trans hcall)
        exact hturns
      cases callMove_of_stepCall? hstep with
      | start store rules block next hold => cases hturn hold
      | finish store block receipts next hold => cases hturn hold
      | close next hold hclose =>
          rcases senders_of_stepClose? hold hclose with hdropped | ⟨-, hjoins⟩
          · exact hdropped
          · obtain ⟨v, rfl⟩ := hjoins w hcall
            exact hstays hold
    · rw [getElem?_calls_of_step? hstep hactor] at hcall
      exact hstays hcall

theorem Orderly.deny? {reason : String} (hp : p.Orderly) (hdeny : p.deny? c reason = some q) :
    q.Orderly where
  suits := by
    obtain ⟨_, _, _, _, rfl⟩ := eq_of_deny? hdeny
    exact hp.suits
  joins := fun i w hcall => by
    obtain ⟨old, hold, hturns⟩ := (continues_of_deny? hdeny).exists_turned hcall
    obtain ⟨_, _, _, hscan, -⟩ := turns_of_deny? hdeny
    have hother : i ≠ c := by
      rintro rfl
      rw [hscan] at hold
      cases hold
      cases hturns
    rw [getElem?_calls_of_deny? hdeny hother] at hcall
    obtain ⟨_, _, _, _, rfl⟩ := eq_of_deny? hdeny
    exact hp.joins i w hcall

theorem orderly_of_run? (hp : p.Orderly) (hrun : p.run? moves = some q) : q.Orderly :=
  run?_induction hrun hp (fun _ task hp => hp.invoke task) (fun _ _ _ hp hstep => hp.step? hstep)
    fun _ _ _ _ hp hdeny => hp.deny? hdeny

/-! ## Workers and feeders -/

theorem isFree_of_idle {copy : Option F.Store} (hcrew : p.Crew handlers)
    (hrests : p.relay.Rests copy) (hw : p.workers[w]? = some worker)
    (hidle : worker.activity = .idle) : p.isFree w = true := by
  have hlt : w < p.relay.receivers.length := by
    rw [hcrew.receivers]
    exact (List.getElem?_eq_some_iff.mp hw).1
  have hparked := hrests.receivers _ (List.getElem_mem hlt)
  simp only [isFree, hw, hidle, Activity.isIdle, Snapshot.Relay.isParked,
    List.getElem?_eq_getElem hlt, Bool.true_and]
  rw [hparked]

namespace Halted

variable (hhalted : p.Halted)

include hhalted

theorem station (hs : p.stations[h]? = some s) : s.Halted := by
  have hmove (actor : Actor) {move : Station F → Option (Station F)}
      (hactor : actor.isThread = true) (hstep : p.step? actor = p.stepStation? h move) :
      move s = none := by
    have hnone := hhalted actor hactor
    rw [hstep] at hnone
    cases hmove : move s with
    | none => rfl
    | some s' => simp [stepStation?, hs, hmove] at hnone
  exact ⟨fun lane => hmove (.preparation h lane) rfl rfl,
    fun lane => hmove (.replay h lane) rfl rfl,
    fun lane => hmove (.aggregation h lane) rfl rfl⟩

/-- If the workers of a stage have nothing in their hands, there is nothing for them to do. -/
theorem unloaded_stage {copy : Option F.Store} (hcrew : p.Crew handlers)
    (hrests : p.relay.Rests copy)
    (hworkers : ∀ worker ∈ p.workers, worker.stage = stage →
      worker.activity = .idle ∨ worker.activity = .exited) :
    p.queue stage = [] ∧ ∀ feeders ∈ p.feeders, feeders.pending stage = [] := by
  obtain ⟨worker, hworker, rfl⟩ := List.mem_map.mp (hcrew.staffed stage)
  rcases hworkers worker hworker rfl with hidle | hexited
  · obtain ⟨w, hw⟩ := List.mem_iff_getElem?.mp hworker
    have hfree := isFree_of_idle hcrew hrests hw hidle
    have hqueue : p.queue worker.stage = [] := by
      have hnone := hhalted (.receiver w) rfl
      change p.receive? w = none at hnone
      cases hqueue : p.queue worker.stage with
      | nil => rfl
      | cons job rest => simp [receive?, hfree, hw, hqueue] at hnone
    refine ⟨hqueue, fun feeders hf => ?_⟩
    obtain ⟨lane, hlane⟩ := List.mem_iff_getElem?.mp hf
    cases hpending : feeders.pending worker.stage with
    | nil => rfl
    | cons job rest =>
        have hhand := hhalted (.handOver lane w) rfl
        have hfeed := hhalted (.feeder lane worker.stage) rfl
        change p.handOver? lane w = none at hhand
        change p.feed? lane worker.stage = none at hfeed
        have hreceiver : p.hasReceiver worker.stage = true :=
          hcrew.hasReceiver hf (by simp [hpending])
        by_cases hdepth : p.config.queueDepth = 0
        · simp [handOver?, hlane, hw, hpending, hdepth, hfree] at hhand
        · simp [feed?, hlane, hpending, hreceiver, hqueue, Nat.pos_of_ne_zero hdepth] at hfeed
  · exact (hcrew.exited worker hworker hexited).2

end Halted

/-! ## Jobs -/

theorem progress_of_berth {n : Nat} {progress : Progress}
    (hphase : ∀ d next, phase ≠ .starting d next) (hberth : phase.berth n h = .serving progress) :
    progress.prepared = true ∧ progress.dispatched = true ∧
      (progress.isOpen = true → progress.drained = 0) := by
  cases phase with
  | starting d next => exact absurd rfl (hphase d next)
  | started =>
      cases hberth
      exact ⟨rfl, rfl, fun _ => rfl⟩
  | abandoned joined concluded =>
      cases hberth
      exact ⟨rfl, rfl, fun _ => rfl⟩
  | finishing f origin store block receipts next =>
      cases next <;> simp only [Phase.berth, Finishing.berth] at hberth <;>
        (try split at hberth) <;> cases hberth <;> exact ⟨rfl, rfl, by simp [Progress.isOpen]⟩

namespace During

variable (hp : p.During calm handlers past work phase)
  (hphase : ∀ d next, phase ≠ .starting d next) (hhalted : p.Halted)
  (hbefore : ∀ handler ∈ handlers, ∃ common,
    handler.beforeBlock work.store work.rules work.block = .ok common)

include hp hphase hhalted hbefore

theorem common_of_halted {c : Checkpoint} (hj : job ∈ p.load c) :
    ∃ s progress common, p.stations[job.handler]? = some s ∧ s.common.value = some common ∧
      s.Fits calm handlers past work job.handler (phase.outstanding p) (.serving progress) := by
  obtain ⟨s, progress, hs, -, hberth, hfits⟩ := hp.serving hj
  obtain ⟨old, l, hlanes, hold, hserves⟩ := hfits
  have hl : s.lanes[past.length]? = some l := by simp [hlanes, hold.length_eq]
  obtain ⟨-, hsome⟩ := hserves.preparation_of_halted hl (hhalted.station hs)
    (progress_of_berth hphase hberth).1 hbefore
  obtain ⟨common, hcommon⟩ := Option.isSome_iff_exists.mp hsome
  exact ⟨s, progress, common, hs, hcommon, old, l, hlanes, hold, hserves⟩

/-- Only for a prefetch that has not come to its end can a worker wait with a job. -/
theorem activity_of_halted (hworker : worker ∈ p.workers) :
    worker.activity = .idle ∨ worker.activity = .exited ∨
      ∃ job common, worker.activity = .processAwait job common ∧ job ∈ p.load .deposited := by
  obtain ⟨w, hw⟩ := List.mem_iff_getElem?.mp hworker
  have hstuck : p.work? w = none := hhalted (.worker w) rfl
  have hheld {c : Checkpoint} {job : Job} (hj : job ∈ worker.activity.due c) : job ∈ p.load c :=
    mem_load_of_due hw hj
  unfold Pipeline.work? at hstuck
  cases hactivity : worker.activity with
  | idle => exact .inl rfl
  | exited => exact .inr (.inl rfl)
  | dead fault => exact absurd hactivity (hp.crew.alive worker hworker fault)
  | prefetchGather job =>
      have hj : job ∈ p.load .deposited :=
        hheld (by simp [hactivity, Activity.due, Checkpoint.stage])
      obtain ⟨s, progress, common, hs, hcommon, -⟩ := hp.common_of_halted hphase hhalted hbefore hj
      simp [hw, hactivity, hs, hcommon] at hstuck
  | prefetchRun job common =>
      have hj : job ∈ p.load .deposited :=
        hheld (by simp [hactivity, Activity.due, Checkpoint.stage])
      obtain ⟨s, progress, -, hs, -⟩ := hp.common_of_halted hphase hhalted hbefore hj
      simp only [hw, hactivity, hs, hp.copy?_eq hw hj, Option.bind_eq_bind,
        Option.bind_some] at hstuck
      split at hstuck <;> cases hstuck
  | prefetchDeposit job data =>
      have hj : job ∈ p.load .deposited := hheld (by simp [hactivity, Activity.due])
      obtain ⟨s, progress, -, hs, -⟩ := hp.common_of_halted hphase hhalted hbefore hj
      simp [hw, hactivity, hs] at hstuck
  | processGather job =>
      have hj : job ∈ p.load .settled := hheld (by simp [hactivity, Activity.due, Checkpoint.stage])
      obtain ⟨s, progress, common, hs, hcommon, -⟩ := hp.common_of_halted hphase hhalted hbefore hj
      simp [hw, hactivity, hs, hcommon] at hstuck
  | processAwait job common =>
      have hj : job ∈ p.load .settled := hheld (by simp [hactivity, Activity.due, Checkpoint.stage])
      obtain ⟨s, progress, -, hs, -, hfits⟩ := hp.common_of_halted hphase hhalted hbefore hj
      refine .inr (.inr ⟨job, common, rfl, ?_⟩)
      by_contra hdeposited
      have hdue : job ∉ phase.outstanding p .deposited := by
        rwa [Phase.outstanding_eq_load hphase]
      obtain ⟨cell, hcell, hvalue⟩ :=
        hfits.data_of_deposited hp.length_le (hp.traffic.mem_jobs _ job hj) hdue
      simp only [hw, hactivity, hs, hcell, hvalue, Option.bind_eq_bind, Option.bind_some] at hstuck
      split at hstuck <;> cases hstuck
  | processRun job common data =>
      have hj : job ∈ p.load .settled := hheld (by simp [hactivity, Activity.due, Checkpoint.stage])
      obtain ⟨s, progress, -, hs, -⟩ := hp.common_of_halted hphase hhalted hbefore hj
      simp only [hw, hactivity, hs, hp.copy?_eq hw hj, Option.bind_eq_bind,
        Option.bind_some] at hstuck
      split at hstuck <;> cases hstuck
  | processAnnounce r h =>
      have hj : ⟨h, r.tx⟩ ∈ p.load .settled := hheld (by simp [hactivity, Activity.due])
      obtain ⟨s, progress, -, hs, -⟩ := hp.common_of_halted hphase hhalted hbefore hj
      simp [hw, hactivity, hs] at hstuck
  | processSettle r h =>
      have hj : ⟨h, r.tx⟩ ∈ p.load .settled := hheld (by simp [hactivity, Activity.due])
      obtain ⟨s, progress, -, hs, -⟩ := hp.common_of_halted hphase hhalted hbefore hj
      simp [hw, hactivity, hs] at hstuck

/-- When no thread can move, no job is left on its way. -/
theorem load_eq_zero_of_halted (horderly : p.Orderly) (c : Checkpoint) : p.load c = 0 := by
  have hrests := hp.rests_of_dispatched hphase
  have hactivity (worker : Worker F) (hworker : worker ∈ p.workers) :=
    hp.activity_of_halted hphase hhalted hbefore hworker
  have hzero {c : Checkpoint}
      (hworkers : ∀ worker ∈ p.workers, worker.stage = c.stage →
        worker.activity = .idle ∨ worker.activity = .exited)
      (hothers : ∀ worker ∈ p.workers, worker.activity.due c = 0) : p.load c = 0 := by
    obtain ⟨hqueue, hpending⟩ := hhalted.unloaded_stage hp.crew hrests hworkers
    exact load_of_empty hqueue hpending hothers
  -- first the prefetch pool: none of its workers can be waiting
  have hdeposited : p.load .deposited = 0 := by
    refine hzero (fun worker hworker hstage => ?_) fun worker hworker => ?_
    · rcases hactivity worker hworker with hidle | hexited | ⟨job, common, hawait, -⟩
      · exact .inl hidle
      · exact .inr hexited
      · rcases horderly.suits worker hworker with hnone | hsome
        · rw [hawait] at hnone
          cases hnone
        · rw [hawait, hstage] at hsome
          cases hsome
    · rcases hactivity worker hworker with hidle | hexited | ⟨job, common, hawait, -⟩
      · rw [hidle, Activity.due]
      · rw [hexited, Activity.due]
      · rw [hawait, Activity.due]
        rfl
  -- so the process pool has what it could wait for
  have hworkers (worker : Worker F) (hworker : worker ∈ p.workers) :
      worker.activity = .idle ∨ worker.activity = .exited := by
    rcases hactivity worker hworker with hidle | hexited | ⟨job, common, -, hj⟩
    · exact .inl hidle
    · exact .inr hexited
    · rw [hdeposited] at hj
      exact absurd hj (Multiset.notMem_zero _)
  refine hzero (fun worker hworker _ => hworkers worker hworker) fun worker hworker => ?_
  rcases hworkers worker hworker with hidle | hexited
  · rw [hidle, Activity.due]
  · rw [hexited, Activity.due]

end During

end Pipeline

end TxPipeline
