import Mathlib.Algebra.Order.Group.Multiset
import TxPipeline.Proofs.Frame
import TxPipeline.Proofs.Lists

/-!
# Jobs on their way

A job travels from a feeder through a queue to a worker, once on the prefetch side and once on the
process side, and passes checkpoints there. The load of a pipeline at a checkpoint holds every job
that was dispatched and has not passed it. Moving a job from one place to the next leaves the load
as it is; only passing the checkpoint takes the job out.
-/

namespace TxPipeline

variable {F : Flow}

/-- What a job passes, the first two on the prefetch side, the others on the process side. -/
inductive Checkpoint
  /-- `prefetch` has run. -/
  | prefetched
  /-- What it made is written. -/
  | deposited
  /-- What it made is read. -/
  | supplied
  /-- `process` has run, or there was nothing to run it on. -/
  | processed
  | announced
  /-- The result is written. -/
  | settled
deriving DecidableEq

/-- The side on which the checkpoint is. -/
def Checkpoint.stage : Checkpoint → Stage
  | .prefetched => .prefetch
  | .deposited => .prefetch
  | _ => .process

/-- The job in the hands of a worker, if it has not passed the checkpoint. -/
def Activity.due (activity : Activity F) (c : Checkpoint) : Multiset Job :=
  match activity with
  | .prefetchGather job => if c.stage = .prefetch then {job} else 0
  | .prefetchRun job _ => if c.stage = .prefetch then {job} else 0
  | .prefetchDeposit job _ => if c = .deposited then {job} else 0
  | .processGather job => if c.stage = .process then {job} else 0
  | .processAwait job _ => if c.stage = .process then {job} else 0
  | .processRun job _ _ => if c.stage = .process ∧ c ≠ .supplied then {job} else 0
  | .processAnnounce r h => if c = .announced ∨ c = .settled then {⟨h, r.tx⟩} else 0
  | .processSettle r h => if c = .settled then {⟨h, r.tx⟩} else 0
  | .idle => 0
  | .exited => 0
  | .dead _ => 0

theorem mem_sum_map {α : Type} {f : α → Multiset Job} {l : List α} {job : Job} :
    job ∈ (l.map f).sum ↔ ∃ a ∈ l, job ∈ f a := by
  induction l with
  | nil => simp
  | cons x xs ih => simp [ih]

theorem Feeders.pending_setPending (feeders : Feeders) (jobs : List Job) (stage other : Stage) :
    (feeders.setPending jobs stage).pending other =
      if other = stage then jobs else feeders.pending other := by
  cases stage <;> cases other <;> rfl

namespace Pipeline

/-- What feeders still have to pass on before a checkpoint. -/
def pendingLoad (feeders : List Feeders) (c : Checkpoint) : Multiset Job :=
  (feeders.map fun f => (f.pending c.stage : Multiset Job)).sum

/-- What workers hold that has not passed a checkpoint. -/
def heldLoad (workers : List (Worker F)) (c : Checkpoint) : Multiset Job :=
  (workers.map fun worker => worker.activity.due c).sum

/-- Every job that was dispatched and has not passed the checkpoint. -/
def load (p : Pipeline F) (c : Checkpoint) : Multiset Job :=
  pendingLoad p.feeders c + p.queue c.stage + heldLoad p.workers c

theorem queue_setQueue (p : Pipeline F) (jobs : List Job) (stage other : Stage) :
    (p.setQueue jobs stage).queue other = if other = stage then jobs else p.queue other := by
  cases stage <;> cases other <;> rfl

@[simp] theorem workers_setQueue (p : Pipeline F) (jobs : List Job) (stage : Stage) :
    (p.setQueue jobs stage).workers = p.workers := by
  cases stage <;> rfl

@[simp] theorem feeders_setQueue (p : Pipeline F) (jobs : List Job) (stage : Stage) :
    (p.setQueue jobs stage).feeders = p.feeders := by
  cases stage <;> rfl

section Moves

variable {p : Pipeline F} {w : Nat} {worker : Worker F} {stage : Stage} {job : Job}
  {rest : List Job} {c : Checkpoint}

theorem load_setActivity (hw : p.workers[w]? = some worker) (activity : Activity F)
    (c : Checkpoint) : (p.setActivity w activity).load c + worker.activity.due c =
      p.load c + activity.due c := by
  have hheld : heldLoad (p.setActivity w activity).workers c + worker.activity.due c =
      heldLoad p.workers c + activity.due c := by
    simp only [heldLoad, setActivity, modify_eq_set hw]
    exact sum_map_set (fun worker : Worker F => worker.activity.due c) hw _
  calc
    _ = pendingLoad p.feeders c + p.queue c.stage +
        (heldLoad (p.setActivity w activity).workers c + worker.activity.due c) := by
      rw [load, add_assoc]
      rfl
    _ = p.load c + activity.due c := by rw [hheld, load, add_assoc _ _ (activity.due c)]

theorem load_setActivity_of_eq (hw : p.workers[w]? = some worker) {activity : Activity F}
    (hdue : activity.due c = worker.activity.due c) :
    (p.setActivity w activity).load c = p.load c := by
  have h := load_setActivity hw activity c
  rwa [hdue, add_left_inj] at h

theorem load_eq_cons (hw : p.workers[w]? = some worker) {activity : Activity F}
    (hold : worker.activity.due c = {job}) (hnew : activity.due c = 0) :
    p.load c = job ::ₘ (p.setActivity w activity).load c := by
  have h := load_setActivity hw activity c
  rw [hold, hnew, add_zero] at h
  rw [← h, ← Multiset.singleton_add, add_comm]

theorem mem_load_of_due (hw : p.workers[w]? = some worker) (hj : job ∈ worker.activity.due c) :
    job ∈ p.load c := by
  refine Multiset.mem_add.mpr (.inr ?_)
  exact mem_sum_map.mpr ⟨worker, List.mem_of_getElem? hw, hj⟩

theorem mem_load_of_queue (hj : job ∈ p.queue c.stage) : job ∈ p.load c :=
  Multiset.mem_add.mpr (.inl (Multiset.mem_add.mpr (.inr hj)))

theorem mem_load_of_pending {feeders : Feeders} (hf : feeders ∈ p.feeders)
    (hj : job ∈ feeders.pending c.stage) : job ∈ p.load c := by
  refine Multiset.mem_add.mpr (.inl (Multiset.mem_add.mpr (.inl ?_)))
  exact mem_sum_map.mpr ⟨feeders, hf, hj⟩

theorem load_of_empty (hqueue : p.queue c.stage = [])
    (hpending : ∀ feeders ∈ p.feeders, feeders.pending c.stage = [])
    (hworkers : ∀ worker ∈ p.workers, worker.activity.due c = 0) : p.load c = 0 := by
  refine Multiset.eq_zero_of_forall_notMem fun job hj => ?_
  rcases Multiset.mem_add.mp hj with hj | hj
  · rcases Multiset.mem_add.mp hj with hj | hj
    · obtain ⟨feeders, hf, hj⟩ := mem_sum_map.mp hj
      rw [hpending feeders hf] at hj
      cases hj
    · rw [hqueue] at hj
      cases hj
  · obtain ⟨worker, hworker, hj⟩ := mem_sum_map.mp hj
    rw [hworkers worker hworker] at hj
    exact Multiset.notMem_zero _ hj

theorem mem_load_of_mem {c' : Checkpoint} (hstage : c'.stage = c.stage)
    (hdue : ∀ activity : Activity F, ∀ job ∈ activity.due c, job ∈ activity.due c')
    (hj : job ∈ p.load c) : job ∈ p.load c' := by
  rw [load, Multiset.mem_add, Multiset.mem_add] at hj ⊢
  rcases hj with (hj | hj) | hj
  · exact .inl (.inl (by rwa [pendingLoad, hstage]))
  · exact .inl (.inr (by rwa [hstage]))
  · obtain ⟨worker, hworker, hj⟩ := mem_sum_map.mp hj
    exact .inr (mem_sum_map.mpr ⟨worker, hworker, hdue _ job hj⟩)

theorem mem_load_deposited (hstage : c.stage = .prefetch) (hj : job ∈ p.load c) :
    job ∈ p.load .deposited := by
  refine mem_load_of_mem hstage.symm ?_ hj
  intro activity job hj
  cases c <;> cases activity <;> simp_all [Activity.due, Checkpoint.stage]

theorem mem_load_settled (hstage : c.stage = .process) (hj : job ∈ p.load c) :
    job ∈ p.load .settled := by
  refine mem_load_of_mem hstage.symm ?_ hj
  intro activity job hj
  cases c <;> cases activity <;> simp_all [Activity.due, Checkpoint.stage]

/-- A worker that takes a job from the queue leaves the load as it is. -/
theorem load_receive (hw : p.workers[w]? = some worker) (hidle : worker.activity = .idle)
    (hq : p.queue stage = job :: rest) {activity : Activity F}
    (hdue : activity.due c = if c.stage = stage then {job} else 0) :
    ((p.setQueue rest stage).setActivity w activity).load c = p.load c := by
  have hset := load_setActivity (p := p.setQueue rest stage) (by rwa [workers_setQueue])
    activity c
  have hzero : worker.activity.due c = 0 := by rw [hidle]; rfl
  rw [hzero, add_zero] at hset
  rw [hset, load, load, workers_setQueue, feeders_setQueue, queue_setQueue, hdue]
  split
  · rename_i heq
    rw [heq, hq, ← Multiset.cons_coe, ← Multiset.singleton_add]
    abel
  · rw [add_zero]

theorem pendingLoad_set {feeders : List Feeders} {lane : Nat} {f : Feeders}
    (hf : feeders[lane]? = some f) (hp : f.pending stage = job :: rest) (c : Checkpoint) :
    pendingLoad (feeders.set lane (f.setPending rest stage)) c +
      (if c.stage = stage then {job} else 0) = pendingLoad feeders c := by
  have hsum := sum_map_set (fun f : Feeders => (f.pending c.stage : Multiset Job)) hf
    (f.setPending rest stage)
  rw [Feeders.pending_setPending] at hsum
  split
  · rename_i heq
    rw [if_pos heq, heq, hp, ← Multiset.cons_coe, ← Multiset.singleton_add, ← add_assoc,
      add_left_inj] at hsum
    rw [pendingLoad, pendingLoad, heq, hsum]
  · rename_i hne
    rw [if_neg hne, add_left_inj] at hsum
    rw [add_zero, pendingLoad, pendingLoad, hsum]

theorem load_feed {lane : Nat} {f : Feeders} (hf : p.feeders[lane]? = some f)
    (hp : f.pending stage = job :: rest) (c : Checkpoint) :
    ({ p with feeders := p.feeders.set lane (f.setPending rest stage) }.setQueue
      (p.queue stage ++ [job]) stage).load c = p.load c := by
  have hpending := pendingLoad_set hf hp c
  rw [load, load, workers_setQueue, feeders_setQueue, queue_setQueue, ← hpending]
  split
  · rename_i heq
    rw [heq, ← Multiset.coe_add, Multiset.coe_singleton]
    abel
  · rw [add_zero]
    rfl

theorem load_addFeeders (p : Pipeline F) (c : Checkpoint) : p.addFeeders.load c = p.load c := by
  have hempty : Feeders.pending ⟨[], []⟩ c.stage = [] := by
    cases c.stage <;> rfl
  have hpending : pendingLoad (p.feeders ++ [⟨[], []⟩]) c = pendingLoad p.feeders c := by
    simp [pendingLoad, hempty]
  change pendingLoad (p.feeders ++ [⟨[], []⟩]) c + _ + _ = _
  rw [hpending]
  rfl

/-- Jobs that are given to two feeders without any are added to the load. -/
theorem load_dispatch {lane : Nat} {f : Feeders} (hf : p.feeders[lane]? = some f)
    (hempty : ∀ stage, f.pending stage = []) (jobs : List Job) (c : Checkpoint) :
    ({ p with feeders := p.feeders.set lane ⟨jobs, jobs⟩ } : Pipeline F).load c =
      jobs + p.load c := by
  have hsum := sum_map_set (fun f : Feeders => (f.pending c.stage : Multiset Job)) hf ⟨jobs, jobs⟩
  have hjobs : Feeders.pending ⟨jobs, jobs⟩ c.stage = jobs := by
    cases c.stage <;> rfl
  rw [hempty, hjobs, Multiset.coe_nil, add_zero] at hsum
  rw [load, load, pendingLoad, pendingLoad, hsum]
  change _ + (p.queue c.stage : Multiset Job) + _ = _
  abel

theorem load_handOver {lane : Nat} {f : Feeders} (hf : p.feeders[lane]? = some f)
    (hp : f.pending stage = job :: rest) (hw : p.workers[w]? = some worker)
    (hidle : worker.activity = .idle) {activity : Activity F}
    (hdue : activity.due c = if c.stage = stage then {job} else 0) :
    ({ p with feeders := p.feeders.set lane (f.setPending rest stage) }.setActivity w
      activity).load c = p.load c := by
  have hset := load_setActivity
    (p := { p with feeders := p.feeders.set lane (f.setPending rest stage) }) hw activity c
  have hzero : worker.activity.due c = 0 := by rw [hidle]; rfl
  have hpending := pendingLoad_set hf hp c
  rw [hzero, add_zero] at hset
  rw [hset, hdue, load, load, ← hpending]
  change _ + (p.queue c.stage : Multiset Job) + _ + _ = _
  abel

end Moves

end Pipeline

end TxPipeline
