import TxPipeline.Proofs.Relay
import TxPipeline.Proofs.Scan
import TxPipeline.Proofs.Service.Calls

/-!
# The invariant of a pipeline

A pipeline is either between two blocks or has one in work. The calls that start and finish the
block pass through phases, and each phase says what is served at which station, what is still to
be dispatched, and which copies of the store the workers hold.
-/

namespace TxPipeline

variable {F : Flow}

/-! ## Phases -/

/-- How far the calls that start and finish a block have come with it. -/
inductive Phase (F : Flow)
  /-- Call `c` is starting the block. -/
  | starting (c : Nat) (next : Starting)
  /-- The block is started, and no call has begun to finish it. -/
  | started
  /-- Call `c` was given the store `origin` to finish the block with, and has made `store` of it. -/
  | finishing (c : Nat) (origin store : F.Store) (block : Block) (receipts : List Receipt)
      (next : Finishing)
  /-- The call that was to finish the block was cut short, after it had waited for the preparations
  of the handlers below `joined` and had taken the aggregates of those below `concluded`. -/
  | abandoned (joined concluded : Nat)

namespace Work

/-- The plan for the block in lane `lane`. -/
def plan (handlers : List (Handler F)) (work : Work F) (lane : Nat) : Plan :=
  ⟨lane, work.declined handlers, work.jobs handlers⟩

/-- The block as the active one, in lane `lane`. -/
def active (work : Work F) (lane : Nat) : ActiveBlock :=
  ⟨work.block.number, work.block.hashes, lane⟩

/-- `afterBlock` of the first `k` handlers has made `store` of `origin`, each with an aggregate that
its reader can come to. -/
inductive Concludes (handlers : List (Handler F)) (work : Work F) (block : Block)
    (receipts : List Receipt) (origin : F.Store) : Nat → F.Store → Prop
  | start : Concludes handlers work block receipts origin 0 origin
  | next {k : Nat} {store : F.Store} {handler : Handler F} {a : F.Aggregate}
      (hbefore : Concludes handlers work block receipts origin k store)
      (hhandler : handlers[k]? = some handler) (haggregate : work.Aggregates handlers k a)
      (hfault : (handler.afterBlock store a block receipts).2 = none) :
      Concludes handlers work block receipts origin (k + 1)
        (handler.afterBlock store a block receipts).1

/-- Whether `prefetch` or `process` of a job raises this fault. -/
def Raises (handlers : List (Handler F)) (work : Work F) (job : Job) (fault : Fault) : Prop :=
  work.prefetchFault handlers job = some fault ∨ work.processFault handlers job = some fault

/-- `kept` is a fault of the first of the handlers below `k` that has raised any. -/
structure Collects (handlers : List (Handler F)) (work : Work F) (k : Nat)
    (kept : Option Fault) : Prop where
  raised : ∀ fault, kept = some fault → ∃ job ∈ work.jobs handlers, job.handler < k ∧
    work.Raises handlers job fault ∧
    ∀ other ∈ work.jobs handlers, other.handler < job.handler → ∀ f, ¬ work.Raises handlers other f
  missed : kept = none → ∀ job ∈ work.jobs handlers, job.handler < k →
    ∀ f, ¬ work.Raises handlers job f

end Work

/-- What is due at a checkpoint of these declined transactions and jobs. -/
def Checkpoint.owed (c : Checkpoint) (declined jobs : List Job) : Multiset Job :=
  if c = .announced ∨ c = .settled then declined + jobs else jobs

/-- What a call that starts a block still has to decline and to dispatch. -/
def Starting.due (c : Checkpoint) : Starting → Multiset Job
  | .opening plan _ => c.owed plan.declined plan.jobs
  | .distributing plan _ => c.owed plan.declined plan.jobs
  | .preparing plan => c.owed plan.declined plan.jobs
  | .declining plan rest => c.owed rest plan.jobs
  | .settling plan job rest =>
      if c = .settled then c.owed (job :: rest) plan.jobs else c.owed rest plan.jobs
  | .dispatching plan => plan.jobs
  | _ => 0

/-- What is served at station `h` while a block is started. -/
def Starting.berth (h : Nat) : Starting → Berth
  | .opening _ k => if h < k then .serving .opened else .unopened
  | .distributing _ _ => .serving .opened
  | .preparing _ => .serving .opened
  | .declining _ _ => .serving ⟨true, false, false, false, false, 0⟩
  | .settling _ _ _ => .serving ⟨true, false, false, false, false, 0⟩
  | .dispatching _ => .serving ⟨true, false, false, false, false, 0⟩
  | .activating _ => .serving ⟨true, true, false, false, false, 0⟩
  | _ => .unopened

/-- What is served at station `h` while a block of `n` transactions is finished. -/
def Finishing.berth (n h : Nat) : Finishing → Berth
  | .take => .serving ⟨true, true, false, false, false, 0⟩
  | .joinPreparation _ k => .serving ⟨true, true, decide (h < k), false, false, 0⟩
  | .joinFeeders _ => .serving ⟨true, true, true, false, false, 0⟩
  | .joinAggregation _ k => .serving ⟨true, true, true, decide (h < k), decide (h < k), 0⟩
  | .conclude _ k => .serving ⟨true, true, true, decide (h ≤ k), decide (h < k), 0⟩
  | .ending _ k _ => if h < k then .closed else .serving ⟨true, true, true, true, true, 0⟩
  | .draining _ k i _ _ =>
      if h < k then .closed else .serving ⟨true, true, true, true, true, if h = k then i else 0⟩
  | .closing _ k _ =>
      if h < k then .closed else .serving ⟨true, true, true, true, true, if h = k then n else 0⟩
  | .leaving _ _ => .closed

/-- A call that starts `work` in lane `lane` can have come this far. -/
def Starting.Valid (handlers : List (Handler F)) (work : Work F) (lane : Nat) : Starting → Prop
  | .opening plan _ => plan = work.plan handlers lane
  | .distributing plan _ => plan = work.plan handlers lane
  | .preparing plan => plan = work.plan handlers lane
  | .declining plan rest => plan = work.plan handlers lane ∧ rest <:+ work.declined handlers
  | .settling plan job rest =>
      plan = work.plan handlers lane ∧ job :: rest <:+ work.declined handlers
  | .dispatching plan => plan = work.plan handlers lane
  | .activating plan => plan = work.plan handlers lane
  | _ => False

/-- A call that finishes `work` in lane `lane` can have come this far. -/
def Finishing.Valid (handlers : List (Handler F)) (work : Work F) (lane : Nat)
    (origin store : F.Store) (block : Block) (receipts : List Receipt) : Finishing → Prop
  | .take => False
  | .joinPreparation active _ => active = work.active lane ∧ store = origin
  | .joinFeeders active => active = work.active lane ∧ store = origin
  | .joinAggregation active k =>
      active = work.active lane ∧ work.Concludes handlers block receipts origin k store
  | .conclude active k =>
      active = work.active lane ∧ k < handlers.length ∧
        work.Concludes handlers block receipts origin k store
  | .ending active k kept =>
      active = work.active lane ∧
        work.Concludes handlers block receipts origin handlers.length store ∧
        work.Collects handlers k kept
  | .draining active k i length kept =>
      active = work.active lane ∧ k < handlers.length ∧ i ≤ length ∧
        length = work.block.length ∧
        work.Concludes handlers block receipts origin handlers.length store ∧
        work.Collects handlers k kept
  | .closing active k kept =>
      active = work.active lane ∧ k < handlers.length ∧
        work.Concludes handlers block receipts origin handlers.length store ∧
        work.Collects handlers k kept
  | .leaving active kept =>
      active = work.active lane ∧
        work.Concludes handlers block receipts origin handlers.length store ∧
        work.Collects handlers handlers.length kept

namespace Phase

/-- What is not dispatched yet, and the declined transactions without a result. -/
def due (phase : Phase F) (c : Checkpoint) : Multiset Job :=
  match phase with
  | .starting _ next => next.due c
  | _ => 0

/-- What is served at station `h` for a block of `n` transactions. -/
def berth (n h : Nat) : Phase F → Berth
  | .starting _ next => next.berth h
  | .started => .serving ⟨true, true, false, false, false, 0⟩
  | .finishing _ _ _ _ _ next => next.berth n h
  | .abandoned joined concluded =>
      .serving ⟨true, true, decide (h < joined), decide (h < concluded), decide (h < concluded), 0⟩

/-- Whether the block is started, and will be finished if nobody raises a fault. -/
def isAttended : Phase F → Bool
  | .started => true
  | .finishing _ _ _ _ _ _ => true
  | _ => false

/-- The copies of the store that workers hold, or are about to take. -/
def Distributes (work : Work F) (relay : Snapshot.Relay F.Store) : Phase F → Prop
  | .starting _ (.opening _ _) => ∃ copy, relay.Rests copy
  | .starting _ (.distributing _ next) => relay.Distributes work.store next
  | _ => relay.Rests (some work.store)

/-- The jobs that have not passed a checkpoint, dispatched or not. -/
def outstanding (phase : Phase F) (p : Pipeline F) (c : Checkpoint) : Multiset Job :=
  phase.due c + p.load c

end Phase

/-! ## Calls -/

/-- A call that does nothing about the block in work: it has ended, or has just begun. -/
inductive Call.Waits (active : Option ActiveBlock) : Call F → Prop
  | settled {call : Call F} (h : call.isSettled = true) : Call.Waits active call
  | start (store : F.Store) (rules : Rules) (block : Block) (hlen : block.length ≤ 2 ^ 32) :
      Call.Waits active (.start store rules block .acquire)
  | finish (store : F.Store) (block : Block) (receipts : List Receipt)
      (hnumber : ∀ a, active = some a → a.number = block.number) :
      Call.Waits active (.finish store block receipts .take)

namespace Pipeline

/-- No call but `c` is starting or finishing a block. -/
def Minds (p : Pipeline F) (c : Nat) : Prop :=
  ∀ i call, p.calls[i]? = some call → i ≠ c → call.isSettled = true

/-- All calls wait, at most one of them with something to do. -/
structure Waits (p : Pipeline F) (active : Option ActiveBlock) : Prop where
  unlocked : p.locked = false
  active_eq : p.active = active
  waits : ∃ c, p.Minds c ∧ ∀ call, p.calls[c]? = some call → call.Waits active

/-- Call `c` looks whether it can start a block. -/
structure Enters (p : Pipeline F) (c : Nat) (work : Work F) (next : Starting) : Prop where
  locked : p.locked = true
  active_eq : p.active = none
  minds : p.Minds c
  call : p.calls[c]? = some (.start work.store work.rules work.block next)
  length_le : work.block.length ≤ 2 ^ 32
  next_eq : next = .enter ∨ next = .scan ∧ p.poolSenders = true

/-- What the calls do about the block in work, which is in lane `lane`. -/
def Attends (handlers : List (Handler F)) (work : Work F) (lane : Nat) (p : Pipeline F) :
    Phase F → Prop
  | .starting c next => p.locked = true ∧ p.active = none ∧ p.Minds c ∧
      p.calls[c]? = some (.start work.store work.rules work.block next) ∧
      p.poolSenders = true ∧ next.Valid handlers work lane
  | .started => p.Waits (some (work.active lane))
  | .finishing c origin store block receipts next => p.locked = false ∧ p.active = none ∧
      p.Minds c ∧ p.calls[c]? = some (.finish store block receipts next) ∧
      next.Valid handlers work lane origin store block receipts
  | .abandoned _ _ => p.Waits none

/-! ## Workers and jobs -/

/-- The handlers are those of the registry, and the workers are alive until the pools are closed and
nothing is left to do. -/
structure Crew (handlers : List (Handler F)) (p : Pipeline F) : Prop where
  handlers_eq : p.stations.map (·.handler) = handlers
  receivers : p.relay.receivers.length = p.workers.length
  reports : p.relay.distributor.workers = p.relay.receivers.length
  staffed : ∀ stage, stage ∈ p.workers.map (·.stage)
  alive : ∀ worker ∈ p.workers, ∀ fault, worker.activity ≠ .dead fault
  exited : ∀ worker ∈ p.workers, worker.activity = .exited → p.poolSenders = false ∧
    p.queue worker.stage = [] ∧ ∀ feeders ∈ p.feeders, feeders.pending worker.stage = []
  closed : p.poolSenders = false → p.isOpen = false
  checked : ∀ c : Nat, p.calls[c]? = some (.close .check) → p.isOpen = false

end Pipeline

/-- What a worker holds was made by the handler of its job. -/
def Activity.Fits (handlers : List (Handler F)) (work : Work F) : Activity F → Prop
  | .prefetchRun job common => work.commonOf handlers job.handler = some common
  | .prefetchDeposit job data => data = work.dataOf handlers job.handler job.tx ∧
      (work.commonOf handlers job.handler).isSome
  | .processAwait job common => work.commonOf handlers job.handler = some common
  | .processRun job common data => work.commonOf handlers job.handler = some common ∧
      work.dataOf handlers job.handler job.tx = some data
  | .processAnnounce r h => r = work.resultOf handlers h r.tx
  | .processSettle r h => r = work.resultOf handlers h r.tx
  | _ => True

/-- Every job is in one place of each side, and is read on the process side only after it was
written on the prefetch side. -/
structure Traffic (handlers : List (Handler F)) (work : Work F) (phase : Phase F)
    (p : Pipeline F) : Prop where
  nodup_deposited : (phase.outstanding p .deposited).Nodup
  nodup_settled : (phase.outstanding p .settled).Nodup
  mem_jobs : ∀ c, ∀ job ∈ p.load c, job ∈ work.jobs handlers
  supplied : ∀ job ∈ phase.outstanding p .deposited, job ∈ phase.outstanding p .supplied
  not_closed : ∀ job ∈ phase.outstanding p .settled,
    phase.berth work.block.length job.handler ≠ .closed

namespace Pipeline

/-- No block is in work, and those of `past` are finished. -/
structure Between (calm : Prop) (handlers : List (Handler F)) (past : List (Work F))
    (p : Pipeline F) : Prop where
  crew : p.Crew handlers
  feeders : p.feeders.length = past.length
  calls : p.Waits none ∨ ∃ c work next, p.Enters c work next
  relay : ∃ copy, p.relay.Rests copy
  load : ∀ c, p.load c = 0
  stations : ∀ h (s : Station F), p.stations[h]? = some s →
    s.Clear ∧ List.Forall₂ (Lane.Done handlers h) past s.lanes
  ledger : calm → ∀ hash, p.ledger.find? hash = none

/-- The block of `work` is in work, and those of `past` are finished. -/
structure During (calm : Prop) (handlers : List (Handler F)) (past : List (Work F))
    (work : Work F) (phase : Phase F) (p : Pipeline F) : Prop where
  length_le : work.block.length ≤ 2 ^ 32
  accepted : work.Accepted handlers
  crew : p.Crew handlers
  feeders : p.feeders.length = past.length + 1
  calls : p.Attends handlers work past.length phase
  relay : phase.Distributes work p.relay
  traffic : Traffic handlers work phase p
  activities : ∀ worker ∈ p.workers, worker.activity.Fits handlers work
  stations : ∀ h (s : Station F), p.stations[h]? = some s →
    s.Fits calm handlers past work h (phase.outstanding p) (phase.berth work.block.length h)
  ledger : calm → ∀ hash, p.ledger.find? hash = work.charge handlers hash

end Pipeline

end TxPipeline
