import TxPipeline.Config
import TxPipeline.Gas.Reservation
import TxPipeline.Snapshot.Relay
import TxPipeline.Station.Basic

/-!
# The state of a pipeline

A pipeline runs its handlers over every transaction of a block ahead of execution. It consists of a
station per handler, two pools of workers with a job queue each, a relay that gives every worker a
copy of the store, the gas ledger, and the calls that are made on it.

Everything that runs is a thread: the callers, the workers, two feeders per block, and the threads
of the lanes. The threads share the state, and between two moves of one any other can move.
-/

namespace TxPipeline

/-- The work of one handler on one transaction. -/
structure Job where
  handler : Nat
  tx : IndexedTx
deriving DecidableEq

/-- What a worker is doing. -/
inductive Activity (F : Flow)
  /-- Waiting for a job or for a new copy of the store. -/
  | idle
  | prefetchGather (job : Job)
  | prefetchRun (job : Job) (common : F.Common)
  | prefetchDeposit (job : Job) (data : Option F.Data)
  | processGather (job : Job)
  | processAwait (job : Job) (common : F.Common)
  | processRun (job : Job) (common : F.Common) (data : F.Data)
  | processAnnounce (r : TxResult F.Output) (handler : Nat)
  | processSettle (r : TxResult F.Output) (handler : Nat)
  | exited
  | dead (fault : Fault)

namespace Activity

variable {F : Flow}

def isIdle : Activity F → Bool
  | .idle => true
  | _ => false

/-- Whether the worker has ended, in one way or the other. -/
def isOver : Activity F → Bool
  | .exited => true
  | .dead _ => true
  | _ => false

end Activity

/-- A worker of one of the pools. -/
structure Worker (F : Flow) where
  stage : Stage
  activity : Activity F

/-- The jobs that the two feeders of a block still have to pass to the queues. -/
structure Feeders where
  prefetch : List Job
  process : List Job

/-- What a feeder still has to pass on. -/
def Feeders.pending (feeders : Feeders) : Stage → List Job
  | .prefetch => feeders.prefetch
  | .process => feeders.process

/-- The feeders with another list of pending jobs for one stage. -/
def Feeders.setPending (feeders : Feeders) (jobs : List Job) : Stage → Feeders
  | .prefetch => { feeders with prefetch := jobs }
  | .process => { feeders with process := jobs }

/-- The block that was started and not finished. -/
structure ActiveBlock where
  number : UInt64
  hashes : List Word
  /-- Its lane at every station, and its feeders. -/
  lane : Nat
deriving DecidableEq

/-- How the transactions of a block are divided. -/
structure Plan where
  lane : Nat
  /-- What handlers do not work on, by transaction and then by handler. -/
  declined : List Job
  /-- What handlers work on, in the same order. -/
  jobs : List Job
deriving DecidableEq

/-- What a call to start a block does next. -/
inductive Starting
  /-- Waits for the lock on the active block, and looks for one. -/
  | acquire
  | enter
  | scan
  | opening (plan : Plan) (handler : Nat)
  | distributing (plan : Plan) (next : Snapshot.Distribution)
  | preparing (plan : Plan)
  | declining (plan : Plan) (rest : List Job)
  | settling (plan : Plan) (job : Job) (rest : List Job)
  | dispatching (plan : Plan)
  | activating (plan : Plan)

/-- Whether a call that has come this far holds sending ends of the queues. -/
def Starting.holdsSenders : Starting → Bool
  | .acquire => false
  | .enter => false
  | .activating _ => false
  | _ => true

/-- What a call to finish a block does next. -/
inductive Finishing
  | take
  | joinPreparation (block : ActiveBlock) (handler : Nat)
  | joinFeeders (block : ActiveBlock)
  | joinAggregation (block : ActiveBlock) (handler : Nat)
  | conclude (block : ActiveBlock) (handler : Nat)
  | ending (block : ActiveBlock) (handler : Nat) (kept : Option Fault)
  | draining (block : ActiveBlock) (handler : Nat) (index length : Nat) (kept : Option Fault)
  | closing (block : ActiveBlock) (handler : Nat) (kept : Option Fault)
  | leaving (block : ActiveBlock) (kept : Option Fault)

/-- What a call to close the pipeline does next. -/
inductive Closing
  | take
  /-- Looks for an active block and drops the sending ends of the queues. -/
  | check
  | join (worker : Nat)

/-- The outcome of a call. -/
inductive Answer (F : Flow)
  | started (outcome : Except Failure Unit)
  /-- The fault that was raised, if any, and the store afterwards. -/
  | finished (fault : Option Fault) (store : F.Store)
  | closed

/-- What can be asked of a pipeline that takes time. -/
inductive Task (F : Flow)
  /-- Work on `block`, beginning with the state in `store`. -/
  | start (store : F.Store) (rules : Rules) (block : Block)
  /-- Come to an end with `block`, which was executed, and change `store`. -/
  | finish (store : F.Store) (block : Block) (receipts : List Receipt)
  | close

/-- A call, by what remains to be done of it. -/
inductive Call (F : Flow)
  | start (store : F.Store) (rules : Rules) (block : Block) (next : Starting)
  | finish (store : F.Store) (block : Block) (receipts : List Receipt) (next : Finishing)
  | close (next : Closing)
  | returned (answer : Answer F)

namespace Call

variable {F : Flow}

/-- The call for a task, of which nothing is done yet. -/
def ofTask : Task F → Call F
  | .start store rules block => .start store rules block .acquire
  | .finish store block receipts => .finish store block receipts .take
  | .close => .close .take

def isReturned : Call F → Bool
  | .returned _ => true
  | _ => false

/-- Whether the call holds sending ends of the queues. -/
def holdsSenders : Call F → Bool
  | .start _ _ _ next => next.holdsSenders
  | _ => false

/-- The outcome of a call that has returned. -/
def answer? : Call F → Option (Answer F)
  | .returned answer => some answer
  | _ => none

end Call

/-- The whole state of a pipeline. -/
structure Pipeline (F : Flow) where
  config : Config
  stations : List (Station F)
  relay : Snapshot.Relay F.Store
  prefetchQueue : List Job
  processQueue : List Job
  /-- The prefetch pool, followed by the process pool. -/
  workers : List (Worker F)
  /-- The feeders of each block for which lanes were opened, oldest first. -/
  feeders : List Feeders
  ledger : Gas.Ledger
  /-- Whether the pools have not been taken to be closed. -/
  isOpen : Bool
  /-- Whether the pools still hold their sending ends of the queues. -/
  poolSenders : Bool
  /-- Whether a call to start a block holds the lock on `active`. -/
  locked : Bool
  active : Option ActiveBlock
  calls : List (Call F)
  copies : Nat
  log : List Event

namespace Pipeline

variable {F : Flow}

/-- The workers that a configuration asks for, all of them idle. -/
def crew (config : Config) : List (Worker F) :=
  List.replicate config.prefetchWorkers ⟨.prefetch, .idle⟩ ++
    List.replicate config.processWorkers ⟨.process, .idle⟩

/-- What is logged while the workers come up. -/
def arrivals (config : Config) (handlers : Nat) : List Event :=
  (List.range config.prefetchWorkers).map (.workerSpawned .prefetch) ++
    (List.range config.processWorkers).map (.workerSpawned .process) ++
    [.workersReady config.prefetchWorkers config.processWorkers handlers]

/-- A pipeline whose workers have all come up. -/
def ofConfig (config : Config) (registry : Registry F) : Pipeline F where
  config
  stations := registry.handlers.map Station.create
  relay := .ready (config.prefetchWorkers + config.processWorkers)
  prefetchQueue := []
  processQueue := []
  workers := crew config
  feeders := []
  ledger := .empty
  isOpen := true
  poolSenders := true
  locked := false
  active := none
  calls := []
  copies := 0
  log := arrivals config registry.size

/-- A pipeline for the handlers of a registry, if the configuration can work. -/
def create (config : Config) (registry : Registry F) : Except Error (Pipeline F) := do
  config.validate
  return ofConfig config registry

/-- The jobs that wait for the workers of a stage. -/
def queue (p : Pipeline F) : Stage → List Job
  | .prefetch => p.prefetchQueue
  | .process => p.processQueue

/-- Replaces the jobs that wait for the workers of a stage. -/
def setQueue (p : Pipeline F) (jobs : List Job) : Stage → Pipeline F
  | .prefetch => { p with prefetchQueue := jobs }
  | .process => { p with processQueue := jobs }

def setActivity (p : Pipeline F) (w : Nat) (activity : Activity F) : Pipeline F :=
  { p with workers := p.workers.modify w fun worker => { worker with activity } }

def setStation (p : Pipeline F) (h : Nat) (s : Station F) : Pipeline F :=
  { p with stations := p.stations.set h s }

def setCall (p : Pipeline F) (c : Nat) (call : Call F) : Pipeline F :=
  { p with calls := p.calls.set c call }

def note (p : Pipeline F) (event : Event) : Pipeline F := { p with log := p.log ++ [event] }

/-- Whether anybody can still send a job to the workers of a stage. -/
def hasSender (p : Pipeline F) (stage : Stage) : Bool :=
  p.poolSenders || p.feeders.any (fun f => !(f.pending stage).isEmpty) ||
    p.calls.any Call.holdsSenders

/-- Whether anybody can still receive a job of a stage. -/
def hasReceiver (p : Pipeline F) (stage : Stage) : Bool :=
  p.workers.any fun w => w.stage == stage && !w.activity.isOver

/-- Whether a worker can turn to a job or a copy. -/
def isFree (p : Pipeline F) (w : Nat) : Bool :=
  match p.workers[w]? with
  | some worker => worker.activity.isIdle && p.relay.isParked w
  | none => false

def invoke (p : Pipeline F) (task : Task F) : Pipeline F :=
  { p with calls := p.calls ++ [.ofTask task] }

end Pipeline

end TxPipeline
