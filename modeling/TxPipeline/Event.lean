import TxPipeline.Error

/-!
# Events

What a pipeline logs. All events come from the thread that calls the pipeline, except
`stageFaulted`, which a worker logs.
-/

namespace TxPipeline

/-- How much an event matters. -/
inductive Level
  | trace
  | debug
  | info
  | warn
  | error
deriving DecidableEq

def Level.name : Level → String
  | .trace => "TRACE"
  | .debug => "DEBUG"
  | .info => "INFO"
  | .warn => "WARN"
  | .error => "ERROR"

/-- Something worth logging. -/
inductive Event
  /-- A worker has a span of its own. -/
  | workerSpawned (stage : Stage) (worker : Nat)
  | workersReady (prefetchWorkers processWorkers handlers : Nat)
  | intrinsicViolation (index : Nat) (hash : Word) (intrinsic limit : UInt64)
  | insufficientGas (index : Nat) (available required : UInt64)
  | snapshotsDistributed (workers : Nat)
  | blockStarted (number : UInt64) (txs jobs : Nat)
  | finishedWithoutBlock (number : UInt64)
  | blockFinished (number : UInt64) (txs : Nat)
  | alreadyClosed
  | closingInProgress
  | workerLost
  | processorClosed
  | stageFaulted (handler : String) (stage : Stage) (index : Nat)
deriving DecidableEq

namespace Event

def level : Event → Level
  | .workerSpawned .. => .info
  | .workersReady .. => .debug
  | .intrinsicViolation .. => .error
  | .insufficientGas .. => .trace
  | .snapshotsDistributed .. => .trace
  | .blockStarted .. => .debug
  | .finishedWithoutBlock .. => .warn
  | .blockFinished .. => .debug
  | .alreadyClosed => .warn
  | .closingInProgress => .warn
  | .workerLost => .error
  | .processorClosed => .debug
  | .stageFaulted .. => .error

/-- The text of an event; a span has its name. -/
def message : Event → String
  | .workerSpawned .. => "preprocess_worker"
  | .workersReady .. => "Preprocessing workers ready"
  | .intrinsicViolation .. => "Intrinsic gas exceeds gas limit of a validated transaction"
  | .insufficientGas .. => "Insufficient gas for preprocessing"
  | .snapshotsDistributed .. => "State snapshots distributed"
  | .blockStarted .. => "Started block preprocessing"
  | .finishedWithoutBlock .. => "finish_block called without a started block"
  | .blockFinished .. => "Finished block preprocessing"
  | .alreadyClosed => "Processor already closed"
  | .closingInProgress => "Closing processor with a block in progress"
  | .workerLost => "Preprocessing worker panicked"
  | .processorClosed => "Processor closed"
  | .stageFaulted .. => "Handler panicked, declining transaction"

end Event

end TxPipeline
