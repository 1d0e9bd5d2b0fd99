import TxPipeline.Pipeline.Close
import TxPipeline.Pipeline.Finish
import TxPipeline.Pipeline.Start
import TxPipeline.Pipeline.Work
import TxPipeline.Station.Threads

/-!
# Moves of a pipeline

An actor is one of the threads, together with what it chooses where it has a choice. A run of a
pipeline is any sequence of possible moves and new calls; nothing says in which order the threads
come, and nothing keeps calls from overlapping. The operating system can deny a call the threads
that it asks for.
-/

namespace TxPipeline

/-- Who moves next. -/
inductive Actor
  | caller (c : Nat)
  /-- A worker that takes a copy of the store. -/
  | refresher (w : Nat)
  | receiver (w : Nat)
  | worker (w : Nat)
  | feeder (lane : Nat) (stage : Stage)
  /-- A feeder and the worker to which it hands a job. -/
  | handOver (lane w : Nat)
  | preparation (h lane : Nat)
  | replay (h lane : Nat)
  | aggregation (h lane : Nat)
deriving DecidableEq

namespace Pipeline

variable {F : Flow}

/-- The next move of the thread of call `c`. -/
def stepCall? (p : Pipeline F) (c : Nat) : Option (Pipeline F) :=
  match p.calls[c]? with
  | some (.start store rules block next) => p.stepStart? c store rules block next
  | some (.finish store block receipts next) => p.stepFinish? c store block receipts next
  | some (.close next) => p.stepClose? c next
  | _ => none

/-- A move within the station of one handler. -/
def stepStation? (p : Pipeline F) (h : Nat) (move : Station F → Option (Station F)) :
    Option (Pipeline F) := do
  let s ← p.stations[h]?
  let s ← move s
  some (p.setStation h s)

/-- The pipeline after a move of `actor`, if that is possible now. -/
def step? (p : Pipeline F) : Actor → Option (Pipeline F)
  | .caller c => p.stepCall? c
  | .refresher w => p.refresh? w
  | .receiver w => p.receive? w
  | .worker w => p.work? w
  | .feeder lane stage => p.feed? lane stage
  | .handOver lane w => p.handOver? lane w
  | .preparation h lane => p.stepStation? h fun s => s.stepPreparation? lane
  | .replay h lane => p.stepStation? h fun s => s.stepReplay? lane
  | .aggregation h lane => p.stepStation? h fun s => s.stepAggregation? lane

/-- What happens next in a run. -/
inductive Move (F : Flow)
  | call (task : Task F)
  | act (actor : Actor)
  /-- The operating system denies call `c` a thread for the block that it starts. -/
  | deny (c : Nat) (reason : String)

/-- The pipeline after one thing that happens, if it can happen now. -/
def move? (p : Pipeline F) : Move F → Option (Pipeline F)
  | .call task => some (p.invoke task)
  | .act actor => p.step? actor
  | .deny c reason => p.deny? c reason

/-- The pipeline after a run, if all of it can happen. -/
def run? (p : Pipeline F) : List (Move F) → Option (Pipeline F)
  | [] => some p
  | move :: rest => (p.move? move).bind fun p => p.run? rest

end Pipeline

end TxPipeline
