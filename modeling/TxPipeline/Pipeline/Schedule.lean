import TxPipeline.Pipeline.Step

/-!
# A fair schedule

One way to run a pipeline: all actors take turns. It is one of the runs that the moves allow, and
whatever holds of every run holds of it.
-/

namespace TxPipeline.Pipeline

variable {F : Flow}

/-- Every actor that can have a move in this state or a later one of the same round, callers
first. -/
def actors (p : Pipeline F) : List Actor :=
  let lanes := List.range p.feeders.length
  let workers := List.range p.workers.length
  let handlers := List.range p.stations.length
  (List.range p.calls.length).map Actor.caller ++
    lanes.flatMap (fun lane => [Actor.feeder lane .prefetch, Actor.feeder lane .process]) ++
    lanes.flatMap (fun lane => workers.map (Actor.handOver lane)) ++
    workers.flatMap (fun w => [Actor.refresher w, Actor.receiver w, Actor.worker w]) ++
    handlers.flatMap (fun h => lanes.flatMap fun lane =>
      [Actor.preparation h lane, Actor.replay h lane, Actor.aggregation h lane])

/-- One move for every actor that can make one when its turn comes, and whether any could. -/
def round (p : Pipeline F) : Bool × Pipeline F :=
  p.actors.foldl
    (fun (moved, p) actor =>
      match p.step? actor with
      | some p => (true, p)
      | none => (moved, p))
    (false, p)

/-- Rounds until `stop`, at most `rounds` of them, and none after one in which nobody moved. -/
def runUntil (stop : Pipeline F → Bool) : Nat → Pipeline F → Pipeline F
  | 0, p => p
  | rounds + 1, p =>
      if stop p then p
      else
        match p.round with
        | (true, p) => runUntil stop rounds p
        | (false, p) => p

def hasReturned (p : Pipeline F) (c : Nat) : Bool :=
  match p.calls[c]? with
  | some call => call.isReturned
  | none => false

/-- Makes a call and runs until it returns. -/
def perform (p : Pipeline F) (rounds : Nat) (task : Task F) : Option (Answer F) × Pipeline F :=
  let c := p.calls.length
  let p := runUntil (fun p => p.hasReturned c) rounds (p.invoke task)
  ((p.calls[c]?).bind Call.answer?, p)

/-- What a reader of a result sees now: a fault if there is no such transaction, nothing while the
reader has to wait. -/
def result? (p : Pipeline F) (h index : Nat) : Except Fault (Option (TxResult F.Output)) :=
  match p.stations[h]? with
  | some s => s.result? index
  | none => .error (.outOfBounds h p.stations.length)

/-- Whether a reader of a result need not wait. -/
def isReadable (p : Pipeline F) (h index : Nat) : Bool :=
  match p.result? h index with
  | .error _ => true
  | .ok r => r.isSome

/-- Runs until a reader of a result need not wait, and reads it. -/
def readResult (p : Pipeline F) (rounds h index : Nat) :
    Except Fault (Option (TxResult F.Output)) × Pipeline F :=
  let p := runUntil (fun p => p.isReadable h index) rounds p
  (p.result? h index, p)

def charge (p : Pipeline F) (hash : Word) : Except Error UInt64 := p.ledger.charge hash

def forget (p : Pipeline F) : Pipeline F := { p with log := [] }

end TxPipeline.Pipeline
