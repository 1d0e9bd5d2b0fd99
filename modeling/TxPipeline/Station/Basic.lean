import TxPipeline.Cell.Basic
import TxPipeline.Handler
import TxPipeline.Stream

/-!
# Stations

A station is one handler with the cells it uses from block to block, and one lane for each block
that was opened at it. The cells pass values between the stages:

* `common` from `beforeBlock` to everything that works on a transaction;
* `data`, one per transaction, from `prefetch` to `process`;
* `results`, one per transaction, from whoever declines or processes it to readers;
* `aggregated` from `postProcess` to `afterBlock`.

A result is announced on the completion stream of the block before its cell is written. When as many
results were announced as the block has transactions, the stream closes.
-/

namespace TxPipeline

/-- The thread that runs `beforeBlock`. -/
inductive Preparation (F : Flow)
  | idle
  | ready (store : F.Store) (rules : Rules) (block : Block)
  | ended
  | dead (fault : Fault)

/-- The thread that copies results, in the order of transactions, from the cells to a stream. -/
inductive Replay (α : Type)
  | idle
  /-- It waits for the result at this position. -/
  | reading (index : Nat)
  /-- It is about to send what it found there. -/
  | sending (index : Nat) (result : α)
  | ended

/-- A replay of `length` cells that has come to `index`. -/
def Replay.at {α : Type} (index length : Nat) : Replay α :=
  if index < length then .reading index else .ended

def Replay.isEnded {α : Type} : Replay α → Bool
  | .ended => true
  | _ => false

/-- The thread that runs `postProcess`. The completion stream it reads is the one of lane
`source`. -/
inductive Aggregation (F : Flow)
  | idle
  /-- It is about to claim a completion stream. -/
  | claiming
  | gathering (source : Nat)
  | reading (source : Nat) (reader : Reader (TxResult F.Output) F.Aggregate)
  | joining (outcome : Except Fault F.Aggregate)
  | ended
  | dead (fault : Fault)

/-- What one block has of its own at a station. -/
structure Lane (F : Flow) where
  preparation : Preparation F
  /-- Results in the order in which they are announced. -/
  completions : Stream (TxResult F.Output)
  length : Nat
  replay : Replay (TxResult F.Output)
  ordered : Stream (TxResult F.Output)
  aggregation : Aggregation F

/-- The lane of a block at which nothing has begun. -/
def Lane.fresh {F : Flow} : Lane F := ⟨.idle, .fresh, 0, .idle, .fresh, .idle⟩

/-- One handler and everything that only it uses. -/
structure Station (F : Flow) where
  handler : Handler F
  common : Cell F.Common
  /-- A `none` in a cell says that the prefetch of that transaction failed. -/
  data : List (Cell (Option F.Data))
  results : List (Cell (TxResult F.Output))
  /-- How many transactions the open block has; 0 between blocks. -/
  blockLength : Nat
  /-- The lane on whose completion stream results are announced, until it closes. -/
  sender : Option Nat
  /-- How many results are still to be announced. -/
  remaining : Nat
  /-- The lane whose completion stream waits to be claimed. -/
  receiver : Option Nat
  aggregated : Cell F.Aggregate
  /-- The first fault of `prefetch` or `process` in this block. -/
  fault : Option Fault
  lanes : List (Lane F)

namespace Station

variable {F : Flow}

/-- The station of a handler that has seen no block. -/
def create (handler : Handler F) : Station F :=
  ⟨handler, .empty, [], [], 0, none, 0, none, .empty, none, []⟩

def updateLane (s : Station F) (lane : Nat) (f : Lane F → Lane F) : Station F :=
  { s with lanes := s.lanes.modify lane f }

def preparation? (s : Station F) (lane : Nat) : Option (Preparation F) :=
  (s.lanes[lane]?).map (·.preparation)

def aggregation? (s : Station F) (lane : Nat) : Option (Aggregation F) :=
  (s.lanes[lane]?).map (·.aggregation)

/-- Opens the station for a block of `n` transactions, in a new lane. -/
def openBlock (s : Station F) (n : Nat) : Station F :=
  let lane := s.lanes.length
  { s with
    data := s.data ++ List.replicate (n - s.data.length) .empty
    results := s.results ++ List.replicate (n - s.results.length) .empty
    blockLength := n
    sender := if 0 < n then some lane else none
    remaining := n
    receiver := some lane
    lanes := s.lanes ++ [.fresh] }

def prepare (s : Station F) (lane : Nat) (store : F.Store) (rules : Rules) (block : Block) :
    Station F :=
  s.updateLane lane fun l => { l with preparation := .ready store rules block }

def aggregate (s : Station F) (lane : Nat) : Station F :=
  s.updateLane lane fun l => { l with aggregation := .claiming }

/-- Announces a result: sends it on the completion stream and counts it. The last one closes the
stream. -/
def announce (s : Station F) (r : TxResult F.Output) : Except Fault (Station F) :=
  if r.index < s.blockLength then
    let sent := match s.sender with
      | some lane => s.updateLane lane fun l => { l with completions := l.completions.send r }
      | none => s
    .ok { sent with
      remaining := s.remaining - 1
      sender := if s.remaining - 1 = 0 then none else s.sender }
  else .error (.outsideBlock r.index s.blockLength)

def settle (s : Station F) (r : TxResult F.Output) : Except Fault (Station F) :=
  match s.results[r.index]? with
  | none => .error (.outOfBounds r.index s.results.length)
  | some cell =>
      match cell.set? r with
      | none => .error .alreadySet
      | some cell => .ok { s with results := s.results.set r.index cell }

def deposit (s : Station F) (index : Nat) (data : Option F.Data) : Except Fault (Station F) :=
  match s.data[index]? with
  | none => .error (.outOfBounds index s.data.length)
  | some cell =>
      match cell.set? data with
      | none => .error .alreadySet
      | some cell => .ok { s with data := s.data.set index cell }

/-- Keeps a fault of a worker stage, if it is the first. -/
def keep (s : Station F) (fault : Fault) : Station F :=
  { s with fault := s.fault <|> some fault }

/-- What a reader of a result sees now: a fault if the open block has no such transaction, nothing
while the reader has to wait. -/
def result? (s : Station F) (index : Nat) : Except Fault (Option (TxResult F.Output)) :=
  if index < s.blockLength then .ok ((s.results[index]?).bind (·.value))
  else .error (.outsideBlock index s.blockLength)

def drain? (s : Station F) (index : Nat) : Option (Station F) := do
  let cell ← s.results[index]?
  let (_, cell) ← cell.take?
  some { s with results := s.results.set index cell }

def takeAggregate? (s : Station F) : Option (F.Aggregate × Station F) := do
  let (a, cell) ← s.aggregated.take?
  some (a, { s with aggregated := cell })

/-- Closes the block: all cells but those of the results are emptied, and nothing is kept. -/
def closeBlock (s : Station F) : Station F :=
  { s with
    blockLength := 0
    data := s.data.map Cell.reset
    common := s.common.reset
    aggregated := s.aggregated.reset
    receiver := none
    fault := none }

/-- The text of the handle through which results are read. -/
def handleText (s : Station F) : String :=
  "ResultHandle \x7b block_len: " ++ toString s.blockLength ++ " \x7d"

end Station

end TxPipeline
