import TxPipeline.Pipeline.Schedule

/-!
# Calls for results

Results are read in threads that the pipeline knows nothing of, as many as there are. A call for a
result looks once whether the open block has such a transaction, and raises a fault if not. After
that it looks at nothing but the cell: it waits on the latch of the cell as long as that is empty.
Between two moves of a call anything can happen, and the block can even be finished.
-/

namespace TxPipeline

/-- How far a call for a result has come. -/
inductive Asking (F : Flow)
  /-- It is about to look at the cell. -/
  | ready
  /-- It waits on this latch of the cell. -/
  | parked (latch : Nat)
  | answered (r : TxResult F.Output)
  | failed (fault : Fault)

/-- A call for the result that a handler has at a position. -/
structure Inquiry (F : Flow) where
  handler : Nat
  index : Nat
  state : Asking F

namespace Station

variable {F : Flow}

/-- The first move of a call for a result: looks at the length of the open block. -/
def ask (s : Station F) (index : Nat) : Asking F :=
  if index < s.blockLength then .ready else .failed (.outsideBlock index s.blockLength)

/-- A later move of a call for a result: looks at the cell, or notices that its latch was
released. -/
def pursue? (s : Station F) (index : Nat) : Asking F → Option (Asking F)
  | .ready =>
      match s.results[index]? with
      | none => some (.failed (.outOfBounds index s.results.length))
      | some cell =>
          match cell.value with
          | none => some (.parked cell.latch)
          | some r => some (.answered r)
  | .parked latch =>
      match s.results[index]? with
      | none => none
      | some cell => if cell.released latch then some .ready else none
  | _ => none

end Station

/-- A pipeline, and all the calls for its results that were ever made, oldest first. -/
structure Audience (F : Flow) where
  pipeline : Pipeline F
  inquiries : List (Inquiry F)

namespace Audience

variable {F : Flow}

/-- What happens next. -/
inductive Move (F : Flow)
  | pipeline (move : Pipeline.Move F)
  /-- A call for the result of handler `h` at position `index` begins. -/
  | ask (h index : Nat)
  /-- Call `k` goes on. -/
  | pursue (k : Nat)

/-- Nobody has asked for a result yet. -/
def of (p : Pipeline F) : Audience F := ⟨p, []⟩

/-- The next move of call `k`. -/
def pursue? (a : Audience F) (k : Nat) : Option (Audience F) := do
  let inquiry ← a.inquiries[k]?
  let s ← a.pipeline.stations[inquiry.handler]?
  let state ← s.pursue? inquiry.index inquiry.state
  some { a with inquiries := a.inquiries.set k { inquiry with state } }

/-- The audience after one thing that happens, if it can happen now. -/
def move? (a : Audience F) : Move F → Option (Audience F)
  | .pipeline move => (a.pipeline.move? move).map fun pipeline => { a with pipeline }
  | .ask h index =>
      (a.pipeline.stations[h]?).map fun s =>
        { a with inquiries := a.inquiries ++ [⟨h, index, s.ask index⟩] }
  | .pursue k => a.pursue? k

/-- The audience after a run, if all of it can happen. -/
def run? (a : Audience F) : List (Move F) → Option (Audience F)
  | [] => some a
  | move :: rest => (a.move? move).bind fun a => a.run? rest

end Audience

end TxPipeline
