import TxPipeline.Block
import TxPipeline.Error

/-!
# Handlers

A handler says which transactions it wants and what they cost, and then works on a block in stages:

1. `gas`: whether it wants a transaction, and for how much gas;
2. `beforeBlock`: what all later stages of the block share;
3. `prefetch`: what a transaction needs from the store;
4. `process`: the output for a transaction;
5. `postProcess`: an aggregate over all results, read from two streams while they fill;
6. `afterBlock`: the only stage that changes the store.

Each stage is a function of what it is given, and may raise a fault instead of an answer.
-/

namespace TxPipeline

/-- The types of what flows between the stages. -/
structure Flow where
  Store : Type
  /-- Made once for a block, shared by every transaction of it. -/
  Common : Type
  Data : Type
  Output : Type
  Aggregate : Type

/-- How results of type `α` are consumed on the way to an aggregate of type `β`. A reader waits for
nothing but its two streams, one in the order of transactions and one in the order of completion,
and it comes to an end on every input. At the end it gives up both streams. -/
inductive Reader (α β : Type)
  | done (outcome : Except Fault β)
  /-- Asks for the next result in the order of transactions; nothing if there is none left. -/
  | nextByIndex (k : Option α → Reader α β)
  /-- Asks for the next result in the order of completion; nothing if there is none left. -/
  | nextByCompletion (k : Option α → Reader α β)
  /-- Asks how many results wait on the two streams. -/
  | backlog (k : Nat → Nat → Reader α β)

def Reader.backlogText (byIndex byCompletion : Nat) : String :=
  "ResultStreams \x7b tx_order: " ++ toString byIndex ++ ", process_order: " ++
    toString byCompletion ++ " \x7d"

/-- One handler. -/
structure Handler (F : Flow) where
  name : String
  /-- The gas to reserve, or nothing if the handler does not want the transaction. -/
  gas : IndexedTx → Rules → Except Fault (Option UInt64)
  beforeBlock : F.Store → Rules → Block → Except Fault F.Common
  prefetch : F.Store → IndexedTx → F.Common → Except Fault F.Data
  process : F.Store → IndexedTx → F.Common → F.Data → Except Fault F.Output
  /-- The second argument is the number of transactions, which bounds both streams. -/
  postProcess : F.Common → Nat → Reader (TxResult F.Output) F.Aggregate
  /-- The store afterwards, also if a fault cuts the stage short. -/
  afterBlock : F.Store → F.Aggregate → Block → List Receipt → F.Store × Option Fault

/-- Handlers in the order in which they are registered. -/
structure Registry (F : Flow) where
  handlers : List (Handler F)

namespace Registry

variable {F : Flow}

def empty : Registry F := ⟨[]⟩

def register (registry : Registry F) (handler : Handler F) : Registry F :=
  ⟨registry.handlers ++ [handler]⟩

def size (registry : Registry F) : Nat := registry.handlers.length

def isEmpty (registry : Registry F) : Bool := registry.handlers.isEmpty

end Registry

end TxPipeline
