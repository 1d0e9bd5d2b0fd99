import TxPipeline.Handler
import TxPipeline.Storage

/-!
# Scripted handlers

Handlers that are described by data: which transactions they want, what they read, what they answer
and how they consume their results. With them a pipeline can be tried out without writing a
handler.
-/

namespace TxPipeline.Script

/-- Which transactions a script wants, once the rules it needs are active. -/
inductive Choice
  | all
  | none
  | everyNth (modulus remainder : Nat)
  /-- Those whose first byte of calldata is there and is not zero. -/
  | flagged
  | recipient (address : Address)
  | creations
  /-- Those for which a cost is listed, at that cost. -/
  | listed (costs : List (Option UInt64))
  /-- Those with calldata, at a cost per byte. -/
  | perByte

/-- What a script answers for a transaction. -/
inductive OutputKind
  | index
  /-- A number made of what was prefetched and of the block number. -/
  | sum
  /-- The extra bytes of the header and the position. -/
  | echo
  | input
  | full

/-- How a script consumes its results. -/
inductive Drain
  /-- First in the order of transactions, then in the order of completion. -/
  | both
  | byIndex
  | byCompletion
  /-- Only the first in the order of transactions. -/
  | first
  | nothing
deriving DecidableEq

/-- Where a script raises a fault of its own. -/
inductive Point
  | gas
  | beforeBlock
  | prefetch
  | process
  | postProcess
  | afterBlock
deriving DecidableEq

/-- A fault that a script raises, at a transaction or at a block. -/
structure Trap where
  point : Point
  /-- The position of the transaction, or the block number. -/
  position : Nat
  message : String

end Script

/-- The description of a handler. -/
structure Script where
  name : String
  choice : Script.Choice
  cost : UInt64
  /-- The rules without which every transaction is declined. -/
  needs : Rules
  read : Address
  output : Script.OutputKind
  drain : Script.Drain
  /-- Whether results in the order of completion are reported by position instead. -/
  sorted : Bool
  write : Option (Address × Word)
  /-- Whether the aggregate is left out of the journal. -/
  quiet : Bool
  traps : List Script.Trap

namespace Script

/-- What a script makes before a block. -/
structure Common where
  number : UInt64
  extra : Bytes
  length : Nat
  /-- The first slot of the account that is read. -/
  slot : Word
  rules : Rules

/-- An answer for one transaction. -/
inductive Value
  | number (n : UInt64)
  | bytes (bytes : Bytes)
  | full (tx : IndexedTx) (common : Common) (prefetched seen : Word)

abbrev Item := Nat × Option Value

/-- What a script has seen of its results; a field is there if the script looks at it. -/
structure Summary where
  ordered : Option (List Item)
  /-- How many results were left on the two streams when the ordered one had been read. -/
  backlog : Option (Nat × Nat)
  first : Option (Option Item)
  completed : Option (List Item)

/-- What a script writes down after a block. -/
structure Entry where
  handler : String
  number : UInt64
  length : Nat
  receipts : List Receipt
  processed : Nat
  summary : Option Summary

/-- The store of a script: accounts, and a journal of everything written down. -/
structure World where
  storage : Storage
  journal : List Entry

/-- What flows between the stages of a script. -/
def flow : Flow := ⟨World, Common, Word, Value, Summary⟩

end Script

end TxPipeline
