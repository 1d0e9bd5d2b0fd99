import TxPipeline.Transaction

/-!
# Blocks, results and receipts

A block numbers its transactions from zero. A `TxResult` is what one handler has to say about one
transaction: its output, or nothing if the transaction was declined.
-/

namespace TxPipeline

/-- The part of a block header that handlers see. -/
structure Header where
  number : UInt64
  extra : Bytes
deriving DecidableEq, Inhabited

/-- A block: a header and the transactions in execution order. -/
structure Block where
  header : Header
  transactions : List Transaction
deriving DecidableEq, Inhabited

namespace Block

def empty : Block := ⟨⟨0, []⟩, []⟩

def number (block : Block) : UInt64 := block.header.number

def length (block : Block) : Nat := block.transactions.length

def isEmpty (block : Block) : Bool := block.transactions.isEmpty

def hashes (block : Block) : List Word := block.transactions.map (·.hash)

/-- Every transaction with its position; positions are 32-bit and wrap. -/
def indexed (block : Block) : List IndexedTx :=
  block.transactions.zipIdx.map fun (tx, index) => ⟨index % UInt32.size, tx⟩

end Block

/-- What one handler has to say about one transaction. -/
structure TxResult (α : Type) where
  tx : IndexedTx
  /-- Nothing, if the handler declined the transaction or could not be paid for it. -/
  output : Option α
deriving DecidableEq

namespace TxResult

variable {α : Type}

/-- The result of a transaction that is not worked on. -/
def declined (tx : IndexedTx) : TxResult α := ⟨tx, none⟩

def index (r : TxResult α) : Nat := r.tx.index

def isDeclined (r : TxResult α) : Bool := r.output.isNone

end TxResult

/-- What execution says about a transaction afterwards. -/
structure Receipt where
  txHash : Word
  success : Bool
  gasUsed : UInt64
deriving DecidableEq, Inhabited

end TxPipeline
