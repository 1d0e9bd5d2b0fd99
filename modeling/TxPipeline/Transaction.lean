import TxPipeline.Word

/-!
# Transactions and protocol rules

What a pipeline sees of a transaction, its place in a block, and the protocol flags that decide
its intrinsic gas.
-/

namespace TxPipeline

/-- One item of an access list: an account and the storage keys declared under it. -/
structure AccessItem where
  address : Address
  keys : List Word
deriving DecidableEq, Inhabited

/-- A transaction. Its `hash` is the identity under which gas is reserved; a transaction without a
recipient creates a contract. -/
structure Transaction where
  hash : Word
  recipient : Option Address
  gasLimit : UInt64
  input : Bytes
  accessList : List AccessItem
deriving DecidableEq, Inhabited

def Transaction.isCreate (tx : Transaction) : Bool := tx.recipient.isNone

/-- A transaction together with its position in the block. -/
structure IndexedTx where
  index : Nat
  tx : Transaction
deriving DecidableEq, Inhabited

namespace IndexedTx

/-- The hash of the transaction, whatever its position. -/
def hash (tx : IndexedTx) : Word := tx.tx.hash

/-- Position and hash, in the form used in messages. -/
def text (tx : IndexedTx) : String :=
  "(txn=" ++ toString tx.index ++ ", hash=" ++ tx.hash.text ++ ")"

end IndexedTx

/-- The protocol changes that intrinsic gas depends on. -/
structure Rules where
  /-- A contract creation has a base cost of its own. -/
  homestead : Bool
  istanbul : Bool
  shanghai : Bool
deriving DecidableEq, Inhabited

namespace Rules

def latest : Rules := ⟨true, true, true⟩

def frontier : Rules := ⟨false, false, false⟩

def covers (rules needed : Rules) : Bool :=
  (rules.homestead || !needed.homestead) && (rules.istanbul || !needed.istanbul) &&
    (rules.shanghai || !needed.shanghai)

end Rules

/-- The two stages that run on worker pools. -/
inductive Stage
  | prefetch
  | process
deriving DecidableEq, Inhabited

def Stage.name : Stage → String
  | .prefetch => "prefetch"
  | .process => "process"

end TxPipeline
