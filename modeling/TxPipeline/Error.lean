import TxPipeline.Transaction

/-!
# Errors and faults

An `Error` is an answer: the call refused its input. A `Fault` is a broken expectation that unwinds
the thread it happens in; a handler stage can raise one of its own. `Failure` is the union, for
calls that can end either way.
-/

namespace TxPipeline

/-- Why a call refuses its input. -/
inductive Error
  /-- Intrinsic gas does not fit in 64 bits. -/
  | gasOverflow
  /-- A transaction cannot pay for itself although it should have been checked before. -/
  | intrinsicGasExceedsLimit (hash : Word) (intrinsic limit : UInt64)
  /-- No gas is reserved under this hash, not even zero. -/
  | unknownTransaction (hash : Word)
  /-- The block with this number has not been finished yet. -/
  | blockInProgress (number : UInt64)
  | closed
  | invalidConfig (reason : String)
  | spawn (reason : String)
deriving DecidableEq, Inhabited

def Error.message : Error → String
  | .gasOverflow => "gas uint64 overflow"
  | .intrinsicGasExceedsLimit hash intrinsic limit =>
      "transaction " ++ hash.text ++ ": intrinsic gas " ++ toString intrinsic ++
        " exceeds gas limit " ++ toString limit
  | .unknownTransaction hash =>
      "transaction " ++ hash.text ++ " unknown to preprocessing gas ledger"
  | .blockInProgress number => "block " ++ toString number ++ " is still being preprocessed"
  | .closed => "processor is closed"
  | .invalidConfig reason => "invalid processor config: " ++ reason
  | .spawn reason => "failed to spawn preprocessing thread: " ++ reason

/-- What unwinds a thread. -/
inductive Fault
  | raised (message : String)
  /-- A value was written to a cell that holds one. -/
  | alreadySet
  /-- A result was asked for or announced beyond the block that is open. -/
  | outsideBlock (index length : Nat)
  | outOfBounds (index length : Nat)
  /-- The completion stream of a handler is not there to be claimed. -/
  | streamMissing (handler : String)
  /-- A job reached a worker that holds no copy of the store. -/
  | beforeSnapshot (stage : Stage) (index : Nat)
  /-- A block was finished under another number than it was started with. -/
  | blockMismatch (started given : UInt64)
deriving DecidableEq, Inhabited

def Fault.message : Fault → String
  | .raised message => message
  | .alreadySet => "Eventual::set on a cell that is already set"
  | .outsideBlock index length =>
      "result requested for transaction " ++ toString index ++ " outside the started block of " ++
        toString length ++ " transactions"
  | .outOfBounds index length =>
      "index out of bounds: the len is " ++ toString length ++ " but the index is " ++
        toString index
  | .streamMissing handler => "post_process for handler " ++ handler ++ " without begin_block"
  | .beforeSnapshot stage index =>
      stage.name ++ " job for transaction " ++ toString index ++ " before any state snapshot"
  | .blockMismatch started given =>
      "assertion `left == right` failed: finish_block for a different block than started\n" ++
        "  left: " ++ toString started ++ "\n right: " ++ toString given

/-- The two ways in which a call can end without an answer. -/
inductive Failure
  | error (error : Error)
  | fault (fault : Fault)
deriving DecidableEq, Inhabited

end TxPipeline
