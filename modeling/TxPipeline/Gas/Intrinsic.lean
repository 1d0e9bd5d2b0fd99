import TxPipeline.Error
import TxPipeline.Gas.Checked

/-!
# Intrinsic gas

The gas a transaction costs before anything of it is executed: a base cost, a price per calldata
byte, a price per word of init code, and a price per item and key of the access list. It is summed
in 64-bit steps, and each step reports an overflow.
-/

namespace TxPipeline.Gas

def txGas : UInt64 := 21000

/-- Base cost of a contract creation, once it has one of its own. -/
def creationGas : UInt64 := 53000

def zeroByteGas : UInt64 := 4

def frontierByteGas : UInt64 := 68

def istanbulByteGas : UInt64 := 16

def accessItemGas : UInt64 := 2400

/-- Price of a storage key in an access list. -/
def accessKeyGas : UInt64 := 1900

/-- Price of a 32-byte word of init code. -/
def initWordGas : UInt64 := 2

/-- Adds the price of `count` units, if product and sum fit. -/
def charge? (gas : UInt64) (count : Nat) (unit : UInt64) : Option UInt64 := do
  let count ← ofCount? count
  let cost ← mul? count unit
  add? gas cost

def baseGas (create : Bool) (rules : Rules) : UInt64 :=
  if create && rules.homestead then creationGas else txGas

/-- The price of a non-zero byte under `rules`. -/
def nonZeroByteGas (rules : Rules) : UInt64 :=
  if rules.istanbul then istanbulByteGas else frontierByteGas

/-- The number of bytes that are not zero. -/
def nonZeroBytes (data : Bytes) : Nat := data.countP (· ≠ 0)

/-- The number of 32-byte words that cover `n` bytes. -/
def wordsOf (n : Nat) : Nat := (n + 31) / 32

/-- The number of storage keys over all items of an access list. -/
def storageKeys (accessList : List AccessItem) : Nat :=
  (accessList.flatMap (·.keys)).length

/-- The intrinsic gas of a transaction, unless it leaves 64 bits. -/
def intrinsic? (data : Bytes) (accessList : List AccessItem) (create : Bool) (rules : Rules) :
    Option UInt64 := do
  let nonZero := nonZeroBytes data
  let gas ← charge? (baseGas create rules) nonZero (nonZeroByteGas rules)
  let gas ← charge? gas (data.length - nonZero) zeroByteGas
  let gas ←
    if create && rules.shanghai then charge? gas (wordsOf data.length) initWordGas else some gas
  let gas ← charge? gas accessList.length accessItemGas
  charge? gas (storageKeys accessList) accessKeyGas

/-- The intrinsic gas of a transaction, or the error that it leaves 64 bits. -/
def intrinsic (data : Bytes) (accessList : List AccessItem) (create : Bool) (rules : Rules) :
    Except Error UInt64 :=
  match intrinsic? data accessList create rules with
  | some gas => .ok gas
  | none => .error .gasOverflow

def intrinsicOf (tx : Transaction) (rules : Rules) : Except Error UInt64 :=
  intrinsic tx.input tx.accessList tx.isCreate rules

end TxPipeline.Gas
