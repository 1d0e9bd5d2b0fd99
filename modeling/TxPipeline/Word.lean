/-!
# Words, addresses and byte strings

The fixed-width values of the chain, and their lower-case hexadecimal text.
-/

namespace TxPipeline

/-- A 32-byte big-endian word: a transaction hash, a storage key or a storage value. -/
abbrev Word := BitVec 256

abbrev Address := BitVec 160

abbrev Bytes := List UInt8

namespace Word

/-- The word with the big-endian value `n`, modulo `2 ^ 256`. -/
def ofNat (n : Nat) : Word := BitVec.ofNat 256 n

/-- A 64-bit number, written into the low bytes of a word. -/
def ofUInt64 (n : UInt64) : Word := ofNat n.toNat

def low64 (w : Word) : UInt64 := UInt64.ofNat w.toNat

/-- The text of a word: all 64 digits, lower case, after `0x`. -/
def text (w : Word) : String := "0x" ++ BitVec.toHex w

end Word

namespace Bytes

/-- The hexadecimal text of a byte string: two lower-case digits a byte, after `0x`. -/
def text (bytes : Bytes) : String :=
  "0x" ++ String.join (bytes.map fun byte => BitVec.toHex byte.toBitVec)

/-- The big-endian bytes of a number, `width` of them. -/
def ofNat (width n : Nat) : Bytes :=
  (List.range width).map fun i => UInt8.ofNat (n >>> (8 * (width - 1 - i)))

end Bytes

end TxPipeline
