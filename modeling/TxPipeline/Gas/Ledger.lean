import Std.Data.TreeMap
import TxPipeline.Error

/-!
# The gas ledger

What is reserved for each transaction of the block, by hash. Execution asks it through `charge`
and is told which hashes are not part of the block.
-/

namespace TxPipeline.Gas

/-- Reserved gas by transaction hash. -/
structure Ledger where
  entries : Std.TreeMap Word UInt64

namespace Ledger

def empty : Ledger := ⟨∅⟩

def find? (ledger : Ledger) (hash : Word) : Option UInt64 := ledger.entries[hash]?

def record (ledger : Ledger) (hash : Word) (total : UInt64) : Ledger :=
  ⟨ledger.entries.insert hash total⟩

/-- Makes a hash known before its total is. -/
def reserve (ledger : Ledger) (hash : Word) : Ledger := ledger.record hash 0

def clear (ledger : Ledger) (hashes : List Word) : Ledger :=
  ⟨hashes.foldl (fun entries hash => entries.erase hash) ledger.entries⟩

def size (ledger : Ledger) : Nat := ledger.entries.size

def isEmpty (ledger : Ledger) : Bool := ledger.entries.isEmpty

/-- The gas to charge for a transaction, or the error that it is not part of the block. -/
def charge (ledger : Ledger) (hash : Word) : Except Error UInt64 :=
  match ledger.find? hash with
  | some total => .ok total
  | none => .error (.unknownTransaction hash)

theorem find?_record (ledger : Ledger) (hash other : Word) (total : UInt64) :
    (ledger.record hash total).find? other =
      if hash = other then some total else ledger.find? other := by
  simp only [find?, record, Std.TreeMap.getElem?_insert, Std.compare_eq_iff_eq]

theorem find?_clear (ledger : Ledger) (hashes : List Word) (other : Word) :
    (ledger.clear hashes).find? other = if other ∈ hashes then none else ledger.find? other := by
  induction hashes generalizing ledger with
  | nil => simp [clear, find?]
  | cons hash rest ih =>
    have step : (ledger.clear (hash :: rest)).find? other =
        (Ledger.clear ⟨ledger.entries.erase hash⟩ rest).find? other := rfl
    rw [step, ih]
    simp only [find?, Std.TreeMap.getElem?_erase, Std.compare_eq_iff_eq, List.mem_cons]
    by_cases h : hash = other
    · simp [h]
    · simp [h, Ne.symm h]

theorem charge_eq_ok_iff (ledger : Ledger) (hash : Word) (total : UInt64) :
    ledger.charge hash = .ok total ↔ ledger.find? hash = some total := by
  unfold charge
  split <;> simp_all

end Ledger

end TxPipeline.Gas
