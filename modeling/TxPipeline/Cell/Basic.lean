/-!
# Write-once cells

A cell holds at most one value. It is written once, read any number of times, and can be emptied
for the next round. Readers that find it empty wait on its latch: the cell keeps the sending end of
that latch until a value is written, and dropping it wakes everybody who waits. Emptying a full cell
arms a fresh latch.

Latches are numbered; a cell keeps the sending end of at most one of them, so every other one is
released.
-/

namespace TxPipeline

/-- A cell for values of type `α`. -/
structure Cell (α : Type) where
  value : Option α
  /-- The latch whose sending end the cell still keeps. -/
  release : Option Nat
  /-- The latch on which readers of the empty cell wait. -/
  latch : Nat

namespace Cell

variable {α : Type}

/-- An empty cell that waits on latch `latch`. -/
def armed (latch : Nat) : Cell α := ⟨none, some latch, latch⟩

def empty : Cell α := armed 0

instance : Inhabited (Cell α) := ⟨empty⟩

def isSet (cell : Cell α) : Bool := cell.value.isSome

/-- Writes the value and wakes all readers; fails if there is a value already. -/
def set? (cell : Cell α) (a : α) : Option (Cell α) :=
  match cell.value with
  | none => some ⟨some a, none, cell.latch⟩
  | some _ => none

/-- The cell after its value was removed: empty again under a fresh latch. An empty cell stays as it
is. -/
def reset (cell : Cell α) : Cell α :=
  match cell.value with
  | none => cell
  | some _ => armed (cell.latch + 1)

def take? (cell : Cell α) : Option (α × Cell α) :=
  match cell.value with
  | none => none
  | some a => some (a, cell.reset)

/-- Whether those who wait on `latch` have been woken. -/
def released (cell : Cell α) (latch : Nat) : Bool := cell.release != some latch

theorem set?_eq_none_iff {cell : Cell α} {a : α} : cell.set? a = none ↔ cell.isSet := by
  unfold set? isSet
  split <;> simp_all

theorem value_of_set? {cell cell' : Cell α} {a : α} (h : cell.set? a = some cell') :
    cell.value = none ∧ cell'.value = some a := by
  unfold set? at h
  split at h
  · cases h
    exact ⟨‹_›, rfl⟩
  · cases h

@[simp] theorem value_reset (cell : Cell α) : cell.reset.value = none := by
  unfold reset
  split
  · assumption
  · rfl

end Cell

end TxPipeline
