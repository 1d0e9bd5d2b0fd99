/-!
# Generations of store copies

Workers never share a store. For each block the distributor publishes a generation: a source copy
of the store and a fresh signal. It then releases the previous signal by dropping the sending end of
it; everyone who waits on a released signal copies the source, adopts the published signal and
reports. The distributor counts the reports, as many as there are workers, and then withdraws the
source.

Signals are numbered in the order in which they are made. The distributor drops their sending ends
in the same order, so the released ones are exactly those below `armed`.
-/

namespace TxPipeline.Snapshot

/-- The shared half of the distribution of stores of type `S`. -/
structure Distributor (S : Type) where
  /-- How many reports complete a generation; no more than this many can be pending. -/
  workers : Nat
  source : Option S
  signal : Nat
  armed : Nat
  /-- Reports that were made and not counted yet. -/
  reports : Nat

namespace Distributor

variable {S : Type}

/-- A distributor for `workers` workers that has published nothing. -/
def create (workers : Nat) : Distributor S := ⟨workers, none, 0, 0, 0⟩

/-- Whether those who hold `signal` have been told that there is something to take. -/
def released (d : Distributor S) (signal : Nat) : Bool := decide (signal < d.armed)

/-- Offers a copy of `store` together with a fresh signal. -/
def publish (d : Distributor S) (store : S) : Distributor S :=
  { d with source := some store, signal := d.signal + 1 }

def release (d : Distributor S) : Distributor S := { d with armed := d.signal }

def collect? (d : Distributor S) : Option (Distributor S) :=
  match d.reports with
  | 0 => none
  | n + 1 => some { d with reports := n }

def withdraw (d : Distributor S) : Distributor S := { d with source := none }

/-- Makes a report, if there is room for one. -/
def report? (d : Distributor S) : Option (Distributor S) :=
  if d.reports < d.workers then some { d with reports := d.reports + 1 } else none

end Distributor

end TxPipeline.Snapshot
