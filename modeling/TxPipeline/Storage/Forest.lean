import TxPipeline.Storage

/-!
# Several stores

Stores that are numbered in the order in which they are made, each empty at first or a copy of an
earlier one.
-/

namespace TxPipeline

/-- Stores by number. -/
structure Forest where
  stores : List Storage

namespace Forest

def create : Forest := ⟨[.empty]⟩

def next (forest : Forest) : Nat := forest.stores.length

/-- A store; empty if there is none with this number. -/
def store (forest : Forest) (s : Nat) : Storage := forest.stores.getD s .empty

def plant (forest : Forest) : Forest := ⟨forest.stores ++ [.empty]⟩

def copy (forest : Forest) (s : Nat) : Forest := ⟨forest.stores ++ [forest.store s]⟩

def set (forest : Forest) (s : Nat) (address : Address) (key value : Word) : Forest :=
  ⟨forest.stores.modify s fun store => store.set address key value⟩

def get (forest : Forest) (s : Nat) (address : Address) (key : Word) : Word :=
  (forest.store s).get address key

def same (forest : Forest) (s t : Nat) : Bool := forest.store s == forest.store t

def numAccounts (forest : Forest) (s : Nat) : Nat := (forest.store s).numAccounts

def counts (forest : Forest) : List Nat := forest.stores.map (·.numAccounts)

end Forest

end TxPipeline
