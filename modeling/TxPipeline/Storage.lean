import Std.Data.TreeMap
import TxPipeline.Word

/-!
# Account storage in memory

A map from accounts to their slots. A slot that was never written reads as zero, but a written zero
still is an entry: it makes its account known and takes part in comparison. A copy of a store is the
store itself, since a write yields a new value and leaves the old one alone.
-/

namespace TxPipeline

/-- Storage slots by account. -/
structure Storage where
  accounts : Std.TreeMap Address (Std.TreeMap Word Word)

namespace Storage

def empty : Storage := ⟨∅⟩

instance : Inhabited Storage := ⟨empty⟩

/-- The entry of a slot, if there is one. -/
def find? (store : Storage) (address : Address) (key : Word) : Option Word :=
  (store.accounts[address]?).bind fun slots => slots[key]?

/-- The value of a slot, zero if it was never written. -/
def get (store : Storage) (address : Address) (key : Word) : Word :=
  (store.find? address key).getD 0

def set (store : Storage) (address : Address) (key value : Word) : Storage :=
  ⟨store.accounts.insert address ((store.accounts.getD address ∅).insert key value)⟩

/-- The number of accounts with a written slot. -/
def numAccounts (store : Storage) : Nat := store.accounts.size

/-- All entries, accounts and keys in ascending order. -/
def entries (store : Storage) : List (Address × List (Word × Word)) :=
  store.accounts.toList.map fun (address, slots) => (address, slots.toList)

/-- Two stores are equal when they have the same entries. -/
instance : BEq Storage := ⟨fun a b => a.entries == b.entries⟩

theorem find?_set (store : Storage) (address other : Address) (key key' value : Word) :
    (store.set address key value).find? other key' =
      if address = other ∧ key = key' then some value else store.find? other key' := by
  simp only [find?, set, Std.TreeMap.getElem?_insert, Std.compare_eq_iff_eq]
  by_cases h : address = other
  · subst h
    by_cases hk : key = key'
    · simp [hk]
    · simp only [if_true, Option.bind_some, Std.TreeMap.getElem?_insert, Std.compare_eq_iff_eq, hk,
        if_false, and_false, Std.TreeMap.getD_eq_getD_getElem?]
      cases store.accounts[address]? <;> simp
  · simp [h]

end Storage

end TxPipeline
