import Mathlib.Data.Finset.Card
import Mathlib.Data.List.Induction
import TxPipeline.Storage

/-!
# Stores and what was written to them

A store is what its writes have made of the empty one. All that can be seen of it follows from the
last write to each slot, even the number of accounts and whether it equals another store. These two
look at how entries are kept, and rest on one fact: an account has an entry only if one of its slots
has one.
-/

namespace TxPipeline

/-- A write to a store. -/
structure Write where
  address : Address
  key : Word
  value : Word

/-! ## Writes -/

/-- The value that was written to a slot last, if any was. -/
def lastWritten (writes : List Write) (address : Address) (key : Word) : Option Word :=
  (writes.reverse.find? fun w => w.address = address ∧ w.key = key).map (·.value)

/-- The slots with a write to them. -/
def writtenSlots (writes : List Write) : Finset (Address × Word) :=
  (writes.map fun w => (w.address, w.key)).toFinset

/-- The accounts with a write to one of their slots. -/
def writtenAccounts (writes : List Write) : Finset Address := (writes.map (·.address)).toFinset

section Writes

variable {writes : List Write} {address : Address} {key : Word}

@[simp] theorem lastWritten_nil (address : Address) (key : Word) :
    lastWritten [] address key = none := rfl

theorem lastWritten_concat (writes : List Write) (w : Write) (address : Address) (key : Word) :
    lastWritten (writes ++ [w]) address key =
      if w.address = address ∧ w.key = key then some w.value
      else lastWritten writes address key := by
  by_cases h : w.address = address ∧ w.key = key <;> simp [lastWritten, h]

theorem mem_writtenSlots :
    (address, key) ∈ writtenSlots writes ↔ ∃ w ∈ writes, w.address = address ∧ w.key = key := by
  simp [writtenSlots]

theorem isSome_lastWritten_iff :
    (lastWritten writes address key).isSome ↔ (address, key) ∈ writtenSlots writes := by
  simp [lastWritten, mem_writtenSlots]

theorem lastWritten_eq_none_iff :
    lastWritten writes address key = none ↔ (address, key) ∉ writtenSlots writes := by
  rw [← isSome_lastWritten_iff, Option.not_isSome_iff_eq_none]

/-- An account was written to if one of its slots was. -/
theorem mem_writtenAccounts :
    address ∈ writtenAccounts writes ↔ ∃ key, (address, key) ∈ writtenSlots writes := by
  simp [writtenAccounts, writtenSlots]

end Writes

namespace Storage

def writeAll (store : Storage) (writes : List Write) : Storage :=
  writes.foldl (fun store w => store.set w.address w.key w.value) store

@[simp] theorem writeAll_nil (store : Storage) : store.writeAll [] = store := rfl

theorem writeAll_append (store : Storage) (writes writes' : List Write) :
    store.writeAll (writes ++ writes') = (store.writeAll writes).writeAll writes' :=
  List.foldl_append

theorem writeAll_concat (store : Storage) (writes : List Write) (w : Write) :
    store.writeAll (writes ++ [w]) = (store.writeAll writes).set w.address w.key w.value :=
  writeAll_append store writes [w]

variable {store other : Storage} {address : Address} {key value : Word} {writes : List Write}

/-! ## No account is empty -/

/-- Every account that has an entry has a slot that has one. -/
def Populated (store : Storage) : Prop :=
  ∀ (address : Address) (slots : Std.TreeMap Word Word), store.accounts[address]? = some slots →
    ∃ key : Word, (slots[key]?).isSome

theorem populated_empty : Populated empty := by
  intro address slots h
  simp [empty] at h

theorem Populated.set (h : store.Populated) (address : Address) (key value : Word) :
    (store.set address key value).Populated := by
  intro other slots hslots
  rw [Storage.set, Std.TreeMap.getElem?_insert] at hslots
  split at hslots
  · obtain rfl := Option.some.inj hslots
    exact ⟨key, by simp⟩
  · exact h other slots hslots

theorem populated_writeAll (h : store.Populated) (writes : List Write) :
    (store.writeAll writes).Populated := by
  induction writes generalizing store with
  | nil => exact h
  | cons w writes ih => exact ih (h.set w.address w.key w.value)

theorem Populated.mem_accounts_iff (h : store.Populated) :
    address ∈ store.accounts ↔ ∃ key, (store.find? address key).isSome := by
  rw [Std.TreeMap.mem_iff_isSome_getElem?]
  constructor
  · intro hmem
    obtain ⟨slots, hslots⟩ := Option.isSome_iff_exists.mp hmem
    obtain ⟨key, hkey⟩ := h address slots hslots
    exact ⟨key, by rwa [find?, hslots]⟩
  · rintro ⟨key, hkey⟩
    obtain ⟨value, hvalue⟩ := Option.isSome_iff_exists.mp hkey
    obtain ⟨slots, hslots, -⟩ := Option.bind_eq_some_iff.mp hvalue
    rw [hslots]
    rfl

/-! ## Comparison -/

/-- The entries of one account. -/
def slotEntries (store : Storage) (address : Address) : Option (List (Word × Word)) :=
  (store.accounts[address]?).map (·.toList)

/-- Stores are equal if they have the same entries account by account. -/
theorem beq_iff_slotEntries :
    (store == other) = true ↔ ∀ address, store.slotEntries address = other.slotEntries address := by
  have hentries (s : Storage) :
      s.entries = (s.accounts.map fun _ slots => slots.toList).toList := by
    rw [Std.TreeMap.toList_map, entries]
  have hget (s : Storage) (address : Address) :
      (s.accounts.map fun _ slots => slots.toList)[address]? = s.slotEntries address :=
    Std.TreeMap.getElem?_map
  change (store.entries == other.entries) = true ↔ _
  rw [beq_iff_eq, hentries, hentries, ← Std.TreeMap.equiv_iff_toList_eq]
  constructor
  · intro h address
    rw [← hget, ← hget, h.getElem?_eq]
  · intro h
    apply Std.TreeMap.Equiv.of_forall_constGet?_eq
    intro address
    rw [hget, hget, h]

theorem find?_eq_of_slotEntries (h : store.slotEntries address = other.slotEntries address)
    (key : Word) : store.find? address key = other.find? address key := by
  unfold slotEntries at h
  unfold find?
  cases hs : store.accounts[address]? with
  | none =>
      rw [hs, Option.map_none, eq_comm, Option.map_eq_none_iff] at h
      rw [h]
  | some slots =>
      rw [hs, Option.map_some, eq_comm, Option.map_eq_some_iff] at h
      obtain ⟨slots', hs', heq⟩ := h
      rw [hs']
      exact (Std.TreeMap.equiv_iff_toList_eq.mpr heq.symm).getElem?_eq

/-- Without empty accounts, the entries of an account are known from its slots. -/
theorem slotEntries_eq_of_find? (hstore : store.Populated) (hother : other.Populated)
    (h : ∀ key, store.find? address key = other.find? address key) :
    store.slotEntries address = other.slotEntries address := by
  have hmem : address ∈ store.accounts ↔ address ∈ other.accounts := by
    rw [hstore.mem_accounts_iff, hother.mem_accounts_iff]
    simp only [h]
  simp only [Std.TreeMap.mem_iff_isSome_getElem?] at hmem
  unfold slotEntries
  unfold find? at h
  cases hs : store.accounts[address]? with
  | none =>
      rw [hs, Option.isSome_none] at hmem
      have hnone := Option.not_isSome_iff_eq_none.mp (mt hmem.mpr (by simp))
      rw [hnone]
  | some slots =>
      rw [hs, Option.isSome_some] at hmem
      obtain ⟨slots', hs'⟩ := Option.isSome_iff_exists.mp (hmem.mp rfl)
      simp only [hs, hs', Option.bind_some] at h
      rw [hs', Option.map_some, Option.map_some]
      exact congrArg some
        (Std.TreeMap.equiv_iff_toList_eq.mp (Std.TreeMap.Equiv.of_forall_constGet?_eq h))

/-- Without empty accounts, stores are equal if they have the same entries slot by slot. -/
theorem Populated.beq_iff (hstore : store.Populated) (hother : other.Populated) :
    (store == other) = true ↔ ∀ address key, store.find? address key = other.find? address key := by
  rw [beq_iff_slotEntries]
  constructor
  · intro h address key
    exact find?_eq_of_slotEntries (h address) key
  · intro h address
    exact slotEntries_eq_of_find? hstore hother (h address)

/-! ## What is left of a history of writes -/

/-- A slot has the value that was written to it last. -/
theorem find?_writeAll (writes : List Write) (address : Address) (key : Word) :
    (empty.writeAll writes).find? address key = lastWritten writes address key := by
  induction writes using List.reverseRecOn with
  | nil => simp [find?, empty]
  | append_singleton writes w ih => rw [writeAll_concat, find?_set, lastWritten_concat, ih]

theorem mem_accounts_writeAll :
    address ∈ (empty.writeAll writes).accounts ↔ address ∈ writtenAccounts writes := by
  rw [(populated_writeAll populated_empty writes).mem_accounts_iff, mem_writtenAccounts]
  simp only [find?_writeAll, isSome_lastWritten_iff]

theorem numAccounts_writeAll (writes : List Write) :
    (empty.writeAll writes).numAccounts = (writtenAccounts writes).card := by
  have hkeys : (empty.writeAll writes).accounts.keys.toFinset = writtenAccounts writes := by
    ext address
    rw [List.mem_toFinset, Std.TreeMap.mem_keys, mem_accounts_writeAll]
  rw [← hkeys, List.toFinset_card_of_nodup Std.TreeMap.nodup_keys, Std.TreeMap.length_keys]
  rfl

/-- Two histories come to equal stores if they have written to the same slots, and the same values
last. -/
theorem beq_writeAll_iff (writes writes' : List Write) :
    (empty.writeAll writes == empty.writeAll writes') = true ↔
      writtenSlots writes = writtenSlots writes' ∧ ∀ slot ∈ writtenSlots writes,
        lastWritten writes slot.1 slot.2 = lastWritten writes' slot.1 slot.2 := by
  rw [(populated_writeAll populated_empty writes).beq_iff (populated_writeAll populated_empty _)]
  simp only [find?_writeAll]
  constructor
  · intro h
    constructor
    · ext ⟨address, key⟩
      rw [← isSome_lastWritten_iff, ← isSome_lastWritten_iff, h]
    · exact fun slot _ => h slot.1 slot.2
  · rintro ⟨hslots, hlast⟩ address key
    by_cases hmem : (address, key) ∈ writtenSlots writes
    · exact hlast (address, key) hmem
    · rw [lastWritten_eq_none_iff.mpr hmem, lastWritten_eq_none_iff.mpr (hslots ▸ hmem)]

end Storage

end TxPipeline
