import Mathlib.Data.List.GetD
import TxPipeline.Proofs.Storage.History
import TxPipeline.Storage.Forest

/-!
# Stores and their ancestors

A store that is copied from another begins with the writes of that one. What was written along the
line of its ancestors, to each of them until it was copied, tells all that can be seen of a store,
and nothing that happens elsewhere in the forest matters to it.
-/

namespace TxPipeline.Forest

/-- A change to a forest of stores. -/
inductive Edit where
  | plant
  | copy (s : Nat)
  | set (s : Nat) (w : Write)

namespace Edit

/-- The store that is written to. -/
def target : Edit → Option Nat
  | .set s _ => some s
  | _ => none

def apply (forest : Forest) : Edit → Forest
  | .plant => forest.plant
  | .copy s => forest.copy s
  | .set s w => forest.set s w.address w.key w.value

end Edit

/-- The forest that comes of these edits, the last edit first. -/
def after : List Edit → Forest
  | [] => create
  | edit :: history => edit.apply (after history)

/-- How many stores there are after these edits. -/
def count : List Edit → Nat
  | [] => 1
  | .set _ _ :: history => count history
  | _ :: history => count history + 1

/-- What was written to a store, and to its ancestors before the copies were taken. The edits are
listed the last one first, the writes the first one first. -/
def lineage : List Edit → Nat → List Write
  | [], _ => []
  | .plant :: history, s => lineage history s
  | .copy t :: history, s => lineage history (if s = count history then t else s)
  | .set t w :: history, s =>
      if s = t ∧ s < count history then lineage history s ++ [w] else lineage history s

/-! ## Single edits -/

section Edits

variable {forest : Forest} {s : Nat}

theorem store_of_next_le (h : forest.next ≤ s) : forest.store s = .empty :=
  List.getD_eq_default _ _ h

variable (forest s) (t : Nat) (address : Address) (key value : Word)

theorem store_plant : forest.plant.store s = forest.store s := by
  by_cases h : s < forest.next
  · exact List.getD_append _ _ _ _ h
  · rw [store_of_next_le (not_lt.mp h), store, plant,
      List.getD_append_right _ _ _ _ (not_lt.mp h)]
    rcases s - forest.stores.length with _ | n <;> rfl

theorem store_copy :
    (forest.copy t).store s = forest.store (if s = forest.next then t else s) := by
  by_cases h : s < forest.next
  · rw [if_neg h.ne]
    exact List.getD_append _ _ _ _ h
  · rw [store, copy, List.getD_append_right _ _ _ _ (not_lt.mp h)]
    by_cases heq : s = forest.next
    · rw [if_pos heq, heq, next, Nat.sub_self]
      rfl
    · have hpos : 1 ≤ s - forest.stores.length := by
        rw [next] at h heq
        omega
      rw [if_neg heq, store_of_next_le (not_lt.mp h), List.getD_eq_default _ _ hpos]

theorem store_set :
    (forest.set t address key value).store s =
      if s = t ∧ s < forest.next then (forest.store s).set address key value
      else forest.store s := by
  rw [store, set, List.getD_eq_getElem?_getD, List.getElem?_modify]
  by_cases h : s < forest.next
  · rw [store, List.getD_eq_getElem _ _ h, List.getElem?_eq_getElem h]
    by_cases heq : t = s
    · simp [heq, h]
    · simp [heq, Ne.symm heq]
  · rw [if_neg fun hs => h hs.2, store_of_next_le (not_lt.mp h),
      List.getElem?_eq_none (not_lt.mp h)]
    rfl

theorem next_set : (forest.set t address key value).next = forest.next := List.length_modify _ _ _

/-- A store is left alone unless it is written to itself. -/
theorem store_apply {edit : Edit} (hlt : s < forest.next) (htarget : edit.target ≠ some s) :
    (edit.apply forest).store s = forest.store s := by
  cases edit with
  | plant => exact store_plant forest s
  | copy t => rw [Edit.apply, store_copy, if_neg hlt.ne]
  | set t w =>
      have hne : ¬(s = t ∧ s < forest.next) := fun h => htarget (congrArg some h.1.symm)
      rw [Edit.apply, store_set, if_neg hne]

end Edits

/-! ## Histories -/

variable (history : List Edit)

theorem next_after : (after history).next = count history := by
  induction history with
  | nil => rfl
  | cons edit history ih =>
      cases edit with
      | plant => simp [after, Edit.apply, plant, count, ← ih, next]
      | copy t => simp [after, Edit.apply, copy, count, ← ih, next]
      | set t w => exact (next_set _ t w.address w.key w.value).trans ih

/-- A store is what the writes of its lineage have made of the empty one. -/
theorem store_after (s : Nat) :
    (after history).store s = Storage.empty.writeAll (lineage history s) := by
  induction history generalizing s with
  | nil => rcases s with _ | s <;> rfl
  | cons edit history ih =>
      cases edit with
      | plant => rw [after, Edit.apply, store_plant, ih, lineage]
      | copy t => rw [after, Edit.apply, store_copy, next_after, ih, lineage]
      | set t w =>
          rw [after, Edit.apply, store_set, next_after, ih, lineage]
          split
          · exact (Storage.writeAll_concat _ _ w).symm
          · rfl

theorem get_after (s : Nat) (address : Address) (key : Word) :
    (after history).get s address key =
      (lastWritten (lineage history s) address key).getD 0 := by
  rw [get, store_after, Storage.get, Storage.find?_writeAll]

theorem same_after_iff (s t : Nat) :
    (after history).same s t = true ↔
      writtenSlots (lineage history s) = writtenSlots (lineage history t) ∧
        ∀ slot ∈ writtenSlots (lineage history s),
          lastWritten (lineage history s) slot.1 slot.2 =
            lastWritten (lineage history t) slot.1 slot.2 := by
  rw [same, store_after, store_after, Storage.beq_writeAll_iff]

/-- Stores are told apart by a slot that only one of them has, whatever its value. -/
theorem same_eq_false {s t : Nat} {address : Address} {key : Word}
    (hs : (lastWritten (lineage history s) address key).isSome)
    (ht : lastWritten (lineage history t) address key = none) :
    (after history).same s t = false := by
  rw [Bool.eq_false_iff, Ne, same_after_iff]
  rintro ⟨hslots, -⟩
  rw [isSome_lastWritten_iff, hslots] at hs
  exact lastWritten_eq_none_iff.mp ht hs

theorem get_eq_of_same {s t : Nat} (h : (after history).same s t = true) (address : Address)
    (key : Word) : (after history).get s address key = (after history).get t address key := by
  obtain ⟨hslots, hlast⟩ := (same_after_iff history s t).mp h
  rw [get_after, get_after]
  by_cases hmem : (address, key) ∈ writtenSlots (lineage history s)
  · rw [hlast (address, key) hmem]
  · rw [lastWritten_eq_none_iff.mpr hmem, lastWritten_eq_none_iff.mpr (hslots ▸ hmem)]

/-- The lineage of a store tells what is read from it, how many accounts it has and which stores it
equals. A written zero is read like a slot that was never written, but it makes a difference to
equality. What is done to one store leaves every other as it is. -/
theorem stores_follow_lineage :
    (∀ s address key, (after history).get s address key =
      (lastWritten (lineage history s) address key).getD 0) ∧
    (∀ s, (after history).numAccounts s = (writtenAccounts (lineage history s)).card) ∧
    (∀ s t, (after history).same s t = true ↔
      writtenSlots (lineage history s) = writtenSlots (lineage history t) ∧
        ∀ slot ∈ writtenSlots (lineage history s),
          lastWritten (lineage history s) slot.1 slot.2 =
            lastWritten (lineage history t) slot.1 slot.2) ∧
    (∀ s t, (after history).same s t = true → ∀ address key,
      (after history).get s address key = (after history).get t address key) ∧
    (∀ s t address key, lastWritten (lineage history s) address key = some 0 →
      lastWritten (lineage history t) address key = none →
        (after history).get s address key = (after history).get t address key ∧
          (after history).same s t = false) ∧
    ∀ edit t, t < (after history).next → edit.target ≠ some t →
      (∀ address key, (after (edit :: history)).get t address key =
        (after history).get t address key) ∧
      (after (edit :: history)).numAccounts t = (after history).numAccounts t := by
  refine ⟨get_after history, ?_, same_after_iff history, ?_, ?_, ?_⟩
  · intro s
    rw [numAccounts, store_after, Storage.numAccounts_writeAll]
  · intro s t h
    exact get_eq_of_same history h
  · intro s t address key hs ht
    constructor
    · rw [get_after, get_after, hs, ht]
      rfl
    · apply same_eq_false history _ ht
      rw [hs]
      rfl
  · intro edit t hlt htarget
    have hstore : (after (edit :: history)).store t = (after history).store t :=
      store_apply (after history) t hlt htarget
    constructor
    · intro address key
      rw [get, get, hstore]
    · rw [numAccounts, numAccounts, hstore]

/-- A zero that is written after a copy was taken: the copy reads the same and is another store. -/
theorem stores_follow_lineage_zero :
    (after [.set 0 ⟨7, 1, 0⟩, .copy 0, .set 0 ⟨5, 2, 9⟩]).get 1 5 2 = 9 ∧
      (after [.set 0 ⟨7, 1, 0⟩, .copy 0, .set 0 ⟨5, 2, 9⟩]).get 0 7 1 =
        (after [.set 0 ⟨7, 1, 0⟩, .copy 0, .set 0 ⟨5, 2, 9⟩]).get 1 7 1 ∧
      (after [.set 0 ⟨7, 1, 0⟩, .copy 0, .set 0 ⟨5, 2, 9⟩]).same 0 1 = false ∧
      (after [.set 0 ⟨7, 1, 0⟩, .copy 0, .set 0 ⟨5, 2, 9⟩]).numAccounts 0 = 2 := by
  obtain ⟨hget, haccounts, -, -, hzero, -⟩ :=
    stores_follow_lineage [.set 0 ⟨7, 1, 0⟩, .copy 0, .set 0 ⟨5, 2, 9⟩]
  obtain ⟨hreads, hsame⟩ := hzero 0 1 7 1 (by decide) (by decide)
  refine ⟨?_, hreads, hsame, ?_⟩
  · rw [hget]
    decide
  · rw [haccounts]
    decide

end TxPipeline.Forest
