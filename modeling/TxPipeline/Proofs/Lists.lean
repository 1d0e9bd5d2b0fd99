import Mathlib.Algebra.BigOperators.Group.List.Basic
import Mathlib.Tactic.Abel

/-!
# Lists with one element changed

A sum over a list changes with one of its elements by as much as that element does.
-/

namespace TxPipeline

theorem sum_set {M : Type} [AddCommMonoid M] {l : List M} {i : Nat} {a : M} (h : l[i]? = some a)
    (b : M) : (l.set i b).sum + a = l.sum + b := by
  induction l generalizing i with
  | nil => simp at h
  | cons x xs ih =>
      cases i with
      | zero =>
          obtain rfl : x = a := by simpa using h
          simp only [List.set_cons_zero, List.sum_cons]
          abel
      | succ i =>
          have hrest := ih (by simpa using h)
          simp only [List.set_cons_succ, List.sum_cons, add_assoc, hrest]

theorem sum_map_set {α M : Type} [AddCommMonoid M] (f : α → M) {l : List α} {i : Nat} {a : α}
    (h : l[i]? = some a) (b : α) : ((l.set i b).map f).sum + f a = (l.map f).sum + f b := by
  rw [List.map_set]
  exact sum_set (by rw [List.getElem?_map, h, Option.map_some]) _

theorem map_set_of_eq {α β : Type} {f : α → β} {l : List α} {i : Nat} {a b : α}
    (h : l[i]? = some a) (hb : f b = f a) : (l.set i b).map f = l.map f := by
  obtain ⟨hlt, rfl⟩ := List.getElem?_eq_some_iff.mp h
  have hself : (l.map f).set i (f l[i]) = l.map f := by
    rw [← List.map_set, List.set_getElem_self]
  rw [List.map_set, hb, hself]

theorem modify_eq_set {α : Type} {l : List α} {i : Nat} {a : α} (h : l[i]? = some a) (f : α → α) :
    l.modify i f = l.set i (f a) := by
  rw [List.modify_eq_set_getElem?, h]
  rfl

end TxPipeline
