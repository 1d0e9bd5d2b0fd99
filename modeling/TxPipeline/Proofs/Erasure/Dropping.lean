import TxPipeline.Proofs.History

/-!
# Runs without some of their calls

Calls are numbered in the order in which they are made. When some of them are left out of a run, the
others keep their order and move up, and everything that happened to those that are left out is left
out as well.
-/

namespace TxPipeline

/-! ## Lists without some of their elements -/

section Lists

variable {α : Type} {dropped : Nat → Bool}

/-- A list without the elements at the places that are dropped. -/
def keep (dropped : Nat → Bool) : List α → List α
  | [] => []
  | a :: rest =>
      if dropped 0 then keep (fun i => dropped (i + 1)) rest
      else a :: keep (fun i => dropped (i + 1)) rest

/-- The place to which an element moves up when those before it are dropped. -/
def rank (dropped : Nat → Bool) : Nat → Nat
  | 0 => 0
  | i + 1 => (if dropped 0 then 0 else 1) + rank (fun i => dropped (i + 1)) i

theorem exists_of_mem_keep {l : List α} {a : α} (h : a ∈ keep dropped l) :
    ∃ i, l[i]? = some a ∧ dropped i = false := by
  induction l generalizing dropped with
  | nil => cases h
  | cons b rest ih =>
      rw [keep] at h
      split at h
      · obtain ⟨i, hi, hkept⟩ := ih h
        exact ⟨i + 1, hi, hkept⟩
      · rename_i hkept
        rcases List.mem_cons.mp h with rfl | h
        · exact ⟨0, rfl, by simpa using hkept⟩
        · obtain ⟨i, hi, hkept⟩ := ih h
          exact ⟨i + 1, hi, hkept⟩

theorem mem_of_mem_keep {l : List α} {a : α} (h : a ∈ keep dropped l) : a ∈ l := by
  obtain ⟨i, hi, -⟩ := exists_of_mem_keep h
  exact List.mem_of_getElem? hi

theorem getElem?_keep {l : List α} {i : Nat} {a : α} (h : l[i]? = some a)
    (hkept : dropped i = false) : (keep dropped l)[rank dropped i]? = some a := by
  induction l generalizing dropped i with
  | nil => cases h
  | cons b rest ih =>
      cases i with
      | zero =>
          rw [keep, hkept]
          exact h
      | succ i =>
          have hrest : (keep (fun i => dropped (i + 1)) rest)[rank (fun i => dropped (i + 1)) i]? =
              some a := ih h hkept
          rw [keep, rank]
          cases dropped 0 with
          | true => simpa using hrest
          | false => simpa [Nat.add_comm 1] using hrest

theorem mem_keep {l : List α} {i : Nat} {a : α} (h : l[i]? = some a)
    (hkept : dropped i = false) : a ∈ keep dropped l :=
  List.mem_of_getElem? (getElem?_keep h hkept)

theorem keep_set_of_kept {l : List α} {i : Nat} (hkept : dropped i = false) (a : α) :
    keep dropped (l.set i a) = (keep dropped l).set (rank dropped i) a := by
  induction l generalizing dropped i with
  | nil => rfl
  | cons b rest ih =>
      cases i with
      | zero => simp [keep, rank, hkept]
      | succ i =>
          have hrest : keep (fun i => dropped (i + 1)) (rest.set i a) =
              (keep (fun i => dropped (i + 1)) rest).set (rank (fun i => dropped (i + 1)) i) a :=
            ih hkept
          rw [List.set_cons_succ, keep, keep, rank, hrest]
          cases dropped 0 with
          | true => simp
          | false => simp [Nat.add_comm 1]

theorem keep_set_of_dropped {l : List α} {i : Nat} (hdropped : dropped i = true) (a : α) :
    keep dropped (l.set i a) = keep dropped l := by
  induction l generalizing dropped i with
  | nil => rfl
  | cons b rest ih =>
      cases i with
      | zero => simp [keep, hdropped]
      | succ i =>
          have hrest : keep (fun i => dropped (i + 1)) (rest.set i a) =
              keep (fun i => dropped (i + 1)) rest := ih hdropped
          rw [List.set_cons_succ, keep, keep, hrest]

theorem keep_append_singleton (dropped : Nat → Bool) (l : List α) (a : α) :
    keep dropped (l ++ [a]) = keep dropped l ++ if dropped l.length then [] else [a] := by
  induction l generalizing dropped with
  | nil => simp [keep]
  | cons b rest ih =>
      rw [List.cons_append, keep, keep, ih, List.length_cons]
      cases dropped 0 with
      | true => rfl
      | false => rfl

end Lists

/-! ## Moves without those of some calls -/

/-- The moves of an actor in a run without the dropped calls. -/
def Actor.without (dropped : Nat → Bool) : Actor → Option Actor
  | .caller c => if dropped c then none else some (.caller (rank dropped c))
  | actor => some actor

theorem Actor.without_of_ne {dropped : Nat → Bool} {actor : Actor}
    (h : ∀ c, actor ≠ .caller c) : actor.without dropped = some actor := by
  cases actor with
  | caller c => exact absurd rfl (h c)
  | _ => rfl

namespace Pipeline

variable {F : Flow} {dropped : Nat → Bool}

/-- A move in a run without the dropped calls, `n` calls having been made before. -/
def Move.without (dropped : Nat → Bool) (n : Nat) : Move F → List (Move F)
  | .call task => if dropped n then [] else [.call task]
  | .act actor => ((actor.without dropped).map .act).toList
  | .deny c reason => if dropped c then [] else [.deny (rank dropped c) reason]

/-- The moves of a run without the dropped calls, `n` calls having been made before. -/
def without (dropped : Nat → Bool) : Nat → List (Move F) → List (Move F)
  | _, [] => []
  | n, move :: rest =>
      move.without dropped n ++ without dropped (n + (tasks [move]).length) rest

theorem without_append_singleton (dropped : Nat → Bool) (n : Nat) (moves : List (Move F))
    (move : Move F) : without dropped n (moves ++ [move]) =
      without dropped n moves ++ move.without dropped (n + (tasks moves).length) := by
  induction moves generalizing n with
  | nil => simp [without, tasks]
  | cons first rest ih =>
      have htasks : tasks (first :: rest) = tasks [first] ++ tasks rest :=
        tasks_append [first] rest
      rw [List.cons_append, without, without, ih, htasks, List.length_append, Nat.add_assoc,
        List.append_assoc]

end Pipeline

end TxPipeline
