import TxPipeline.Proofs.Cell.Moves

/-!
# The history of a cell

The operations that have ended tell what is in the cell. Each of them answers as if it had been
alone with the cell at that moment, so that values leave the cell in the order in which they came.
The latch has as its number how many values have left, and so it is released by the value that comes
next.
-/

namespace TxPipeline.Cell

variable {α : Type}

/-- What an operation answers to somebody who has the cell to himself, and what is in the cell
before and after it. -/
inductive Answers : Option α → Op α → Answer α → Option α → Prop
  | accepted (a : α) : Answers none (.set a) .accepted (some a)
  | refused (a b : α) : Answers (some b) (.set a) .refused (some b)
  | took (a : α) : Answers (some a) .take (.took (some a)) none
  | tookNothing : Answers none .take (.took none) none
  | tookBlocking (a : α) : Answers (some a) .takeBlocking (.took (some a)) none
  | peeked (value : Option α) : Answers value .peek (.peeked value) value
  | peekedBlocking (a : α) : Answers (some a) .peekBlocking (.peeked (some a)) (some a)
  | wasSet (value : Option α) : Answers value .isSet (.wasSet value.isSome) value

/-- The value that an operation has brought into the cell. -/
def writtenBy : Nat × Op α × Answer α → Option α
  | (_, .set a, .accepted) => some a
  | _ => none

/-- The value that an operation has removed from the cell. -/
def removedBy : Nat × Op α × Answer α → Option α
  | (_, _, .took value) => value
  | _ => none

/-- The values that were written, in order. -/
def written (ended : List (Nat × Op α × Answer α)) : List α := ended.filterMap writtenBy

/-- The values that were removed, in order. -/
def removed (ended : List (Nat × Op α × Answer α)) : List α := ended.filterMap removedBy

theorem written_concat (ended : List (Nat × Op α × Answer α)) (e : Nat × Op α × Answer α) :
    written (ended ++ [e]) = written ended ++ (writtenBy e).toList := by
  rw [written, List.filterMap_append, ← written]
  cases h : writtenBy e <;> simp [h]

theorem removed_concat (ended : List (Nat × Op α × Answer α)) (e : Nat × Op α × Answer α) :
    removed (ended ++ [e]) = removed ended ++ (removedBy e).toList := by
  rw [removed, List.filterMap_append, ← removed]
  cases h : removedBy e <;> simp [h]

/-- What was in the cell, and what an operation brings, is what it removes and leaves. -/
theorem Answers.balance {value next : Option α} {op : Op α} {answer : Answer α}
    (h : Answers value op answer next) (t : Nat) :
    value.toList ++ (writtenBy (t, op, answer)).toList =
      (removedBy (t, op, answer)).toList ++ next.toList := by
  cases h <;> simp [writtenBy, removedBy]

theorem Looks.answers {cell cell' : Cell α} {op : Op α} {answer : Answer α}
    (h : Looks cell op (some answer) cell') : Answers cell.value op answer cell'.value := by
  cases h with
  | accept a hvalue => exact hvalue ▸ .accepted a
  | refuse a b hvalue => exact hvalue ▸ .refused a b
  | take a hvalue => exact hvalue ▸ .took a
  | takeNone hvalue => exact hvalue ▸ .tookNothing
  | takeBlocking a hvalue => exact hvalue ▸ .tookBlocking a
  | peek => exact .peeked _
  | peekBlocking a hvalue => exact hvalue ▸ .peekedBlocking a
  | isSet => exact .wasSet _

/-- The number of the latch grows with every value that is removed. -/
theorem Looks.latch_eq {cell cell' : Cell α} {op : Op α} {answer : Answer α}
    (h : Looks cell op (some answer) cell') (t : Nat) :
    cell'.latch = cell.latch + (removedBy (t, op, answer)).toList.length := by
  cases h <;> rfl

namespace Room

variable {room next : Room α} {move : Move α} {t latch : Nat} {op : Op α} {answer : Answer α}
  {a : α}

/-- A thread has looked at the cell for an operation, and waits for a latch to be released. -/
def Waits (room : Room α) (t : Nat) (op : Op α) (latch : Nat) : Prop :=
  room.threads[t]? = some (.parked op latch)

/-- What the history of a room says about its cell and about those who wait. -/
structure Sound (room : Room α) : Prop where
  values : written room.ended = removed room.ended ++ room.cell.value.toList
  answers : ∀ before t op answer after, room.ended = before ++ (t, op, answer) :: after →
    ∃ value next, Answers value op answer next ∧ written before = removed before ++ value.toList
  latched : room.cell.Latched
  latch : room.cell.latch = (removed room.ended).length
  waits : ∀ t op latch, room.Waits t op latch → latch ≤ room.cell.latch

theorem sound_create (n : Nat) : (create n : Room α).Sound where
  values := rfl
  answers before t op answer after h := by simp [create] at h
  latched := latched_armed 0
  latch := rfl
  waits t op latch h := by
    have hidle := List.eq_of_mem_replicate (List.mem_of_getElem? h)
    cases hidle

theorem Sound.waits_set {thread : Thread α} {bound : Nat} (h : room.Sound)
    (hle : room.cell.latch ≤ bound)
    (hthread : ∀ op latch, thread = .parked op latch → latch ≤ bound)
    (u : Nat) (op : Op α) (latch : Nat)
    (hu : (room.threads.set t thread)[u]? = some (.parked op latch)) : latch ≤ bound := by
  rw [List.getElem?_set] at hu
  split at hu
  · split at hu
    · exact hthread op latch (Option.some.inj hu)
    · cases hu
  · exact Nat.le_trans (h.waits u op latch hu) hle

theorem Sound.steps (h : room.Sound) (hsteps : room.Steps move next) : next.Sound := by
  cases hsteps with
  | call t op hthread =>
      exact { h with waits := h.waits_set (Nat.le_refl _) (by simp) }
  | wake t op latch hthread hreleased =>
      exact { h with waits := h.waits_set (Nat.le_refl _) (by simp) }
  | park t op hthread hvalue =>
      exact { h with
        waits := h.waits_set (Nat.le_refl _) fun _ _ heq => by cases heq; exact Nat.le_refl _ }
  | answer t op answer cell hthread hlooks =>
      have hbalance := hlooks.answers.balance t
      have hlatch := hlooks.latch_eq t
      refine ⟨?_, ?_, hlooks.latched h.latched, ?_, h.waits_set (by simp [hlatch]) (by simp)⟩
      · rw [written_concat, removed_concat, h.values, List.append_assoc, hbalance,
          List.append_assoc]
      · intro before u op' answer' after hsplit
        -- the operation is the last one, or it had ended before
        rcases List.eq_nil_or_concat after with rfl | ⟨rest, last, rfl⟩
        · obtain ⟨rfl, hlast⟩ := List.append_inj' hsplit rfl
          cases hlast
          exact ⟨_, _, hlooks.answers, h.values⟩
        · rw [List.concat_eq_append, ← List.cons_append, ← List.append_assoc] at hsplit
          obtain ⟨hsplit, -⟩ := List.append_inj' hsplit rfl
          exact h.answers before u op' answer' rest hsplit
      · rw [removed_concat, List.length_append, ← h.latch, hlatch]

theorem Sound.run (h : room.Sound) (moves : List (Move α)) : (room.run moves).Sound :=
  run_induction h (fun _ _ _ h hsteps => h.steps hsteps) moves

theorem sound_run (n : Nat) (moves : List (Move α)) : ((create n).run moves).Sound :=
  (sound_create n).run moves

/-! ## Released latches -/

/-- A latch is released by the value that comes next, and stays released. -/
theorem Sound.released_iff (h : room.Sound) (hle : latch ≤ room.cell.latch) :
    room.cell.released latch = true ↔ latch < (written room.ended).length := by
  have hlength := congrArg List.length h.values
  rw [List.length_append, ← h.latch] at hlength
  rw [h.latched.released_iff, Cell.isSet]
  cases hvalue : room.cell.value with
  | none =>
      simp only [hvalue, Option.toList_none, List.length_nil] at hlength
      simp only [Option.isSome_none, Bool.false_eq_true, false_or]
      omega
  | some a =>
      simp only [hvalue, Option.toList_some, List.length_singleton] at hlength
      simp only [Option.isSome_some, true_or, true_iff]
      omega

/-- What has ended once stays in the history. -/
theorem ended_prefix_of_run (room : Room α) (moves : List (Move α)) :
    room.ended <+: (room.run moves).ended := by
  refine run_induction (P := fun next => room.ended <+: next.ended) (List.prefix_refl _) ?_ moves
  intro before move after hprefix hsteps
  cases hsteps with
  | answer t op answer cell hthread hlooks => exact hprefix.trans (List.prefix_append _ _)
  | call | park | wake => exact hprefix

theorem latch_le_of_run (h : room.Sound) (moves : List (Move α)) :
    room.cell.latch ≤ (room.run moves).cell.latch := by
  rw [h.latch, (h.run moves).latch]
  exact ((room.ended_prefix_of_run moves).filterMap removedBy).length_le

end Room

end TxPipeline.Cell
