import Mathlib.Data.List.Induction
import TxPipeline.Cell.Threads

/-!
# What a move in a room can be

A look at a cell comes out in one of a few ways, which its value decides, and so does a move of a
thread. Whatever holds of all moves is proved by cases on these.
-/

namespace TxPipeline.Cell

variable {α : Type} {cell cell' : Cell α} {a : α} {op : Op α}

/-! ## Latches -/

/-- The cell keeps the sending end of its own latch as long as it is empty, and no longer. -/
def Latched (cell : Cell α) : Prop :=
  cell.release = if cell.isSet then none else some cell.latch

theorem Latched.eq_armed (h : cell.Latched) (hvalue : cell.value = none) :
    cell = .armed cell.latch := by
  obtain ⟨value, release, latch⟩ := cell
  obtain rfl : value = none := hvalue
  obtain rfl : release = some latch := h
  rfl

theorem latched_armed (latch : Nat) : (armed latch : Cell α).Latched := rfl

theorem Latched.reset (h : cell.Latched) : cell.reset.Latched := by
  unfold Cell.reset
  split
  · exact h
  · exact latched_armed _

theorem latched_of_set? (h : cell.set? a = some cell') : cell'.Latched := by
  unfold set? at h
  split at h
  · cases h
    rfl
  · cases h

theorem latched_of_take? (h : cell.take? = some (a, cell')) : cell'.Latched := by
  unfold take? at h
  split at h
  · cases h
  · rename_i hvalue
    cases h
    simp only [Cell.reset, hvalue]
    exact latched_armed _

theorem Latched.released_iff (h : cell.Latched) (latch : Nat) :
    cell.released latch = true ↔ cell.isSet = true ∨ latch ≠ cell.latch := by
  rw [released, h, bne_iff_ne]
  cases cell.isSet with
  | true => simp
  | false => simpa using ne_comm

/-! ## Looks -/

/-- One look at `cell`, with the answer if the operation is over, and the cell after it. -/
inductive Looks (cell : Cell α) : Op α → Option (Answer α) → Cell α → Prop
  | accept (a : α) (hvalue : cell.value = none) :
      Looks cell (.set a) (some .accepted) ⟨some a, none, cell.latch⟩
  | refuse (a b : α) (hvalue : cell.value = some b) : Looks cell (.set a) (some .refused) cell
  | take (a : α) (hvalue : cell.value = some a) :
      Looks cell .take (some (.took (some a))) (armed (cell.latch + 1))
  | takeNone (hvalue : cell.value = none) : Looks cell .take (some (.took none)) cell
  | takeBlocking (a : α) (hvalue : cell.value = some a) :
      Looks cell .takeBlocking (some (.took (some a))) (armed (cell.latch + 1))
  | waitTake (hvalue : cell.value = none) : Looks cell .takeBlocking none cell
  | peek : Looks cell .peek (some (.peeked cell.value)) cell
  | peekBlocking (a : α) (hvalue : cell.value = some a) :
      Looks cell .peekBlocking (some (.peeked (some a))) cell
  | waitPeek (hvalue : cell.value = none) : Looks cell .peekBlocking none cell
  | isSet : Looks cell .isSet (some (.wasSet cell.isSet)) cell

theorem looks_look (cell : Cell α) (op : Op α) :
    Looks cell op (cell.look op).1 (cell.look op).2 := by
  cases hvalue : cell.value with
  | none =>
      cases op with
      | set a => simpa [look, set?, hvalue] using Looks.accept a hvalue
      | take => simpa [look, take?, hvalue] using Looks.takeNone hvalue
      | takeBlocking => simpa [look, take?, hvalue] using Looks.waitTake hvalue
      | peek => exact .peek
      | peekBlocking => simpa [look, hvalue] using Looks.waitPeek hvalue
      | isSet => exact .isSet
  | some b =>
      cases op with
      | set a => simpa [look, set?, hvalue] using Looks.refuse a b hvalue
      | take => simpa [look, take?, reset, hvalue] using Looks.take b hvalue
      | takeBlocking => simpa [look, take?, reset, hvalue] using Looks.takeBlocking b hvalue
      | peek => exact .peek
      | peekBlocking => simpa [look, hvalue] using Looks.peekBlocking b hvalue
      | isSet => exact .isSet

theorem Looks.latched {answer? : Option (Answer α)} (h : Looks cell op answer? cell')
    (hcell : cell.Latched) : cell'.Latched := by
  cases h with
  | accept => rfl
  | take => exact latched_armed _
  | takeBlocking => exact latched_armed _
  | _ => exact hcell

/-- Who has to wait has found the cell empty, and leaves it as it is. -/
theorem Looks.of_none (h : Looks cell op none cell') :
    cell' = cell ∧ cell.value = none := by
  cases h with
  | waitTake hvalue => exact ⟨rfl, hvalue⟩
  | waitPeek hvalue => exact ⟨rfl, hvalue⟩

namespace Room

variable {room next last : Room α} {move : Move α} {moves more : List (Move α)} {t : Nat}

/-- One move in a room. -/
inductive Steps (room : Room α) : Move α → Room α → Prop
  | call (t : Nat) (op : Op α) (hthread : room.threads[t]? = some .idle) :
      Steps room (.call t op) { room with threads := room.threads.set t (.ready op) }
  | answer (t : Nat) (op : Op α) (answer : Answer α) (cell : Cell α)
      (hthread : room.threads[t]? = some (.ready op))
      (hlooks : Looks room.cell op (some answer) cell) :
      Steps room (.look t)
        ⟨cell, room.threads.set t .idle, room.ended ++ [(t, op, answer)]⟩
  | park (t : Nat) (op : Op α) (hthread : room.threads[t]? = some (.ready op))
      (hvalue : room.cell.value = none) :
      Steps room (.look t) { room with threads := room.threads.set t (.parked op room.cell.latch) }
  | wake (t : Nat) (op : Op α) (latch : Nat)
      (hthread : room.threads[t]? = some (.parked op latch))
      (hreleased : room.cell.released latch = true) :
      Steps room (.wake t) { room with threads := room.threads.set t (.ready op) }

theorem steps_of_step? (hstep : room.step? move = some next) : room.Steps move next := by
  cases move with
  | call t op =>
      simp only [step?] at hstep
      split at hstep <;> cases hstep
      exact .call t op ‹_›
  | look t =>
      simp only [step?] at hstep
      split at hstep
      · rename_i op hthread
        have hlooks := looks_look room.cell op
        split at hstep <;> rename_i hlook <;> rw [hlook] at hlooks <;> cases hstep
        · exact .answer t op _ _ hthread hlooks
        · obtain ⟨heq, hvalue⟩ := hlooks.of_none
          obtain rfl : _ = room.cell := heq
          exact .park t op hthread hvalue
      · cases hstep
  | wake t =>
      simp only [step?] at hstep
      split at hstep
      · split at hstep <;> cases hstep
        exact .wake t _ _ ‹_› ‹_›
      · cases hstep

/-- The room after moves that are all possible. -/
def run? (room : Room α) : List (Move α) → Option (Room α)
  | [] => some room
  | move :: rest => (room.step? move).bind fun room => room.run? rest

theorem run_of_run? (hrun : room.run? moves = some last) : room.run moves = last := by
  induction moves generalizing room with
  | nil =>
      cases hrun
      rfl
  | cons move rest ih =>
      obtain ⟨next, hstep, hrest⟩ := Option.bind_eq_some_iff.mp hrun
      have hnext : room.stepOrStay move = next := by rw [stepOrStay, hstep, Option.getD_some]
      rw [run, List.foldl_cons, hnext]
      exact ih hrest

theorem run_append (room : Room α) (moves more : List (Move α)) :
    room.run (moves ++ more) = (room.run moves).run more :=
  List.foldl_append

/-- What holds at first and is kept by every possible move holds after every run. -/
theorem run_induction {P : Room α → Prop} (hroom : P room)
    (hstep : ∀ before move after, P before → before.Steps move after → P after)
    (moves : List (Move α)) : P (room.run moves) := by
  induction moves using List.reverseRecOn with
  | nil => exact hroom
  | append_singleton moves move ih =>
      rw [run_append]
      change P ((room.run moves).stepOrStay move)
      unfold stepOrStay
      cases hmove : (room.run moves).step? move with
      | none => exact ih
      | some next => exact hstep _ _ _ ih (steps_of_step? hmove)

theorem run?_append (room : Room α) (moves more : List (Move α)) :
    room.run? (moves ++ more) = (room.run? moves).bind fun next => next.run? more := by
  induction moves generalizing room with
  | nil => rfl
  | cons move rest ih =>
      simp only [List.cons_append, run?]
      cases room.step? move with
      | none => rfl
      | some next => exact ih next

theorem run?_induction {P : List (Move α) → Room α → Prop} (hroom : P [] room)
    (hstep : ∀ moves before move after, P moves before → before.Steps move after →
      P (moves ++ [move]) after)
    (hrun : room.run? moves = some last) : P moves last := by
  induction moves using List.reverseRecOn generalizing last with
  | nil =>
      cases hrun
      exact hroom
  | append_singleton moves move ih =>
      rw [run?_append] at hrun
      obtain ⟨before, hbefore, hrun⟩ := Option.bind_eq_some_iff.mp hrun
      obtain ⟨after, hmove, hrun⟩ := Option.bind_eq_some_iff.mp hrun
      cases hrun
      exact hstep moves before move _ (ih hbefore) (steps_of_step? hmove)

end Room

end TxPipeline.Cell
