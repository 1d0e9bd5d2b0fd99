import TxPipeline.Proofs.Cell.Invariant

/-!
# Waiting for a value

A thread looks at the cell under its lock and waits outside of it, and meanwhile the cell can be
written, emptied and armed anew any number of times. Still nobody sleeps through a value: whoever
waits does so on the latch of an empty cell, or on one that is released for good.
-/

namespace TxPipeline.Cell.Room

variable {α : Type} {room next : Room α} {moves more : List (Move α)} {n t latch : Nat}
  {op : Op α} {a : α}

/-- As long as a latch is not released there is no value, so that the next one is accepted. -/
theorem Sound.value_of_not_released (h : room.Sound)
    (hreleased : room.cell.released latch = false) :
    room.cell.value = none ∧ latch = room.cell.latch := by
  have hiff := h.latched.released_iff latch
  rw [hreleased, isSet] at hiff
  cases hvalue : room.cell.value with
  | none => exact ⟨rfl, by simpa [hvalue] using hiff⟩
  | some a => simp [hvalue] at hiff

theorem step?_of_set (hthread : room.threads[t]? = some (.ready (.set a)))
    (hvalue : room.cell.value = none) :
    room.step? (.look t) = some ⟨⟨some a, none, room.cell.latch⟩, room.threads.set t .idle,
      room.ended ++ [(t, .set a, .accepted)]⟩ := by
  simp [step?, hthread, look, set?, hvalue]

/-- Whoever waits is woken by the next value, and by nothing else. -/
theorem Sound.released_run_iff (h : room.Sound) (hwaits : room.Waits t op latch)
    (more : List (Move α)) :
    (room.run more).cell.released latch = true ↔ room.cell.released latch = true ∨
      (written room.ended).length < (written (room.run more).ended).length := by
  have hle := h.waits t op latch hwaits
  have hmono : (written room.ended).length ≤ (written (room.run more).ended).length :=
    ((room.ended_prefix_of_run more).filterMap writtenBy).length_le
  -- the cell has written as many values as its latch has seen leave, or one more
  have hnext : room.cell.latch ≤ (written room.ended).length := by
    rw [h.values, List.length_append, ← h.latch]
    exact Nat.le_add_right _ _
  rw [(h.run more).released_iff (Nat.le_trans hle (latch_le_of_run h more)), h.released_iff hle]
  omega

theorem cell_of_took (hstep : room.step? (.look t) = some next)
    (htook : next.ended = room.ended ++ [(t, op, .took (some a))]) :
    next.cell = armed (room.cell.latch + 1) := by
  cases steps_of_step? hstep with
  | park t op' hthread hvalue =>
      have hlength := congrArg List.length htook
      simp at hlength
  | answer t op' answer cell hthread hlooks =>
      obtain ⟨-, hlast⟩ := List.append_inj' htook rfl
      cases hlast
      cases hlooks <;> rfl

/-- No wake-up is lost. A cell keeps the sending end of its latch as long as it is empty. Whoever
waits does so on this latch while the cell is empty, or on a latch that has been released; so a
value leaves nobody asleep, a waiter is woken by the next value that is written however late, and
the latch that is armed when a value leaves is a new one. -/
theorem no_wakeup_lost (hrun : (create n).run moves = room) :
    (room.cell.release.isSome ↔ room.cell.value = none) ∧
    (∀ t op latch, room.Waits t op latch →
      (latch = room.cell.latch ∧ room.cell.value = none ∧ room.cell.release = some latch) ∨
        room.cell.released latch = true) ∧
    (room.cell.isSet = true → ∀ t op latch, room.Waits t op latch →
      ∃ next, room.step? (.wake t) = some next ∧ next.threads[t]? = some (.ready op)) ∧
    (∀ t op latch, room.Waits t op latch →
      (∀ more, (room.run more).cell.released latch = true ↔ room.cell.released latch = true ∨
        (written room.ended).length < (written (room.run more).ended).length) ∧
      (room.cell.released latch = false → ∀ u a, room.threads[u]? = some (.ready (.set a)) →
        ∃ next, room.step? (.look u) = some next ∧
          next.ended = room.ended ++ [(u, .set a, .accepted)] ∧
          next.cell.released latch = true)) ∧
    ∀ t op a next, room.step? (.look t) = some next →
      next.ended = room.ended ++ [(t, op, .took (some a))] →
      next.cell.value = none ∧ next.cell.released next.cell.latch = false ∧
        ∀ u op' latch, next.Waits u op' latch → next.cell.released latch = true := by
  obtain rfl := hrun
  have hsound := sound_run n moves
  generalize hroom : (create n).run moves = room at hsound
  refine ⟨?_, ?_, ?_, ?_, ?_⟩
  · rw [hsound.latched, isSet]
    cases room.cell.value <;> simp
  · intro t op latch hwaits
    cases hreleased : room.cell.released latch with
    | true => exact .inr rfl
    | false =>
        obtain ⟨hvalue, rfl⟩ := hsound.value_of_not_released hreleased
        exact .inl ⟨rfl, hvalue, by rw [hsound.latched, isSet, hvalue]; rfl⟩
  · intro hset t op latch hwaits
    have hthread : room.threads[t]? = some (.parked op latch) := hwaits
    have hreleased := (hsound.latched.released_iff latch).mpr (.inl hset)
    refine ⟨{ room with threads := room.threads.set t (.ready op) }, ?_, ?_⟩
    · simp [step?, hthread, hreleased]
    · rw [List.getElem?_set_self (List.getElem?_eq_some_iff.mp hthread).1]
  · intro t op latch hwaits
    refine ⟨hsound.released_run_iff hwaits, ?_⟩
    intro hreleased u a hu
    obtain ⟨hvalue, -⟩ := hsound.value_of_not_released hreleased
    exact ⟨_, step?_of_set hu hvalue, rfl, rfl⟩
  · intro t op a next hstep htook
    have hcell := cell_of_took hstep htook
    have hnext := hsound.steps (steps_of_step? hstep)
    refine ⟨by rw [hcell]; rfl, by simp [hcell, released, armed], ?_⟩
    intro u op' latch hu
    refine (hnext.latched.released_iff latch).mpr (.inr ?_)
    -- nobody has come to wait since the latch is there
    have hold : room.Waits u op' latch := by
      unfold Waits at hu ⊢
      cases steps_of_step? hstep with
      | park t op'' hthread hvalue =>
          have hlength := congrArg List.length htook
          simp at hlength
      | answer t op'' answer cell hthread hlooks =>
          rw [List.getElem?_set] at hu
          split at hu
          · split at hu <;> cases hu
          · exact hu
    have hle := hsound.waits u op' latch hold
    rw [hcell]
    exact Nat.ne_of_lt (Nat.lt_succ_of_le hle)

/-- A thread that waits to see a value is overtaken: the value comes and leaves before it wakes, and
somebody else waits for the next one already. -/
def overtaken : List (Move Nat) :=
  [.call 0 .peekBlocking, .look 0, .call 1 (.set 7), .look 1, .call 1 .take, .look 1,
    .call 2 .takeBlocking, .look 2, .call 3 (.set 8)]

theorem no_wakeup_lost_overtaken : ∃ room : Room Nat, (create 4).run overtaken = room ∧
    room.Waits 0 .peekBlocking 0 ∧ (∀ more, (room.run more).cell.released 0 = true) ∧
    room.Waits 2 .takeBlocking 1 ∧ room.cell.released 1 = false ∧
    ∃ next, room.step? (.look 3) = some next ∧ next.cell.released 1 = true := by
  obtain ⟨-, -, -, hwakes, -⟩ :=
    no_wakeup_lost (show (create 4).run overtaken = _ from rfl)
  obtain ⟨next, hstep, -, hreleased⟩ := (hwakes 2 .takeBlocking 1 rfl).2 rfl 3 8 rfl
  exact ⟨_, rfl, rfl, fun more => ((hwakes 0 .peekBlocking 0 rfl).1 more).mpr (.inl rfl), rfl, rfl,
    next, hstep, hreleased⟩

end TxPipeline.Cell.Room
