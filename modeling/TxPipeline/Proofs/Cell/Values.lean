import TxPipeline.Proofs.Cell.Waking

/-!
# No value is lost, doubled or invented

What is removed from a cell is what was written to it, in the same order. Whoever finds a value
finds the one that was written last, and nobody else has removed it in between. So no value is
removed twice, however threads that were woken together race for it.
-/

namespace TxPipeline.Cell

variable {α : Type} {ended : List (Nat × Op α × Answer α)} {e : Nat × Op α × Answer α} {a : α}
  {i j k : Nat}

/-- The value that an operation has found in the cell. -/
def foundBy : Nat × Op α × Answer α → Option α
  | (_, _, .took value) => value
  | (_, _, .peeked value) => value
  | _ => none

/-- The operation at `i` has written `a`, and up to the one at `j` nothing is written or removed. -/
structure Supplies (ended : List (Nat × Op α × Answer α)) (a : α) (i j : Nat) : Prop where
  before : i < j
  written : ended[i]?.bind writtenBy = some a
  kept : ∀ k, i < k → k < j → ended[k]?.bind writtenBy = none ∧ ended[k]?.bind removedBy = none

/-- Two operations that find what a third has written cannot both remove it. -/
theorem Supplies.eq (hj : Supplies ended a i j) (hk : Supplies ended a i k)
    (hremoves : ended[j]?.bind removedBy ≠ none) (hremoves' : ended[k]?.bind removedBy ≠ none) :
    j = k := by
  rcases Nat.lt_trichotomy j k with hlt | heq | hlt
  · exact absurd (hk.kept j hj.before hlt).2 hremoves
  · exact heq
  · exact absurd (hj.kept k hk.before hlt).2 hremoves'

theorem Supplies.unique {b : α} (hi : Supplies ended a i k) (hj : Supplies ended b j k) :
    i = j ∧ a = b := by
  rcases Nat.lt_trichotomy i j with hlt | rfl | hlt
  · cases (hi.kept j hlt hj.before).1.symm.trans hj.written
  · exact ⟨rfl, Option.some.inj (hi.written.symm.trans hj.written)⟩
  · cases (hj.kept i hlt hi.before).1.symm.trans hi.written

theorem Supplies.concat (h : Supplies ended a i j) (hle : j ≤ ended.length) :
    Supplies (ended ++ [e]) a i j := by
  have hsame : ∀ k, k < j → (ended ++ [e])[k]? = ended[k]? := fun k hk =>
    List.getElem?_append_left (Nat.lt_of_lt_of_le hk hle)
  refine ⟨h.before, hsame i h.before ▸ h.written, fun k hi hk => ?_⟩
  rw [hsame k hk]
  exact h.kept k hi hk

/-- An operation that neither writes nor removes leaves the value for the next one. -/
theorem Supplies.pass (h : Supplies ended a i ended.length) (hwrites : writtenBy e = none)
    (hremoves : removedBy e = none) : Supplies (ended ++ [e]) a i (ended ++ [e]).length := by
  have hconcat := h.concat (e := e) (Nat.le_refl _)
  rw [List.length_append, List.length_singleton]
  refine ⟨Nat.lt_succ_of_lt h.before, hconcat.written, fun k hi hk => ?_⟩
  rcases Nat.lt_succ_iff_lt_or_eq.mp hk with hk | rfl
  · exact hconcat.kept k hi hk
  · simp [hwrites, hremoves]

theorem supplies_concat (hwrites : writtenBy e = some a) :
    Supplies (ended ++ [e]) a ended.length (ended ++ [e]).length := by
  refine ⟨by simp, by simp [hwrites], fun k hi hk => ?_⟩
  rw [List.length_append, List.length_singleton] at hk
  omega

/-- What an operation finds is what was in the cell. -/
theorem Answers.found {value next : Option α} {op : Op α} {answer : Answer α} {t : Nat}
    (h : Answers value op answer next) (hfound : foundBy (t, op, answer) = some a) :
    value = some a := by
  cases h with
  | accepted | refused | tookNothing | wasSet => cases hfound
  | took | tookBlocking | peeked | peekedBlocking => exact hfound

/-- A value that is in the cell after an operation was written by it, or was there before it and is
not removed. -/
theorem Answers.left {value : Option α} {op : Op α} {answer : Answer α} (t : Nat)
    (h : Answers value op answer (some a)) : writtenBy (t, op, answer) = some a ∨
      value = some a ∧ writtenBy (t, op, answer) = none ∧ removedBy (t, op, answer) = none := by
  cases h with
  | accepted => exact .inl rfl
  | refused => exact .inr ⟨rfl, rfl, rfl⟩
  | peeked => exact .inr ⟨rfl, rfl, rfl⟩
  | peekedBlocking => exact .inr ⟨rfl, rfl, rfl⟩
  | wasSet => exact .inr ⟨rfl, rfl, rfl⟩

namespace Room

variable {room next : Room α} {move : Move α} {moves : List (Move α)} {n : Nat}

/-- Every value that is in the cell, or was found there, comes from the last operation before that
has changed the cell. -/
structure Sourced (room : Room α) : Prop where
  held : ∀ a, room.cell.value = some a → ∃ i, Supplies room.ended a i room.ended.length
  found : ∀ j a, room.ended[j]?.bind foundBy = some a → ∃ i, Supplies room.ended a i j

theorem sourced_create (n : Nat) : (create n : Room α).Sourced where
  held a h := by cases h
  found j a h := by simp [create] at h

theorem Sourced.steps (h : room.Sourced) (hsteps : room.Steps move next) : next.Sourced := by
  cases hsteps with
  | call | park | wake => exact ⟨h.held, h.found⟩
  | answer t op answer cell hthread hlooks =>
      have hanswers := hlooks.answers
      refine ⟨fun a hvalue => ?_, fun j a hfound => ?_⟩
      · rw [show cell.value = some a from hvalue] at hanswers
        rcases hanswers.left t with hwrites | ⟨hvalue, hwrites, hremoves⟩
        · exact ⟨_, supplies_concat hwrites⟩
        · obtain ⟨i, hi⟩ := h.held a hvalue
          exact ⟨i, hi.pass hwrites hremoves⟩
      · have hlt := List.length_append ▸ (List.getElem?_eq_some_iff.mp
          (Option.bind_eq_some_iff.mp hfound).choose_spec.1).1
        rcases Nat.lt_succ_iff_lt_or_eq.mp hlt with hlt | rfl
        · rw [List.getElem?_append_left hlt] at hfound
          obtain ⟨i, hi⟩ := h.found j a hfound
          exact ⟨i, hi.concat (Nat.le_of_lt hlt)⟩
        · have hlast : foundBy (t, op, answer) = some a := by simpa using hfound
          obtain ⟨i, hi⟩ := h.held a (hanswers.found hlast)
          exact ⟨i, hi.concat (Nat.le_refl _)⟩

theorem sourced_run (n : Nat) (moves : List (Move α)) : ((create n).run moves).Sourced :=
  run_induction (sourced_create n) (fun _ _ _ h hsteps => h.steps hsteps) moves

theorem step?_of_set_full {t : Nat} (hthread : room.threads[t]? = some (.ready (.set a)))
    (hset : room.cell.isSet = true) :
    room.step? (.look t) = some { room with
      threads := room.threads.set t .idle, ended := room.ended ++ [(t, .set a, .refused)] } := by
  have hnone : room.cell.set? a = none := set?_eq_none_iff.mpr hset
  simp [step?, hthread, look, hnone]

/-- What an accepted write leaves in the cell. -/
theorem value_of_accepted {t : Nat} (hstep : room.step? (.look t) = some next)
    (hended : next.ended = room.ended ++ [(t, .set a, .accepted)]) : next.cell.value = some a := by
  cases steps_of_step? hstep with
  | park t op hthread hvalue =>
      have hlength := congrArg List.length hended
      simp at hlength
  | answer t op answer cell hthread hlooks =>
      obtain ⟨-, hlast⟩ := List.append_inj' hended rfl
      cases hlast
      cases hlooks
      rfl

/-- A cell neither loses, nor doubles, nor invents values, however the threads that use it take
turns. The values that were removed are those that were written, in the same order, and one more is
left as long as the cell is full. Each operation answers what it would answer alone with the cell as
those before it have left it, and a value that it finds is the one that was written last, and nobody
has removed it since; so no two operations remove the same. Writing to a full cell only ends the
attempt. When the others wait to see the value that is written, they all leave with it and it stays;
when they wait to have it, exactly one does, and the others go on waiting. -/
theorem values_leave_in_order (hrun : (create n).run moves = room) :
    written room.ended = removed room.ended ++ room.cell.value.toList ∧
    (∀ before t op answer after, room.ended = before ++ (t, op, answer) :: after →
      ∃ value next, Answers value op answer next ∧
        written before = removed before ++ value.toList) ∧
    (∀ j a, room.ended[j]?.bind foundBy = some a → ∃ i, Supplies room.ended a i j ∧
      (∀ i' b, Supplies room.ended b i' j → i' = i ∧ b = a) ∧
      ∀ k, room.ended[j]?.bind removedBy ≠ none → room.ended[k]?.bind removedBy ≠ none →
        Supplies room.ended a i k → k = j) ∧
    (∀ t a, room.threads[t]? = some (.ready (.set a)) → room.cell.isSet = true →
      room.step? (.look t) = some { room with
        threads := room.threads.set t .idle, ended := room.ended ++ [(t, .set a, .refused)] }) ∧
    ∀ t a next, room.step? (.look t) = some next →
      next.ended = room.ended ++ [(t, .set a, .accepted)] →
      (∀ op, next.Only op → op = .peekBlocking ∨ op = .takeBlocking →
        ∀ moves last, next.Becomes moves last → moves.length ≤ 2 * next.threads.length) ∧
      (next.Only .peekBlocking → ∀ moves last, next.Becomes moves last → last.Rests →
        last.busy = [] ∧ last.cell.value = some a ∧
          ∃ answers, last.ended = next.ended ++ answers ∧
            answers.Perm (next.busy.map (sees a))) ∧
      (next.Only .takeBlocking → next.busy ≠ [] →
        ∀ moves last, next.Becomes moves last → last.Rests →
          last.cell.value = none ∧
          ∃ u, last.ended = next.ended ++ [(u, .takeBlocking, .took (some a))] ∧
            next.busy.Perm ((u, .takeBlocking) :: last.busy) ∧
            ∀ v op, (v, op) ∈ last.busy → last.Waits v op last.cell.latch) := by
  obtain rfl := hrun
  have hsound := sound_run n moves
  have hsourced := sourced_run n moves
  generalize (create n).run moves = room at hsound hsourced
  refine ⟨hsound.values, hsound.answers, ?_, fun _ _ => step?_of_set_full, ?_⟩
  · intro j a hfound
    obtain ⟨i, hi⟩ := hsourced.found j a hfound
    refine ⟨i, hi, fun i' b hi' => hi'.unique hi, fun k hj hk hik => ?_⟩
    exact hik.eq hi hk hj
  · intro t a next hstep hended
    have hvalue := value_of_accepted hstep hended
    have hnext := hsound.steps (steps_of_step? hstep)
    refine ⟨?_, ?_, ?_⟩
    · intro op honly hop moves last hbecomes
      have hsum := hbecomes.length_add_effort hnext honly
        (by rcases hop with rfl | rfl <;> simp)
      exact Nat.le_trans (hsum ▸ Nat.le_add_right _ _) next.effort_le
    · intro honly moves last hbecomes hrests
      obtain ⟨hcell, answers, hended', hperm⟩ := hbecomes.peeked hnext honly hvalue
      have hlast := hbecomes.sound hnext
      have hbusy : last.busy = [] := by
        refine List.eq_nil_iff_forall_not_mem.mpr ?_
        rintro ⟨u, op⟩ hu
        have hempty := (hlast.waits_of_rests hrests (mem_busy.mp hu)).1
        rw [hcell, hvalue] at hempty
        cases hempty
      refine ⟨hbusy, by rw [hcell, hvalue], answers, hended', ?_⟩
      rwa [hbusy, List.map_nil, List.append_nil] at hperm
    · intro honly hbusy moves last hbecomes hrests
      have hlast := hbecomes.sound hnext
      rcases hbecomes.taken hnext honly hvalue with ⟨hfull, hperm⟩ | ⟨hempty, u, hended', hperm⟩
      · -- somebody would be left to take the value
        obtain ⟨⟨u, op⟩, hu⟩ := List.exists_mem_of_ne_nil _ hbusy
        have hempty := (hlast.waits_of_rests hrests (mem_busy.mp (hperm.mem_iff.mp hu))).1
        rw [hfull] at hempty
        cases hempty
      · exact ⟨hempty, u, hended', hperm, fun v op hv =>
          (hlast.waits_of_rests hrests (mem_busy.mp hv)).2⟩

/-- Two threads wait to have a value, and a third one writes it. -/
def contested : List (Move Nat) :=
  [.call 0 .takeBlocking, .look 0, .call 1 .takeBlocking, .look 1, .call 2 (.set 7)]

theorem values_leave_in_order_contested :
    let next : Room Nat := ⟨⟨some 7, none, 0⟩,
      [.parked .takeBlocking 0, .parked .takeBlocking 0, .idle], [(2, .set 7, .accepted)]⟩
    let last : Room Nat := ⟨.armed 1, [.parked .takeBlocking 1, .idle, .idle],
      [(2, .set 7, .accepted), (1, .takeBlocking, .took (some 7))]⟩
    ((create 3).run contested).step? (.look 2) = some next ∧
      next.Becomes [.wake 0, .wake 1, .look 1, .look 0] last ∧ last.cell.value = none ∧
      ∃ u, last.ended = next.ended ++ [(u, .takeBlocking, .took (some 7))] ∧
        next.busy.Perm ((u, .takeBlocking) :: last.busy) ∧
        ∀ v op, (v, op) ∈ last.busy → last.Waits v op last.cell.latch := by
  intro next last
  have honly : next.Only .takeBlocking := by
    intro t op ht
    match t with
    | 0 | 1 =>
        cases ht
        rfl
    | 2 | t + 3 => cases ht
  have hbecomes : next.Becomes [.wake 0, .wake 1, .look 1, .look 0] last :=
    ⟨rfl, by simp [Move.isCall]⟩
  have hrests : last.Rests := by
    intro t
    match t with
    | 0 | 1 | 2 | t + 3 => exact ⟨rfl, rfl⟩
  obtain ⟨-, -, -, -, hwrites⟩ :=
    values_leave_in_order (show (create 3).run contested = _ from rfl)
  obtain ⟨-, -, htakes⟩ := hwrites 2 7 next rfl rfl
  have hbusy : next.busy ≠ [] := by
    refine List.ne_nil_of_mem (a := (0, .takeBlocking)) (mem_busy.mpr ?_)
    rfl
  exact ⟨rfl, hbecomes, htakes honly hbusy _ last hbecomes hrests⟩

end Room

end TxPipeline.Cell
