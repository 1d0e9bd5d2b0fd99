import Mathlib.Algebra.Order.BigOperators.Group.List
import Mathlib.Algebra.Order.Group.Nat
import Mathlib.Data.List.Nodup
import TxPipeline.Proofs.Cell.Waiting
import TxPipeline.Proofs.Lists

/-!
# One value for many

When a value is written, everybody who waits is woken and looks at the cell again. By themselves,
that is without new calls, the threads of a room can make only so many moves: a woken thread looks
at the cell, and then it leaves or waits for the next value. Those who want to see the value all
leave with it; of those who want to have it exactly one does.
-/

namespace TxPipeline.Cell

variable {α : Type}

/-- The operation in the middle of which a thread is. -/
def Thread.op? : Thread α → Option (Op α)
  | .idle => none
  | .ready op => some op
  | .parked op _ => some op

/-- How many moves a thread can make by itself until another value is written, when the `values`-th
has been. -/
def Thread.effort (values : Nat) : Thread α → Nat
  | .idle => 0
  | .ready _ => 1
  | .parked _ latch => if latch < values then 2 else 0

theorem Thread.effort_le (thread : Thread α) (values : Nat) : thread.effort values ≤ 2 := by
  cases thread <;> simp only [effort]
  · omega
  · omega
  · split <;> omega

def Move.isCall : Move α → Bool
  | .call _ _ => true
  | _ => false

theorem Looks.of_takeBlocking {cell cell' : Cell α} {answer : Answer α}
    (h : Looks cell .takeBlocking (some answer) cell') :
    ∃ a, cell.value = some a ∧ answer = .took (some a) ∧ cell'.value = none := by
  cases h with
  | takeBlocking a hvalue => exact ⟨a, hvalue, rfl, rfl⟩

theorem Looks.of_peekBlocking {cell cell' : Cell α} {answer : Answer α}
    (h : Looks cell .peekBlocking (some answer) cell') :
    ∃ a, cell.value = some a ∧ answer = .peeked (some a) ∧ cell' = cell := by
  cases h with
  | peekBlocking a hvalue => exact ⟨a, hvalue, rfl, rfl⟩

/-- Looks that are no writing leave the cell alone or empty it. -/
theorem Looks.written_eq {cell cell' : Cell α} {op : Op α} {answer : Answer α} {t : Nat}
    (h : Looks cell op (some answer) cell') (hop : ∀ a, op ≠ .set a) (ended : List _) :
    written (ended ++ [(t, op, answer)]) = written ended := by
  rw [written_concat]
  cases h with
  | accept a => exact absurd rfl (hop a)
  | _ => exact List.append_nil _

namespace Room

variable {room next last : Room α} {move : Move α} {moves : List (Move α)} {t : Nat} {op : Op α}
  {a : α}

def op? (room : Room α) (t : Nat) : Option (Op α) := room.threads[t]?.bind Thread.op?

/-- The threads in the middle of an operation. -/
def busy (room : Room α) : List (Nat × Op α) :=
  (List.range room.threads.length).filterMap fun t => (room.op? t).map fun op => (t, op)

/-- How many moves the threads can make by themselves until another value is written. -/
def effort (room : Room α) : Nat :=
  (room.threads.map (Thread.effort (written room.ended).length)).sum

/-- All threads that are busy are so with one operation. -/
def Only (room : Room α) (op : Op α) : Prop := ∀ t op', room.op? t = some op' → op' = op

/-- A thread leaves with what it has seen. -/
def sees (a : α) (b : Nat × Op α) : Nat × Op α × Answer α := (b.1, b.2, .peeked (some a))

/-- No thread can make a move by itself. -/
def Rests (room : Room α) : Prop := ∀ t, room.step? (.look t) = none ∧ room.step? (.wake t) = none

/-- `last` is what becomes of `room` when its threads make moves by themselves. -/
def Becomes (room : Room α) (moves : List (Move α)) (last : Room α) : Prop :=
  room.run? moves = some last ∧ ∀ move ∈ moves, move.isCall = false

/-! ## Who is busy -/

theorem mem_busy : (t, op) ∈ room.busy ↔ room.op? t = some op := by
  simp only [busy, List.mem_filterMap, List.mem_range, Option.map_eq_some_iff, Prod.mk.injEq]
  constructor
  · rintro ⟨u, -, op', hop, rfl, rfl⟩
    exact hop
  · intro hop
    obtain ⟨thread, hthread, -⟩ := Option.bind_eq_some_iff.mp hop
    exact ⟨t, (List.getElem?_eq_some_iff.mp hthread).1, op, hop, rfl, rfl⟩

theorem nodup_busy (room : Room α) : room.busy.Nodup := by
  refine List.Nodup.filterMap ?_ List.nodup_range
  intro t u b ht hu
  obtain ⟨op, -, rfl⟩ := Option.map_eq_some_iff.mp ht
  obtain ⟨op', -, heq⟩ := Option.map_eq_some_iff.mp hu
  exact (congrArg Prod.fst heq).symm

theorem busy_perm (h : ∀ u, next.op? u = room.op? u) : room.busy.Perm next.busy := by
  refine (List.perm_ext_iff_of_nodup room.nodup_busy next.nodup_busy).mpr ?_
  rintro ⟨u, op⟩
  rw [mem_busy, mem_busy, h]

theorem busy_perm_cons (hop : room.op? t = some op)
    (h : ∀ u, next.op? u = if u = t then none else room.op? u) :
    room.busy.Perm ((t, op) :: next.busy) := by
  have hleft : (t, op) ∉ next.busy := by simp [mem_busy, h]
  refine (List.perm_ext_iff_of_nodup room.nodup_busy (next.nodup_busy.cons hleft)).mpr ?_
  rintro ⟨u, op'⟩
  rw [List.mem_cons, mem_busy, mem_busy, h]
  by_cases hu : u = t
  · subst hu
    simp [hop, eq_comm]
  · simp [hu]

theorem op?_of_set {thread thread' : Thread α} (hthread : room.threads[t]? = some thread)
    (hnext : next.threads = room.threads.set t thread') (u : Nat) :
    next.op? u = if u = t then thread'.op? else room.op? u := by
  have hlt := (List.getElem?_eq_some_iff.mp hthread).1
  rw [op?, hnext, List.getElem?_set]
  by_cases hu : t = u
  · subst hu
    simp [hlt]
  · simp [hu, Ne.symm hu, op?]

/-- A move of a thread by itself ends its operation, or leaves it in the middle of it. -/
theorem Steps.busy (h : room.Steps move next) (hcall : move.isCall = false) :
    (∃ t op answer, room.op? t = some op ∧ Looks room.cell op (some answer) next.cell ∧
      next.ended = room.ended ++ [(t, op, answer)] ∧
      ∀ u, next.op? u = if u = t then none else room.op? u) ∨
    (next.cell = room.cell ∧ next.ended = room.ended ∧ ∀ u, next.op? u = room.op? u) := by
  cases h with
  | call => cases hcall
  | answer t op answer cell hthread hlooks =>
      refine .inl ⟨t, op, answer, by rw [op?, hthread]; rfl, hlooks, rfl, ?_⟩
      exact op?_of_set hthread (show _ = room.threads.set t .idle from rfl)
  | park t op hthread hvalue | wake t op latch hthread hreleased =>
      refine .inr ⟨rfl, rfl, fun u => ?_⟩
      rw [op?_of_set hthread rfl u]
      split
      · rename_i hu
        rw [hu, op?, hthread]
        rfl
      · rfl

theorem Only.steps (h : room.Only op) (hsteps : room.Steps move next)
    (hcall : move.isCall = false) : next.Only op := by
  intro u op' hu
  rcases hsteps.busy hcall with ⟨t, op'', answer, -, -, -, hops⟩ | ⟨-, -, hops⟩
  · rw [hops] at hu
    split at hu
    · cases hu
    · exact h u op' hu
  · exact h u op' (hops u ▸ hu)

/-! ## How long threads can go on -/

theorem Sound.effort_steps (h : room.Sound) (hsteps : room.Steps move next)
    (hcall : move.isCall = false) (hwritten : written next.ended = written room.ended) :
    next.effort + 1 = room.effort := by
  rw [effort, effort, hwritten]
  cases hsteps with
  | call => cases hcall
  | answer t op answer cell hthread hlooks =>
      exact sum_map_set (Thread.effort (written room.ended).length) hthread .idle
  | park t op hthread hvalue =>
      -- nothing is in the cell, so nothing has released its latch
      have hasleep : ¬ room.cell.latch < (written room.ended).length := by
        rw [h.values, hvalue, h.latch]
        simp
      have hsum := sum_map_set (Thread.effort (written room.ended).length) hthread
        (.parked op room.cell.latch)
      rwa [Thread.effort, Thread.effort, if_neg hasleep] at hsum
  | wake t op latch hthread hreleased =>
      have hawake := (h.released_iff (h.waits t op latch hthread)).mp hreleased
      have hsum := sum_map_set (Thread.effort (written room.ended).length) hthread (.ready op)
      rw [Thread.effort, Thread.effort, if_pos hawake] at hsum
      exact Nat.succ.inj hsum

theorem effort_le (room : Room α) : room.effort ≤ 2 * room.threads.length := by
  rw [effort, Nat.mul_comm, ← List.length_map (Thread.effort (written room.ended).length)]
  refine List.sum_le_card_nsmul _ 2 ?_
  intro effort heffort
  obtain ⟨thread, -, rfl⟩ := List.mem_map.mp heffort
  exact thread.effort_le _

theorem Becomes.sound (h : room.Becomes moves last) (hsound : room.Sound) : last.Sound :=
  run_of_run? h.1 ▸ hsound.run moves

/-- What is kept by every single move of threads that all want the same, and want no writing, is
kept by all the moves that they make by themselves. -/
theorem Becomes.induction {P : List (Move α) → Room α → Prop} (h : room.Becomes moves last)
    (hsound : room.Sound) (honly : room.Only op) (hroom : P [] room)
    (hstep : ∀ moves before move after, before.Sound → before.Only op → P moves before →
      before.Steps move after → move.isCall = false → P (moves ++ [move]) after) :
    P moves last := by
  obtain ⟨hrun, hcalls⟩ := h
  refine (run?_induction (P := fun moves last => (∀ move ∈ moves, move.isCall = false) →
    last.Sound ∧ last.Only op ∧ P moves last) (fun _ => ⟨hsound, honly, hroom⟩) ?_ hrun hcalls).2.2
  intro moves before move after hbefore hsteps hcalls
  obtain ⟨hcalls, hcall⟩ := List.forall_mem_append.mp hcalls
  obtain ⟨hsound, honly, hP⟩ := hbefore hcalls
  have hcall := List.forall_mem_singleton.mp hcall
  exact ⟨hsound.steps hsteps, honly.steps hsteps hcall,
    hstep _ _ _ _ hsound honly hP hsteps hcall⟩

theorem Only.written_eq (h : room.Only op) (hop : ∀ a, op ≠ .set a)
    (hsteps : room.Steps move next) (hcall : move.isCall = false) :
    written next.ended = written room.ended := by
  rcases hsteps.busy hcall with ⟨t, op', answer, ht, hlooks, hended, -⟩ | ⟨-, hended, -⟩
  · obtain rfl := h t op' ht
    rw [hended, hlooks.written_eq hop]
  · rw [hended]

/-- Threads that do not write make only so many moves by themselves. -/
theorem Becomes.length_add_effort (h : room.Becomes moves last) (hsound : room.Sound)
    (honly : room.Only op) (hop : ∀ a, op ≠ .set a) :
    moves.length + last.effort = room.effort := by
  refine h.induction (P := fun moves last => moves.length + last.effort = room.effort) hsound honly
    (Nat.zero_add _) ?_
  intro moves before move after hsound honly hsum hsteps hcall
  have heffort := hsound.effort_steps hsteps hcall (honly.written_eq hop hsteps hcall)
  rw [List.length_append, List.length_singleton]
  omega

/-! ## Who is left -/

theorem step?_look_ne_none (hthread : room.threads[t]? = some (.ready op)) :
    room.step? (.look t) ≠ none := by
  simp only [step?, hthread]
  split <;> simp

/-- When no thread can make a move by itself, those in the middle of an operation wait for the next
value. -/
theorem Sound.waits_of_rests (h : room.Sound) (hrests : room.Rests) (hop : room.op? t = some op) :
    room.cell.value = none ∧ room.Waits t op room.cell.latch := by
  obtain ⟨thread, hthread, hop⟩ := Option.bind_eq_some_iff.mp hop
  cases thread with
  | idle => cases hop
  | ready op' => exact absurd (hrests t).1 (step?_look_ne_none hthread)
  | parked op' latch =>
      obtain rfl := Option.some.inj hop
      have hasleep : room.cell.released latch = false := by
        have hwake := (hrests t).2
        simp only [step?, hthread] at hwake
        split at hwake
        · cases hwake
        · exact Bool.eq_false_iff.mpr ‹_›
      obtain ⟨hvalue, rfl⟩ := h.value_of_not_released hasleep
      exact ⟨hvalue, hthread⟩

/-- Threads that want to see the value leave with it, and leave the cell as it is. -/
theorem Becomes.peeked (h : room.Becomes moves last) (hsound : room.Sound)
    (honly : room.Only .peekBlocking) (hvalue : room.cell.value = some a) :
    last.cell = room.cell ∧ ∃ answers, last.ended = room.ended ++ answers ∧
      (answers ++ last.busy.map (sees a)).Perm (room.busy.map (sees a)) := by
  refine h.induction (P := fun _ last => last.cell = room.cell ∧ ∃ answers,
    last.ended = room.ended ++ answers ∧
      (answers ++ last.busy.map (sees a)).Perm (room.busy.map (sees a))) hsound honly
    ⟨rfl, [], (List.append_nil _).symm, List.Perm.refl _⟩ ?_
  rintro moves before move after - honly ⟨hcell, answers, hended, hperm⟩ hsteps hcall
  rcases hsteps.busy hcall with ⟨t, op, answer, ht, hlooks, hended', hops⟩ | ⟨hcell', hended', hops⟩
  · obtain rfl := honly t op ht
    have hbusy := (busy_perm_cons ht hops).map (sees a)
    obtain ⟨b, hb, rfl, hcell'⟩ := hlooks.of_peekBlocking
    rw [hcell] at hb
    obtain rfl : a = b := Option.some.inj (hvalue.symm.trans hb)
    refine ⟨hcell'.trans hcell, answers ++ [(t, .peekBlocking, .peeked (some a))], ?_, ?_⟩
    · rw [hended', hended, List.append_assoc]
    · rw [List.append_assoc]
      exact (hbusy.symm.append_left answers).trans hperm
  · refine ⟨hcell'.trans hcell, answers, hended'.trans hended, ?_⟩
    exact (((busy_perm hops).map _).symm.append_left answers).trans hperm

/-- Of the threads that want to have the value at most one leaves with it, and the others go on
waiting. -/
theorem Becomes.taken (h : room.Becomes moves last) (hsound : room.Sound)
    (honly : room.Only .takeBlocking) (hvalue : room.cell.value = some a) :
    (last.cell.value = some a ∧ room.busy.Perm last.busy) ∨
      last.cell.value = none ∧ ∃ t,
        last.ended = room.ended ++ [(t, .takeBlocking, .took (some a))] ∧
        room.busy.Perm ((t, .takeBlocking) :: last.busy) := by
  have hlast := h.induction (P := fun _ last =>
    (last.cell.value = some a ∧ last.ended = room.ended ∧ room.busy.Perm last.busy) ∨
      last.cell.value = none ∧ ∃ t,
        last.ended = room.ended ++ [(t, .takeBlocking, .took (some a))] ∧
        room.busy.Perm ((t, .takeBlocking) :: last.busy)) hsound honly
    (.inl ⟨hvalue, rfl, List.Perm.refl _⟩) ?_
  · exact hlast.imp_left fun ⟨hvalue, _, hperm⟩ => ⟨hvalue, hperm⟩
  rintro moves before move after - honly hbefore hsteps hcall
  rcases hsteps.busy hcall with ⟨t, op, answer, ht, hlooks, hended', hops⟩ | ⟨hcell', hended', hops⟩
  · obtain rfl := honly t op ht
    have hbusy := busy_perm_cons ht hops
    obtain ⟨b, hb, rfl, hempty⟩ := hlooks.of_takeBlocking
    rcases hbefore with ⟨hvalue, hended, hperm⟩ | ⟨hvalue, -⟩
    · obtain rfl : a = b := Option.some.inj (hvalue.symm.trans hb)
      exact .inr ⟨hempty, t, by rw [hended', hended], hperm.trans hbusy⟩
    · cases hvalue.symm.trans hb
  · have hbusy := busy_perm hops
    rcases hbefore with ⟨hvalue, hended, hperm⟩ | ⟨hvalue, t, hended, hperm⟩
    · exact .inl ⟨by rw [hcell', hvalue], hended'.trans hended, hperm.trans hbusy⟩
    · exact .inr ⟨by rw [hcell', hvalue], t, hended'.trans hended, hperm.trans (hbusy.cons _)⟩

end Room

end TxPipeline.Cell
