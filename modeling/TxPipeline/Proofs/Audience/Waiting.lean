import TxPipeline.Proofs.Audience.Answers
import TxPipeline.Proofs.Slots
import TxPipeline.Proofs.Termination

/-!
# Nobody waits for a result in vain

As long as nobody asks to finish the started block, no cell is emptied. A call that has found its
cell then has only so many moves to make, however often others ask and whoever moves before it. And
when the pipeline has come to rest, every result is there, so that no call of the block is left
waiting.
-/

namespace TxPipeline

variable {F : Flow} {handlers : List (Handler F)} {past : List (Work F)} {work : Work F}
  {p q : Pipeline F} {actor : Actor} {c h i k : Nat} {cell cell' : Cell (TxResult F.Output)}
  {state state' : Asking F}

/-- Whether the call finishes a block. -/
def Call.isFinishing : Call F → Bool
  | .finish _ _ _ _ => true
  | _ => false

theorem Call.Turns.isFinishing {call next : Call F} (hturns : call.Turns next)
    (hcall : call.isFinishing = false) : next.isFinishing = false := by
  cases hturns with
  | finish => cases hcall
  | _ => rfl

namespace Pipeline

/-! ## A block that nobody finishes -/

/-- The block of `work` is started, and no call is there to finish it. -/
structure Standing (handlers : List (Handler F)) (past : List (Work F)) (work : Work F)
    (p : Pipeline F) : Prop where
  during : p.During False handlers past work .started
  unasked : ∀ call ∈ p.calls, call.isFinishing = false

namespace Standing

variable (hp : p.Standing handlers past work)

include hp

theorem proceeds (hstep : p.step? actor = some q) : p.Proceeds False actor :=
  ⟨fun hcalm => hcalm.elim, .inr (hp.during.cutsShort_of_started hstep)⟩

theorem step? (hstep : p.step? actor = some q) : q.Standing handlers past work where
  during := by
    rcases hp.during.step?_started (hp.proceeds hstep) hstep with
      hq | ⟨f, store, block, receipts, hcall, -⟩
    · exact hq
    · cases hp.unasked _ (List.mem_of_getElem? hcall)
  unasked := by
    intro call hmem
    obtain ⟨i, hi⟩ := List.mem_iff_getElem?.mp hmem
    obtain ⟨old, hold, hturns⟩ := exists_turned_of_step? hstep hi
    exact hturns.isFinishing (hp.unasked old (List.mem_of_getElem? hold))

/-- No cell is emptied. -/
theorem isSet_of_step? {slot : Slot} (hstep : p.step? actor = some q)
    (hset : p.isSet h slot = true) : q.isSet h slot = true := by
  obtain ⟨phase', -, hadvance⟩ := hp.during.advance_started (hp.proceeds hstep) hstep
  have hfills : p.Fills actor q := by
    cases hadvance with
    | thread _ hactor => exact fills_of_stepThread? hactor hstep
    | aside _ haside => exact .of_eq haside.stations_eq
    | take _ _ _ _ haside => exact .of_eq haside.stations_eq
  obtain ⟨filled, hiff, -⟩ := hfills
  exact (hiff h slot).mpr (.inl hset)

theorem aftermath : p.Aftermath handlers past work := .served .started hp.during rfl

theorem deny?_eq_none (c : Nat) (reason : String) : p.deny? c reason = none :=
  hp.during.deny?_eq_none c reason

/-- When no thread can move, every result can be read. -/
theorem holdsResults (horderly : p.Orderly) (hbefore : ∀ handler ∈ handlers, ∃ common,
      handler.beforeBlock work.store work.rules work.block = .ok common) (hhalted : p.Halted) :
    p.HoldsResults handlers work := by
  have hload := hp.during.load_eq_zero_of_halted (by simp) hhalted hbefore horderly
  exact hp.during.holdsResults (by simp) hload fun h => ⟨_, rfl, rfl⟩

end Standing

theorem Chronicle.standing {ts : List (Task F)} (hq : Chronicle False handlers ts q)
    (htask : ts[c]? = some work.task)
    (hstarted : q.calls[c]? = some (.returned (.started (.ok ())))) (hover : ¬ q.Over c)
    (hunasked : ∀ call ∈ q.calls, call.isFinishing = false) :
    ∃ past, q.Standing handlers past work := by
  obtain ⟨past, phase, hp, hphase⟩ := hq.exists_attended htask hstarted hover
  cases phase with
  | starting | abandoned => cases hphase
  | started => exact ⟨past, hp, hunasked⟩
  | finishing f origin store block receipts next =>
      cases hunasked _ (List.mem_of_getElem? hp.finish_eq)

end Pipeline

/-! ## What is left to do for a call -/

/-- How many moves a call has left at `cell`, while that is not emptied. Who waits on a latch that
was released long ago has to look again at an empty cell. -/
def Asking.effort (cell : Cell (TxResult F.Output)) : Asking F → Nat
  | .ready => if cell.isSet then 1 else 3
  | .parked latch => if !cell.isSet && cell.released latch then 4 else 2
  | _ => 0

theorem Asking.effort_le (state : Asking F) (cell : Cell (TxResult F.Output)) :
    state.effort cell ≤ 4 := by
  cases state with
  | ready | parked =>
      simp only [effort]
      split <;> omega
  | answered | failed => exact Nat.zero_le 4

theorem Asking.Goes.effort_lt (h : state.Goes cell state') (hlatched : cell.Latched) :
    state'.effort cell < state.effort cell := by
  cases h with
  | answer r hvalue => simp [Asking.effort, Cell.isSet, hvalue]
  | park hvalue =>
      have hset : cell.isSet = false := by rw [Cell.isSet, hvalue, Option.isSome_none]
      have hheld : cell.released cell.latch = false := by
        rw [Bool.eq_false_iff, Ne, hlatched.released_iff, hset]
        simp
      simp [Asking.effort, hset, hheld]
  | wake latch hreleased => cases hset : cell.isSet <;> simp [Asking.effort, hset, hreleased]

theorem Cell.Turns.effort_le (h : cell.Turns cell') (hset : cell.isSet = true → cell'.isSet = true)
    (state : Asking F) : state.effort cell' ≤ state.effort cell := by
  cases h with
  | stay => exact le_rfl
  | set a h =>
      obtain ⟨hnone, hsome⟩ := Cell.value_of_set? h
      have hempty : cell.isSet = false := by rw [Cell.isSet, hnone, Option.isSome_none]
      have hfull : cell'.isSet = true := by rw [Cell.isSet, hsome, Option.isSome_some]
      cases state with
      | parked latch =>
          simp only [Asking.effort, hempty, hfull]
          cases cell.released latch <;> simp
      | _ => simp [Asking.effort, hempty, hfull]
  | take a h =>
      obtain ⟨hvalue, hnone⟩ := Cell.eq_of_take? h
      have hempty : cell'.isSet = true := hset (by rw [Cell.isSet, hvalue, Option.isSome_some])
      rw [Cell.isSet, hnone] at hempty
      cases hempty

theorem Cell.Turns.latched (h : cell.Turns cell') (hlatched : cell.Latched) : cell'.Latched := by
  cases h with
  | stay => exact hlatched
  | set a h => exact latched_of_set? h
  | take a h => exact latched_of_take? h

namespace Audience

variable {a b : Audience F} {move : Move F} {more : List (Move F)} {before : List (Inquiry F)}
  {inquiry : Inquiry F}

theorem LooksAt.isSet_eq (ha : a.LooksAt k inquiry cell) :
    a.pipeline.isSet inquiry.handler (.result inquiry.index) = cell.isSet := by
  obtain ⟨s, hs, hcell⟩ := ha.cell_eq
  rw [Pipeline.isSet, hs, Option.any_some, Station.isSet, valueAt, hcell]
  rfl

theorem standing_of_move? (hp : a.pipeline.Standing handlers past work)
    (hcall : ∀ task, move ≠ .pipeline (.call task)) (hmove : a.move? move = some b) :
    b.pipeline.Standing handlers past work ∧ ∀ h slot, a.pipeline.isSet h slot = true →
      b.pipeline.isSet h slot = true := by
  rcases pipeline_of_move? hmove with ⟨m, rfl, hm, -⟩ | ⟨-, heq⟩
  · cases m with
    | call task => exact absurd rfl (hcall task)
    | act actor => exact ⟨hp.step? hm, fun h slot => hp.isSet_of_step? hm⟩
    | deny c reason => cases (hp.deny?_eq_none c reason).symm.trans hm
  · rw [heq]
    exact ⟨hp, fun h slot hset => hset⟩

/-- A move of the call takes away from what it has left to do, and no other move adds to it. -/
theorem LooksAt.effort_move? (ha : a.LooksAt k inquiry cell)
    (hp : a.pipeline.Standing handlers past work) (hlatched : cell.Latched)
    (hcall : ∀ task, move ≠ .pipeline (.call task)) (hmove : a.move? move = some b) :
    ∃ state cell', b.LooksAt k { inquiry with state } cell' ∧ cell'.Latched ∧
      (state.effort cell' + if move.isPursuit k then 1 else 0) ≤ inquiry.state.effort cell := by
  rcases ha.move? hmove with ⟨hpursuit, cell', hturns, hb⟩ | ⟨rfl, -, state, hgoes, hb⟩
  · refine ⟨inquiry.state, cell', hb, hturns.latched hlatched, ?_⟩
    rw [hpursuit, if_neg Bool.false_ne_true, add_zero]
    apply hturns.effort_le
    rw [← ha.isSet_eq, ← hb.isSet_eq]
    exact (standing_of_move? hp hcall hmove).2 _ _
  · refine ⟨state, cell, hb, hlatched, ?_⟩
    rw [Move.isPursuit, beq_self_eq_true, if_pos rfl]
    exact hgoes.effort_lt hlatched

/-- While the block stands, a call makes no more moves than it has left. -/
theorem LooksAt.effort_run? (ha : a.LooksAt k inquiry cell)
    (hp : a.pipeline.Standing handlers past work) (hlatched : cell.Latched)
    (hcalls : ∀ task, .pipeline (.call task) ∉ more) (hrun : a.run? more = some b) :
    b.pipeline.Standing handlers past work ∧
      ∃ state cell', b.LooksAt k { inquiry with state } cell' ∧ cell'.Latched ∧
        state.effort cell' + more.countP (Move.isPursuit k) ≤ inquiry.state.effort cell := by
  induction more generalizing a inquiry cell with
  | nil =>
      cases hrun
      exact ⟨hp, inquiry.state, cell, ha, hlatched, le_rfl⟩
  | cons move rest ih =>
      obtain ⟨next, hmove, hrest⟩ := Option.bind_eq_some_iff.mp hrun
      have hcall : ∀ task, move ≠ .pipeline (.call task) := fun task heq =>
        hcalls task (heq ▸ List.mem_cons_self)
      obtain ⟨state, cell', hnext, hlatched', hle⟩ := ha.effort_move? hp hlatched hcall hmove
      obtain ⟨hb, state', cell'', hlooks, hlatched'', hle'⟩ :=
        ih hnext (standing_of_move? hp hcall hmove).1 hlatched'
          (fun task hmem => hcalls task (List.mem_cons_of_mem _ hmem)) hrest
      refine ⟨hb, state', cell'', hlooks, hlatched'', ?_⟩
      rw [List.countP_cons, ← Nat.add_assoc]
      exact (Nat.add_le_add_right hle' _).trans hle

/-- The answers of a run in which the block stands. -/
theorem Hears.run? (ha : a.Hears handlers work past.length before)
    (hp : a.pipeline.Standing handlers past work)
    (hcalls : ∀ task, .pipeline (.call task) ∉ more) (hrun : a.run? more = some b) :
    b.Hears handlers work past.length before := by
  have hb : b.pipeline.Standing handlers past work ∧ b.Hears handlers work past.length before := by
    refine run?_induction (P := fun a => a.pipeline.Standing handlers past work ∧
      a.Hears handlers work past.length before) hrun ⟨hp, ha⟩ ?_
    rintro a move hmem b ⟨hp, ha⟩ hmove
    constructor
    · exact (standing_of_move? hp (fun task heq => hcalls task (heq ▸ hmem)) hmove).1
    · exact ha.move? hp.during hmove
  exact hb.2

/-- While the block stands and nobody asks anything of the pipeline, only its threads move it. -/
theorem filterMap_pipeline? (hp : a.pipeline.Standing handlers past work)
    (hcalls : ∀ task, .pipeline (.call task) ∉ more) (hrun : a.run? more = some b) :
    more.filterMap Move.pipeline? = (more.filterMap Move.actor?).map .act := by
  induction more generalizing a with
  | nil => rfl
  | cons move rest ih =>
      obtain ⟨next, hmove, hrest⟩ := Option.bind_eq_some_iff.mp hrun
      have hcall : ∀ task, move ≠ .pipeline (.call task) := fun task heq =>
        hcalls task (heq ▸ List.mem_cons_self)
      have ih := ih (standing_of_move? hp hcall hmove).1
        (fun task hmem => hcalls task (List.mem_cons_of_mem _ hmem)) hrest
      cases move with
      | pipeline m =>
          cases m with
          | call task => exact absurd rfl (hcall task)
          | act actor => exact congrArg (List.cons (.act actor)) ih
          | deny c reason =>
              obtain ⟨_, hdeny, -⟩ := Option.map_eq_some_iff.mp hmove
              cases (hp.deny?_eq_none c reason).symm.trans hdeny
      | ask h i => exact ih
      | pursue k => exact ih

/-- If neither a thread of the pipeline nor the call can move, the call was answered. -/
theorem LooksAt.exists_answer (ha : a.LooksAt k ⟨h, i, state⟩ cell)
    (hlatched : cell.Latched) (hnot : ∀ fault, state ≠ .failed fault) {r : TxResult F.Output}
    (hresult : a.pipeline.result? h i = .ok (some r)) (hstays : a.move? (.pursue k) = none) :
    ∃ r, a.inquiries[k]? = some ⟨h, i, .answered r⟩ := by
  obtain ⟨s, hs, hcell⟩ := ha.cell_eq
  have hvalue : cell.value = some r := by
    simp only [Pipeline.result?, hs, Station.result?] at hresult
    split at hresult
    · have hcell : s.results[i]? = some cell := hcell
      rw [hcell] at hresult
      exact Except.ok.inj hresult
    · cases hresult
  have hnone : s.pursue? i state = none := by
    apply Option.eq_none_iff_forall_ne_some.mpr
    change a.pursue? k = none at hstays
    rw [Audience.pursue?, ha.inquiry_eq] at hstays
    simpa [hs] using hstays
  cases state with
  | answered r' => exact ⟨r', ha.inquiry_eq⟩
  | failed fault => exact absurd rfl (hnot fault)
  | ready =>
      simp only [Station.pursue?, hcell, hvalue] at hnone
      cases hnone
  | parked latch =>
      -- the latch of a set cell was released
      have hreleased : cell.released latch = true := by
        rw [hlatched.released_iff, Cell.isSet, hvalue]
        exact .inl rfl
      simp only [Station.pursue?, hcell, hreleased] at hnone
      cases hnone

end Audience

end TxPipeline
