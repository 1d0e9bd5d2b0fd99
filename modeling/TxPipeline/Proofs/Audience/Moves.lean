import TxPipeline.Pipeline.Audience
import TxPipeline.Proofs.Cell.Moves
import TxPipeline.Proofs.Stations

/-!
# Calls for results among all that happens

Those who ask for results are no part of a pipeline: leave their moves out of a run, and what is
left is a run of the pipeline. The other way round, a pipeline does nothing to a call but to change
the cell at which it looks.
-/

namespace TxPipeline

variable {F : Flow}

/-! ## Cells -/

/-- What one move can make of a cell. -/
inductive Cell.Turns {α : Type} : Cell α → Cell α → Prop
  | stay (cell : Cell α) : Turns cell cell
  | set {cell cell' : Cell α} (a : α) (h : cell.set? a = some cell') : Turns cell cell'
  | take {cell cell' : Cell α} (a : α) (h : cell.take? = some (a, cell')) : Turns cell cell'

namespace Station

variable {s s' : Station F} {i j : Nat} {cell : Cell (TxResult F.Output)}

theorem exists_turned_of_set {results : List (Cell (TxResult F.Output))}
    {old next : Cell (TxResult F.Output)} (hold : results[j]? = some old) (hturns : old.Turns next)
    (hcell : results[i]? = some cell) :
    ∃ cell', (results.set j next)[i]? = some cell' ∧ cell.Turns cell' := by
  by_cases hij : j = i
  · subst hij
    obtain rfl : old = cell := Option.some.inj (hold.symm.trans hcell)
    exact ⟨next, List.getElem?_set_self (List.getElem?_eq_some_iff.mp hcell).1, hturns⟩
  · exact ⟨cell, (List.getElem?_set_ne hij).trans hcell, .stay cell⟩

theorem Edits.exists_turned_result (h : s.Edits s') (hcell : s.results[i]? = some cell) :
    ∃ cell', s'.results[i]? = some cell' ∧ cell.Turns cell' := by
  cases h with
  | stay | keep | closeBlock => exact ⟨cell, hcell, .stay cell⟩
  | announce r h =>
      obtain ⟨-, lanes, rfl, -⟩ := eq_of_announce h
      exact ⟨cell, hcell, .stay cell⟩
  | deposit j data h =>
      obtain ⟨old, next, -, -, rfl⟩ := eq_of_deposit h
      exact ⟨cell, hcell, .stay cell⟩
  | takeAggregate a h =>
      obtain ⟨next, -, rfl⟩ := eq_of_takeAggregate? h
      exact ⟨cell, hcell, .stay cell⟩
  | settle r h =>
      obtain ⟨old, next, hold, hset, rfl⟩ := eq_of_settle h
      exact exists_turned_of_set hold (.set r hset) hcell
  | drain j h =>
      obtain ⟨old, taken, next, hold, htake, rfl⟩ := eq_of_drain? h
      exact exists_turned_of_set hold (.take taken htake) hcell

/-- The cell of a result is never lost. -/
theorem Turns.exists_turned_result (h : s.Turns s') (hcell : s.results[i]? = some cell) :
    ∃ cell', s'.results[i]? = some cell' ∧ cell.Turns cell' := by
  cases h with
  | edit h => exact h.exists_turned_result hcell
  | openBlock n =>
      have hlt := (List.getElem?_eq_some_iff.mp hcell).1
      exact ⟨cell, (List.getElem?_append_left hlt).trans hcell, .stay cell⟩
  | prepare | aggregate => exact ⟨cell, hcell, .stay cell⟩
  | preparation lane h =>
      cases preparationMove_of_stepPreparation? h <;> exact ⟨cell, hcell, .stay cell⟩
  | replay lane h =>
      cases replayMove_of_stepReplay? h <;> exact ⟨cell, hcell, .stay cell⟩
  | aggregation lane h =>
      cases aggregationMove_of_stepAggregation? h with
      | read l feed source reader hl hreading hfeed hmove =>
          cases hmove <;> exact ⟨cell, hcell, .stay cell⟩
      | _ => exact ⟨cell, hcell, .stay cell⟩

end Station

/-! ## One call -/

/-- One move of a call that looks at `cell`. -/
inductive Asking.Goes (cell : Cell (TxResult F.Output)) : Asking F → Asking F → Prop
  | answer (r : TxResult F.Output) (hvalue : cell.value = some r) : Goes cell .ready (.answered r)
  | park (hvalue : cell.value = none) : Goes cell .ready (.parked cell.latch)
  | wake (latch : Nat) (hreleased : cell.released latch = true) : Goes cell (.parked latch) .ready

/-- Whether the call has come to its end. -/
def Asking.isOver : Asking F → Bool
  | .answered _ => true
  | .failed _ => true
  | _ => false

namespace Station

variable {s : Station F} {i : Nat} {state state' : Asking F} {cell : Cell (TxResult F.Output)}

theorem goes_of_pursue? (hcell : s.results[i]? = some cell)
    (h : s.pursue? i state = some state') : state.Goes cell state' := by
  cases state with
  | ready =>
      simp only [pursue?, hcell] at h
      split at h <;> cases h
      · exact .park ‹_›
      · exact .answer _ ‹_›
  | parked latch =>
      simp only [pursue?, hcell] at h
      split at h <;> cases h
      exact .wake latch ‹_›
  | answered r => cases h
  | failed fault => cases h

theorem isOver_eq_false_of_pursue? (h : s.pursue? i state = some state') :
    state.isOver = false := by
  cases state with
  | answered r => cases h
  | failed fault => cases h
  | _ => rfl

end Station

namespace Audience

variable {a b : Audience F} {move : Move F} {moves more : List (Move F)} {k h i : Nat}
  {inquiry : Inquiry F} {s : Station F} {cell : Cell (TxResult F.Output)}

/-- The move of the pipeline, if it makes one. -/
def Move.pipeline? : Move F → Option (Pipeline.Move F)
  | .pipeline move => some move
  | _ => none

/-- The actor of the pipeline that moves, if one does. -/
def Move.actor? : Move F → Option Actor
  | .pipeline (.act actor) => some actor
  | _ => none

def Move.isPursuit (k : Nat) : Move F → Bool
  | .pursue j => j == k
  | _ => false

/-! ## One move -/

theorem pursue?_eq_some (h : a.pursue? k = some b) :
    ∃ inquiry s state, a.inquiries[k]? = some inquiry ∧
      a.pipeline.stations[inquiry.handler]? = some s ∧
      s.pursue? inquiry.index inquiry.state = some state ∧
      b = { a with inquiries := a.inquiries.set k { inquiry with state } } := by
  obtain ⟨inquiry, hinquiry, h⟩ := Option.bind_eq_some_iff.mp h
  obtain ⟨s, hs, h⟩ := Option.bind_eq_some_iff.mp h
  obtain ⟨state, hstate, h⟩ := Option.bind_eq_some_iff.mp h
  cases h
  exact ⟨inquiry, s, state, hinquiry, hs, hstate, rfl⟩

/-- A pipeline is moved by its own moves and by nothing else. -/
theorem pipeline_of_move? (hmove : a.move? move = some b) :
    (∃ m, move = .pipeline m ∧ a.pipeline.move? m = some b.pipeline ∧ b.inquiries = a.inquiries) ∨
      move.pipeline? = none ∧ b.pipeline = a.pipeline := by
  cases move with
  | pipeline m =>
      obtain ⟨p, hp, rfl⟩ := Option.map_eq_some_iff.mp hmove
      exact .inl ⟨m, rfl, hp, rfl⟩
  | ask h i =>
      obtain ⟨s, -, rfl⟩ := Option.map_eq_some_iff.mp hmove
      exact .inr ⟨rfl, rfl⟩
  | pursue k =>
      obtain ⟨inquiry, s, state, -, -, -, rfl⟩ := pursue?_eq_some hmove
      exact .inr ⟨rfl, rfl⟩

/-- A call stays as it is unless it moves itself. -/
theorem getElem?_inquiries_of_move? (hmove : a.move? move = some b)
    (hk : a.inquiries[k]? = some inquiry) :
    b.inquiries[k]? = some inquiry ∧ move.isPursuit k = false ∨
      move = .pursue k ∧ ∃ s state, a.pipeline.stations[inquiry.handler]? = some s ∧
        s.pursue? inquiry.index inquiry.state = some state ∧
        b.inquiries[k]? = some { inquiry with state } := by
  have hlt := (List.getElem?_eq_some_iff.mp hk).1
  cases move with
  | pipeline m =>
      obtain ⟨p, -, rfl⟩ := Option.map_eq_some_iff.mp hmove
      exact .inl ⟨hk, rfl⟩
  | ask h i =>
      obtain ⟨s, -, rfl⟩ := Option.map_eq_some_iff.mp hmove
      exact .inl ⟨(List.getElem?_append_left hlt).trans hk, rfl⟩
  | pursue j =>
      obtain ⟨other, s, state, hother, hs, hstate, rfl⟩ := pursue?_eq_some hmove
      by_cases hj : j = k
      · subst hj
        obtain rfl : other = inquiry := Option.some.inj (hother.symm.trans hk)
        exact .inr ⟨rfl, s, state, hs, hstate, List.getElem?_set_self hlt⟩
      · exact .inl ⟨(List.getElem?_set_ne hj).trans hk, beq_false_of_ne hj⟩

theorem exists_turned_of_move? (hmove : a.move? move = some b)
    (hs : a.pipeline.stations[h]? = some s) :
    ∃ s', b.pipeline.stations[h]? = some s' ∧ s.Turns s' := by
  rcases pipeline_of_move? hmove with ⟨m, -, hm, -⟩ | ⟨-, heq⟩
  · cases m with
    | call task =>
        rw [← Option.some.inj hm]
        exact ⟨s, hs, .edit (.stay s)⟩
    | act actor =>
        have hevolves := Pipeline.evolves_of_step? hm
        obtain ⟨hlt, rfl⟩ := List.getElem?_eq_some_iff.mp hs
        have hlt' := hevolves.length_eq ▸ hlt
        exact ⟨_, List.getElem?_eq_getElem hlt', hevolves.get hlt hlt'⟩
    | deny c reason =>
        obtain ⟨_, _, _, _, heq⟩ := Pipeline.eq_of_deny? hm
        rw [heq]
        exact ⟨s, hs, .edit (.stay s)⟩
  · rw [heq]
    exact ⟨s, hs, .edit (.stay s)⟩

/-- Call `k` is `inquiry`, and it looks at `cell` when it looks. -/
structure LooksAt (a : Audience F) (k : Nat) (inquiry : Inquiry F)
    (cell : Cell (TxResult F.Output)) : Prop where
  inquiry_eq : a.inquiries[k]? = some inquiry
  cell_eq : ∃ s, a.pipeline.stations[inquiry.handler]? = some s ∧
    s.results[inquiry.index]? = some cell

/-- Either the call moves, or its cell may. -/
theorem LooksAt.move? (ha : a.LooksAt k inquiry cell) (hmove : a.move? move = some b) :
    (move.isPursuit k = false ∧ ∃ cell', cell.Turns cell' ∧ b.LooksAt k inquiry cell') ∨
      move = .pursue k ∧ b.pipeline = a.pipeline ∧ ∃ state, inquiry.state.Goes cell state ∧
        b.LooksAt k { inquiry with state } cell := by
  obtain ⟨s, hs, hcell⟩ := ha.cell_eq
  rcases getElem?_inquiries_of_move? hmove ha.inquiry_eq with
    ⟨hk, hpursuit⟩ | ⟨rfl, s', state, hs', hstate, hk⟩
  · obtain ⟨s', hs', hturns⟩ := exists_turned_of_move? hmove hs
    obtain ⟨cell', hcell', hturned⟩ := hturns.exists_turned_result hcell
    exact .inl ⟨hpursuit, cell', hturned, hk, s', hs', hcell'⟩
  · obtain rfl : s' = s := Option.some.inj (hs'.symm.trans hs)
    have heq : b.pipeline = a.pipeline := by
      rcases pipeline_of_move? hmove with ⟨m, hm, -⟩ | ⟨-, heq⟩
      · cases hm
      · exact heq
    refine .inr ⟨rfl, heq, state, Station.goes_of_pursue? hcell hstate, hk, s', ?_, hcell⟩
    rw [heq]
    exact hs

/-! ## Runs -/

/-- What its moves keep, a run keeps. -/
theorem run?_induction {P : Audience F → Prop} (hrun : a.run? moves = some b) (ha : P a)
    (hstep : ∀ a, ∀ move ∈ moves, ∀ b, P a → a.move? move = some b → P b) : P b := by
  induction moves generalizing a with
  | nil =>
      cases hrun
      exact ha
  | cons move rest ih =>
      obtain ⟨next, hmove, hrest⟩ := Option.bind_eq_some_iff.mp hrun
      apply ih hrest
      · exact hstep a move List.mem_cons_self next ha hmove
      · exact fun a move hmem => hstep a move (List.mem_cons_of_mem _ hmem)

/-- Without the calls for results, a run of an audience is a run of its pipeline. -/
theorem pipeline_of_run? (hrun : a.run? moves = some b) :
    a.pipeline.run? (moves.filterMap Move.pipeline?) = some b.pipeline := by
  induction moves generalizing a with
  | nil =>
      cases hrun
      rfl
  | cons move rest ih =>
      obtain ⟨next, hmove, hrest⟩ := Option.bind_eq_some_iff.mp hrun
      rcases pipeline_of_move? hmove with ⟨m, rfl, hm, -⟩ | ⟨hnone, heq⟩
      · have hfilter : (Move.pipeline m :: rest).filterMap Move.pipeline? =
            m :: rest.filterMap Move.pipeline? := rfl
        rw [hfilter, Pipeline.run?, hm]
        exact ih hrest
      · rw [List.filterMap_cons_none hnone, ← heq]
        exact ih hrest

/-- A call that has come to its end stays as it is. -/
theorem getElem?_of_isOver (hrun : a.run? moves = some b) (hk : a.inquiries[k]? = some inquiry)
    (hover : inquiry.state.isOver = true) : b.inquiries[k]? = some inquiry := by
  refine run?_induction (P := fun a => a.inquiries[k]? = some inquiry) hrun hk ?_
  intro a move _ b hk hmove
  rcases getElem?_inquiries_of_move? hmove hk with ⟨hk, -⟩ | ⟨-, s, state, -, hstate, -⟩
  · exact hk
  · rw [Station.isOver_eq_false_of_pursue? hstate] at hover
    cases hover

/-- A call that has found its cell never misses it. -/
theorem LooksAt.run? (ha : a.LooksAt k inquiry cell)
    (hnot : ∀ fault, inquiry.state ≠ .failed fault) (hrun : a.run? moves = some b) :
    ∃ state cell', b.LooksAt k { inquiry with state } cell' ∧ ∀ fault, state ≠ .failed fault := by
  refine run?_induction (P := fun a => ∃ state cell', a.LooksAt k { inquiry with state } cell' ∧
    ∀ fault, state ≠ .failed fault) hrun ⟨_, cell, ha, hnot⟩ ?_
  rintro a move - b ⟨state, cell, ha, hnot⟩ hmove
  rcases ha.move? hmove with ⟨-, cell', -, hb⟩ | ⟨-, -, state', hgoes, hb⟩
  · exact ⟨state, cell', hb, hnot⟩
  · refine ⟨state', cell, hb, ?_⟩
    rintro fault rfl
    cases hgoes

/-! ## When a call fails -/

/-- Of the calls that ask for a result of handler `h` now, those and only those fail whose position
is not below `n`, whatever else happens. -/
def FailsFrom (a : Audience F) (h n : Nat) : Prop :=
  ∀ i, (∃ b, a.move? (.ask h i) = some b) ∧ ∀ more b, a.run? (.ask h i :: more) = some b →
    ∃ state, b.inquiries[a.inquiries.length]? = some ⟨h, i, state⟩ ∧
      ∀ fault, state = .failed fault ↔ n ≤ i ∧ fault = .outsideBlock i n

theorem failsFrom_blockLength (hs : a.pipeline.stations[h]? = some s)
    (hle : s.blockLength ≤ s.results.length) : a.FailsFrom h s.blockLength := by
  intro i
  have hask : a.move? (.ask h i) =
      some { a with inquiries := a.inquiries ++ [⟨h, i, s.ask i⟩] } := by
    rw [Audience.move?, hs]
    rfl
  refine ⟨⟨_, hask⟩, ?_⟩
  intro more b hrun
  rw [Audience.run?, hask, Option.bind_some] at hrun
  have hk : (a.inquiries ++ [⟨h, i, s.ask i⟩])[a.inquiries.length]? = some ⟨h, i, s.ask i⟩ :=
    List.getElem?_concat_length
  by_cases hi : i < s.blockLength
  · -- the call has found its cell, and whatever comes it is there
    rw [Station.ask, if_pos hi] at hrun hk
    obtain ⟨state, cell, hb, hnot⟩ := LooksAt.run?
      ⟨hk, s, hs, List.getElem?_eq_getElem (hi.trans_le hle)⟩ (by simp) hrun
    refine ⟨state, hb.inquiry_eq, ?_⟩
    intro fault
    constructor
    · exact fun hstate => absurd hstate (hnot fault)
    · exact fun hfault => absurd hi (not_lt.mpr hfault.1)
  · rw [Station.ask, if_neg hi] at hrun hk
    refine ⟨_, getElem?_of_isOver hrun hk rfl, ?_⟩
    intro fault
    constructor
    · intro hstate
      cases hstate
      exact ⟨not_lt.mp hi, rfl⟩
    · rintro ⟨-, rfl⟩
      rfl

end Audience

end TxPipeline
