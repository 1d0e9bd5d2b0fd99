import TxPipeline.Proofs.Cell.Moves
import TxPipeline.Proofs.Independence
import TxPipeline.Proofs.Stations

/-!
# Quiescence between blocks

When the call that finishes a block returns, nothing works on that block any more, and the stations
are as good as new: every cell is empty and can be waited for again, also where no transaction of
this block but one of a longer block before it had its place.

That cells are empty is what the invariant says. That they can be waited for is kept by every move
for itself: a cell gives up the sending end of its latch when it is written, and gets a fresh latch
when it is emptied.
-/

namespace TxPipeline

variable {F : Flow}

namespace Station

/-- All cells of the station are latched. -/
structure Latched (s : Station F) : Prop where
  common : s.common.Latched
  aggregated : s.aggregated.Latched
  data : ∀ cell ∈ s.data, cell.Latched
  results : ∀ cell ∈ s.results, cell.Latched

theorem latched_create (handler : Handler F) : (create handler).Latched where
  common := rfl
  aggregated := rfl
  data := fun _ h => absurd h List.not_mem_nil
  results := fun _ h => absurd h List.not_mem_nil

variable {s s' : Station F} {lane i : Nat}

theorem latched_extend {α : Type} {cells : List (Cell α)} (h : ∀ cell ∈ cells, cell.Latched)
    (n : Nat) : ∀ cell ∈ cells ++ List.replicate n .empty, cell.Latched := by
  intro cell hcell
  rcases List.mem_append.mp hcell with hcell | hcell
  · exact h cell hcell
  · rw [List.eq_of_mem_replicate hcell]
    exact Cell.latched_armed 0

theorem latched_set {α : Type} {cells : List (Cell α)} {cell : Cell α}
    (h : ∀ cell ∈ cells, cell.Latched) (hcell : cell.Latched) :
    ∀ other ∈ cells.set i cell, other.Latched := by
  intro other hother
  rcases List.mem_or_eq_of_mem_set hother with hother | rfl
  · exact h other hother
  · exact hcell

theorem Latched.announce {r : TxResult F.Output} (h : s.Latched)
    (hannounce : s.announce r = .ok s') : s'.Latched := by
  obtain ⟨-, lanes, rfl, -⟩ := eq_of_announce hannounce
  exact { h with }

theorem Latched.settle {r : TxResult F.Output} (h : s.Latched) (hsettle : s.settle r = .ok s') :
    s'.Latched := by
  obtain ⟨cell, cell', -, hset, rfl⟩ := eq_of_settle hsettle
  exact { h with results := latched_set h.results (Cell.latched_of_set? hset) }

theorem Latched.deposit {data : Option F.Data} (h : s.Latched)
    (hdeposit : s.deposit i data = .ok s') : s'.Latched := by
  obtain ⟨cell, cell', -, hset, rfl⟩ := eq_of_deposit hdeposit
  exact { h with data := latched_set h.data (Cell.latched_of_set? hset) }

theorem Latched.drain? (h : s.Latched) (hdrain : s.drain? i = some s') : s'.Latched := by
  obtain ⟨cell, r, cell', -, htake, rfl⟩ := eq_of_drain? hdrain
  exact { h with results := latched_set h.results (Cell.latched_of_take? htake) }

theorem Latched.takeAggregate? {a : F.Aggregate} (h : s.Latched)
    (htake : s.takeAggregate? = some (a, s')) : s'.Latched := by
  obtain ⟨cell, hcell, rfl⟩ := eq_of_takeAggregate? htake
  exact { h with aggregated := Cell.latched_of_take? hcell }

theorem Latched.closeBlock (h : s.Latched) : s.closeBlock.Latched where
  common := h.common.reset
  aggregated := h.aggregated.reset
  data := by
    intro cell hcell
    obtain ⟨old, hold, rfl⟩ := List.mem_map.mp hcell
    exact (h.data old hold).reset
  results := h.results

theorem Latched.stepPreparation? (h : s.Latched) (hstep : s.stepPreparation? lane = some s') :
    s'.Latched := by
  cases preparationMove_of_stepPreparation? hstep with
  | fault | alreadySet => exact { h with }
  | write l store rules block common cell hl hready hok hset =>
      exact { h with common := Cell.latched_of_set? hset }

theorem Latched.stepReplay? (h : s.Latched) (hstep : s.stepReplay? lane = some s') :
    s'.Latched := by
  cases replayMove_of_stepReplay? hstep <;> exact { h with }

theorem Latched.stepAggregation? (h : s.Latched) (hstep : s.stepAggregation? lane = some s') :
    s'.Latched := by
  cases aggregationMove_of_stepAggregation? hstep with
  | read l feed source reader hl hreading hfeed hmove => cases hmove <;> exact { h with }
  | write l a cell hl hjoining hended hset =>
      exact { h with aggregated := Cell.latched_of_set? hset }
  | _ => exact { h with }

theorem Latched.edits (h : s.Latched) (hedits : s.Edits s') : s'.Latched := by
  cases hedits with
  | stay => exact h
  | announce r ha => exact h.announce ha
  | settle r hset => exact h.settle hset
  | deposit i data hd => exact h.deposit hd
  | keep => exact { h with }
  | drain i hd => exact h.drain? hd
  | takeAggregate a ht => exact h.takeAggregate? ht
  | closeBlock => exact h.closeBlock

theorem Latched.turns (h : s.Latched) (hturns : s.Turns s') : s'.Latched := by
  cases hturns with
  | edit he => exact h.edits he
  | openBlock n =>
      exact { h with data := latched_extend h.data _, results := latched_extend h.results _ }
  | prepare => exact { h with }
  | aggregate => exact { h with }
  | preparation lane hs => exact h.stepPreparation? hs
  | replay lane hs => exact h.stepReplay? hs
  | aggregation lane hs => exact h.stepAggregation? hs

/-- Nothing of any block is left at the station. Every cell is empty and armed, also those beyond
the length of the last block. -/
structure IsReset (s : Station F) : Prop where
  blockLength : s.blockLength = 0
  sender : s.sender = none
  receiver : s.receiver = none
  remaining : s.remaining = 0
  fault : s.fault = none
  common : s.common = .armed s.common.latch
  aggregated : s.aggregated = .armed s.aggregated.latch
  data : ∀ cell ∈ s.data, cell = .armed cell.latch
  results : ∀ cell ∈ s.results, cell = .armed cell.latch

theorem Clear.isReset (hclear : s.Clear) (hlatched : s.Latched) : s.IsReset where
  blockLength := hclear.blockLength
  sender := hclear.sender
  receiver := hclear.receiver
  remaining := hclear.remaining
  fault := hclear.fault
  common := hlatched.common.eq_armed hclear.common
  aggregated := hlatched.aggregated.eq_armed hclear.aggregated
  data := fun cell hcell => (hlatched.data cell hcell).eq_armed (hclear.data cell hcell)
  results := fun cell hcell => (hlatched.results cell hcell).eq_armed (hclear.results cell hcell)

end Station

/-! ## The end of a block -/

namespace Sample

/-- The block is started, and the call that finishes it has one move left. -/
def finishing : List (Pipeline.Move flow) := restarted.take 58

end Sample

namespace Pipeline

variable {config : Config} {registry : Registry F} {handlers : List (Handler F)}
  {past : List (Work F)} {calm : Prop} {p q r : Pipeline F} {moves : List (Move F)} {f : Nat}

/-- Nothing is in work. Every thread of every block has ended, and the workers do nothing but wait,
unless the pools are closed. -/
structure Quiescent (p : Pipeline F) : Prop where
  queues : ∀ stage, p.queue stage = []
  workers : ∀ worker ∈ p.workers, worker.activity = .idle ∨ worker.activity = .exited
  feeders : ∀ feeders ∈ p.feeders, ∀ stage, feeders.pending stage = []
  lanes : ∀ s ∈ p.stations, s.lanes.length = p.feeders.length
  threads : ∀ s ∈ p.stations, ∀ l ∈ s.lanes,
    l.preparation = .ended ∧ l.replay = .ended ∧ l.aggregation = .ended
  stations : ∀ s ∈ p.stations, s.IsReset

theorem Between.quiescent (hp : p.Between calm handlers past)
    (hlatched : ∀ s ∈ p.stations, s.Latched) : p.Quiescent where
  queues := hp.queue_eq_nil
  workers := fun _ => hp.idle_or_exited
  feeders := fun _ => hp.pending_eq_nil
  lanes := fun s hs => by
    obtain ⟨h, hget⟩ := List.mem_iff_getElem?.mp hs
    rw [hp.feeders, (hp.stations h s hget).2.length_eq]
  threads := fun s hs l hl => by
    obtain ⟨h, hget⟩ := List.mem_iff_getElem?.mp hs
    obtain ⟨lane, hlane⟩ := List.mem_iff_getElem?.mp hl
    obtain ⟨work, hdone⟩ := exists_done_of_getElem? (hp.stations h s hget).2 hlane
    exact ⟨hdone.preparation, hdone.replay, hdone.aggregation⟩
  stations := fun s hs => by
    obtain ⟨h, hget⟩ := List.mem_iff_getElem?.mp hs
    exact (hp.stations h s hget).1.isReset (hlatched s hs)

theorem latched_of_run? (hcreate : create config registry = .ok p) (hrun : p.run? moves = some q) :
    ∀ s ∈ q.stations, s.Latched := by
  refine forall_stations_of_run? (fun s s' hturns hs => hs.turns hturns) ?_ hrun
  intro s hs
  obtain ⟨-, rfl⟩ := eq_ofConfig hcreate
  obtain ⟨handler, -, rfl⟩ := List.mem_map.mp hs
  exact Station.latched_create handler

theorem Between.of_finished {store store' : F.Store} {block : Block} {receipts : List Receipt}
    {next : Finishing} {fault : Option Fault} {ts : List (Task F)}
    (hq : Chronicle True handlers ts q)
    (hcall : q.calls[f]? = some (.finish store block receipts next))
    (hraises : q.raises (.caller f) = false) (hstep : q.step? (.caller f) = some r)
    (hreturned : r.calls[f]? = some (.returned (.finished fault store'))) :
    ∃ past, r.Between True handlers past := by
  have hfinish := (step?_of_finish hcall).symm.trans hstep
  cases hq with
  | between past hq hover =>
      rcases hq.step? (.of_clean hraises) hstep with ⟨hr, -⟩ | ⟨c, _, _, _, _, hscan, hactor, -⟩
      · exact ⟨past, hr⟩
      · obtain rfl : f = c := Actor.caller.inj hactor
        simp [hcall] at hscan
  | starting past work c next' hq htask hover =>
      exfalso
      obtain rfl := hq.call_minds.eq hcall rfl
      simpa [hcall] using hq.call_eq
  | started past work phase c hq hphase htask hstarted hover =>
      cases phase with
      | starting d next' => cases hphase
      | abandoned joined concluded => cases hphase
      | started =>
          exfalso
          -- the first move of the call only takes the block
          obtain rfl := Waits.eq_take hq.calls hcall
          have hr := (hq.take hcall hfinish).finish_eq
          simp [hreturned] at hr
      | finishing d origin store'' block' receipts' next' =>
          obtain rfl := hq.finish_minds.eq hcall rfl
          have hsame := hq.finish_eq
          rw [hcall] at hsame
          cases hsame
          rcases hq.stepFinish? (.of_clean hraises) hfinish with ⟨_, _, hr⟩ | ⟨hr, -⟩
          · simpa [hreturned] using hr.finish_eq
          · exact ⟨_, hr⟩

/-- A call that finishes a block leaves nothing of it behind, whether it returns or raises the
fault that a handler raised over a transaction. -/
theorem quiescent_of_finished {store store' : F.Store} {block : Block} {receipts : List Receipt}
    {next : Finishing} {fault : Option Fault} (hcreate : create config registry = .ok p)
    (hrun : p.cleanRun? moves = some q)
    (hcall : q.calls[f]? = some (.finish store block receipts next))
    (hraises : q.raises (.caller f) = false) (hstep : q.step? (.caller f) = some r)
    (hreturned : r.calls[f]? = some (.returned (.finished fault store'))) : r.Quiescent := by
  obtain ⟨past, hr⟩ :=
    Between.of_finished (Chronicle.of_cleanRun? hcreate hrun) hcall hraises hstep hreturned
  refine hr.quiescent ?_
  have hmoves : p.cleanRun? (moves ++ [.act (.caller f)]) = some r := by
    rw [cleanRun?_append, hrun, Option.bind_some, cleanRun?, if_pos (by simp [isClean, hraises])]
    exact congrArg (Option.bind · fun p => some p) hstep
  exact latched_of_run? hcreate (run?_of_cleanRun? hmoves)

open Sample in
theorem quiescent_after_adders : ∃ q r, (ofConfig oneEach adders).cleanRun? finishing = some q ∧
    q.step? (.caller 1) = some r ∧ (r.calls[1]?).any Call.hasFinished = true ∧ r.Quiescent := by
  obtain ⟨q, hrun, hraises, hbusy, r, hstep, hr⟩ : ∃ q,
      (ofConfig oneEach adders).cleanRun? finishing = some q ∧ q.raises (.caller 1) = false ∧
        (q.calls[1]?).any Call.hasFinished = false ∧
        ∃ r, q.step? (.caller 1) = some r ∧ (r.calls[1]?).any Call.hasFinished = true := by
    decide +kernel
  obtain ⟨_, hreturned, hfinished⟩ := (Option.any_eq_true _ _).mp hr
  have hlt := (List.getElem?_eq_some_iff.mp hreturned).1
  rw [length_calls_of_step? hstep] at hlt
  obtain ⟨turned, hturned, hturns⟩ := exists_turns_of_step? hstep (List.getElem?_eq_getElem hlt)
  obtain rfl := Option.some.inj (hturned.symm.trans hreturned)
  rw [List.getElem?_eq_getElem hlt, Option.any_some] at hbusy
  refine ⟨q, r, hrun, hstep, hr, ?_⟩
  generalize hcall : q.calls[1] = call at hturns hbusy
  cases hturns with
  | finished store store' block receipts next fault =>
      exact quiescent_of_finished (show create oneEach adders = .ok _ from rfl) hrun
        (hcall ▸ List.getElem?_eq_getElem hlt) hraises hstep hreturned
  | returned answer =>
      rw [hfinished] at hbusy
      cases hbusy
  | start => cases hfinished
  | started => cases hfinished
  | finish => cases hfinished
  | close => cases hfinished
  | closed => cases hfinished

end Pipeline

end TxPipeline
