import TxPipeline.Proofs.Effort
import TxPipeline.Proofs.Progress

/-!
# Every block comes to its end

After the start of a block there is always somebody who can move until everything is done, and there
are only so many moves. So every schedule brings the block to its end: all jobs are worked on, all
results are written, all threads of the block have ended, and no call waits for ever.
-/

namespace TxPipeline.Pipeline

variable {F : Flow} {calm : Prop} {config : Config} {registry : Registry F}
  {handlers : List (Handler F)} {past : List (Work F)} {work : Work F} {phase : Phase F}
  {p q r : Pipeline F} {moves : List (Move F)} {c h k : Nat} {s : Station F} {l : Lane F}
  {origin store : F.Store} {block : Block} {receipts : List Receipt} {next : Finishing}

/-- Every result of the block can be read. -/
def HoldsResults (handlers : List (Handler F)) (work : Work F) (p : Pipeline F) : Prop :=
  ∀ (h i : Nat) (r : TxResult F.Output), h < handlers.length →
    (work.resultsOf handlers h)[i]? = some r → p.result? h i = .ok (some r)

/-- A call has begun to reset the stations. -/
def IsResetting (p : Pipeline F) : Prop :=
  ∃ (f : Nat) (store : F.Store) (block : Block) (receipts : List Receipt) (next : Finishing),
    p.calls[f]? = some (.finish store block receipts next) ∧ next.isResetting = true

/-- The threads have done all that was to do for the block that came into work last. -/
structure Exhausted (handlers : List (Handler F)) (work : Work F) (p : Pipeline F) : Prop where
  queues : ∀ stage, p.queue stage = []
  feeders : ∀ feeders ∈ p.feeders, feeders = ⟨[], []⟩
  workers : ∀ worker ∈ p.workers, worker.activity = .idle ∨ worker.activity = .exited
  lanes : ∀ s ∈ p.stations, ∀ l ∈ s.lanes, l.Ended
  announced : ∀ (h : Nat) (s : Station F), p.stations[h]? = some s →
    ∃ l, s.lanes[p.lastLane]? = some l ∧ l.completions.sent.Perm (work.resultsOf handlers h)
  results : p.HoldsResults handlers work ∨ p.IsResetting ∨ ∀ s ∈ p.stations, s.Clear

/-! ## The threads -/

theorem exists_last_of_done (hdone : List.Forall₂ (Lane.Done handlers h) (past ++ [work]) s.lanes) :
    ∃ l, s.lanes[past.length]? = some l ∧ l.Done handlers h work := by
  have hlt : past.length < s.lanes.length := by
    rw [← hdone.length_eq]
    simp
  refine ⟨_, List.getElem?_eq_getElem hlt, ?_⟩
  simpa using hdone.get (by simp) hlt

theorem During.holdsResults (hp : p.During calm handlers past work phase)
    (hphase : ∀ d next, phase ≠ .starting d next) (hload : ∀ c, p.load c = 0)
    (hserving : ∀ h, ∃ progress, phase.berth work.block.length h = .serving progress ∧
      progress.drained = 0) : p.HoldsResults handlers work := by
  intro h i r hh hr
  obtain ⟨s, hs, -⟩ := hp.exists_station hh
  obtain ⟨progress, hberth, hdrained⟩ := hserving h
  have hfits := hp.stations h s hs
  rw [hberth] at hfits
  obtain ⟨old, l, -, -, hserves⟩ := hfits
  have hdue : phase.outstanding p .settled = 0 := by
    rw [Phase.outstanding_eq_load hphase, hload]
  simp only [Pipeline.result?, hs]
  exact hserves.result?_of_settled hdue hdrained hr

theorem During.results_of_unloaded (hp : p.During calm handlers past work phase)
    (hphase : ∀ d next, phase ≠ .starting d next) (hload : ∀ c, p.load c = 0) :
    p.HoldsResults handlers work ∨ p.IsResetting := by
  cases phase with
  | starting d next => exact absurd rfl (hphase d next)
  | started => exact .inl (hp.holdsResults hphase hload fun h => ⟨_, rfl, rfl⟩)
  | abandoned joined concluded => exact .inl (hp.holdsResults hphase hload fun h => ⟨_, rfl, rfl⟩)
  | finishing f origin store block receipts next =>
      cases hresetting : next.isResetting with
      | true => exact .inr ⟨f, store, block, receipts, next, hp.finish_eq, hresetting⟩
      | false =>
          refine .inl (hp.holdsResults hphase hload fun h => ?_)
          cases next <;> first | exact ⟨_, rfl, rfl⟩ | cases hresetting

namespace Aftermath

variable (hp : p.Aftermath handlers past work) (horderly : p.Orderly)
  (hbefore : ∀ handler ∈ handlers, ∃ common,
    handler.beforeBlock work.store work.rules work.block = .ok common)

theorem not_starting (hphase : phase.isAttended = true) (d : Nat) (next : Starting) :
    phase ≠ .starting d next := by
  rintro rfl
  cases hphase

include hp

theorem lastLane_eq : p.lastLane = past.length := by
  cases hp with
  | served phase hp hphase => exact hp.lastLane_eq
  | abandoned joined concluded hp hquiet => exact hp.lastLane_eq
  | reset hp hquiet => rw [lastLane, hp.feeders, List.length_append, List.length_singleton,
      Nat.add_sub_cancel]

include horderly hbefore

theorem load_eq_zero (hhalted : p.Halted) (c : Checkpoint) : p.load c = 0 := by
  cases hp with
  | served phase hp hphase =>
      exact hp.load_eq_zero_of_halted (not_starting hphase) hhalted hbefore horderly c
  | abandoned joined concluded hp hquiet =>
      exact hp.load_eq_zero_of_halted (by simp) hhalted hbefore horderly c
  | reset hp hquiet => exact hp.load c

theorem results_of_halted (hhalted : p.Halted) :
    p.HoldsResults handlers work ∨ p.IsResetting ∨ ∀ s ∈ p.stations, s.Clear := by
  have hload := hp.load_eq_zero horderly hbefore hhalted
  cases hp with
  | reset hp hquiet =>
      refine .inr (.inr fun s hs => ?_)
      obtain ⟨h, hh⟩ := List.mem_iff_getElem?.mp hs
      exact (hp.stations h s hh).1
  | abandoned joined concluded hp hquiet =>
      exact (hp.results_of_unloaded (by simp) hload).imp_right .inl
  | served phase hp hphase =>
      exact (hp.results_of_unloaded (not_starting hphase) hload).imp_right .inl

/-- If no thread can move, the threads have done everything. -/
theorem exhausted (hhalted : p.Halted) : p.Exhausted handlers work where
  queues := queue_eq_nil_of_unloaded (hp.load_eq_zero horderly hbefore hhalted)
  feeders := fun feeders hf => by
    have hnil := pending_eq_nil_of_unloaded (hp.load_eq_zero horderly hbefore hhalted) hf
    obtain ⟨prefetch, process⟩ := feeders
    exact congrArg₂ Feeders.mk (hnil .prefetch) (hnil .process)
  workers := fun worker hworker => by
    exact (idle_or_over_of_unloaded (hp.load_eq_zero horderly hbefore hhalted) hworker).imp_right
      (hp.crew.exited_of_isOver hworker)
  lanes := fun s hs l hl => by
    obtain ⟨h, hh⟩ := List.mem_iff_getElem?.mp hs
    rcases hp.station hh with ⟨phase, progress, hduring, hphase, hberth, hfits⟩ | ⟨-, hall⟩
    · obtain ⟨old, last, hlanes, hold, hserves⟩ := hfits
      rw [hlanes] at hl
      rcases List.mem_append.mp hl with hl | hl
      · exact ended_of_done hold hl
      · obtain rfl := List.mem_singleton.mp hl
        have hlast : s.lanes[past.length]? = some l := by simp [hlanes, hold.length_eq]
        obtain ⟨hprepared, hdispatched, hdrained⟩ := progress_of_berth hphase hberth
        refine hserves.ended_of_halted hlast (hhalted.station hh) hprepared hdispatched
          (fun c => ?_) hdrained hbefore
        rw [Phase.outstanding_eq_load hphase, hp.load_eq_zero horderly hbefore hhalted]
    · exact ended_of_done hall hl
  announced := fun h s hs => by
    rw [hp.lastLane_eq]
    rcases hp.station hs with ⟨phase, progress, hduring, hphase, hberth, hfits⟩ | ⟨-, hall⟩
    · obtain ⟨old, last, hlanes, hold, hserves⟩ := hfits
      refine ⟨last, by simp [hlanes, hold.length_eq], hserves.announced.perm_of_zero ?_⟩
      rw [Phase.outstanding_eq_load hphase, hp.load_eq_zero horderly hbefore hhalted,
        Multiset.filter_zero]
    · obtain ⟨l, hl, hdone⟩ := exists_last_of_done hall
      exact ⟨l, hl, hdone.completions⟩
  results := hp.results_of_halted horderly hbefore hhalted

theorem exists_lane (hhalted : p.Halted) (hs : p.stations[k]? = some s) :
    ∃ l, s.lanes[past.length]? = some l ∧ l.Ended := by
  have hexhausted := hp.exhausted horderly hbefore hhalted
  obtain ⟨l, hl, -⟩ := hexhausted.announced k s hs
  rw [hp.lastLane_eq] at hl
  exact ⟨l, hl, hexhausted.lanes s (List.mem_of_getElem? hs) l (List.mem_of_getElem? hl)⟩

end Aftermath

/-! ## The call that finishes the block -/

theorem stepFinish?_take_ne_none (hunlocked : p.locked = false) :
    p.stepFinish? c store block receipts .take ≠ none := by
  simp only [stepFinish?, hunlocked, Bool.false_eq_true, if_false]
  split
  · simp
  · split <;> simp

/-- Nothing that the call which finishes the block waits for is missing. -/
theorem During.stepFinish?_ne_none
    (hp : p.During calm handlers past work (.finishing c origin store block receipts next))
    (hload : ∀ c, p.load c = 0) (hfeeders : ∀ feeders ∈ p.feeders, feeders = ⟨[], []⟩)
    (hlane : ∀ (k : Nat) (s : Station F), p.stations[k]? = some s →
      ∃ l, s.lanes[past.length]? = some l ∧ l.Ended) :
    p.stepFinish? c store block receipts next ≠ none := by
  have hvalid := hp.finish_valid
  cases next with
  | take => exact hvalid.elim
  | joinPreparation active k =>
      obtain ⟨rfl, -⟩ := hvalid
      simp only [Pipeline.stepFinish?]
      split
      · simp
      · rename_i s hs
        obtain ⟨l, hl, hended⟩ := hlane k s hs
        simp [Station.preparation?, Work.active, hl, hended.preparation]
  | joinFeeders active =>
      obtain ⟨rfl, -⟩ := hvalid
      have hlt : past.length < p.feeders.length := by
        rw [hp.feeders]
        exact Nat.lt_succ_self _
      have hnil := hfeeders _ (List.getElem_mem hlt)
      simp [Pipeline.stepFinish?, Work.active, List.getElem?_eq_getElem hlt, hnil]
  | joinAggregation active k =>
      obtain ⟨rfl, -⟩ := hvalid
      simp only [Pipeline.stepFinish?]
      split
      · simp
      · rename_i s hs
        obtain ⟨l, hl, hended⟩ := hlane k s hs
        rcases hended.aggregation with haggregation | ⟨fault, haggregation⟩ <;>
          simp [Station.aggregation?, Work.active, hl, haggregation]
  | conclude active k =>
      obtain ⟨rfl, hk, -⟩ := hvalid
      obtain ⟨s, hs, -⟩ := hp.exists_station hk
      have hfits := hp.stations k s hs
      simp only [Phase.berth, Finishing.berth, le_refl, lt_irrefl, decide_true,
        decide_false] at hfits
      obtain ⟨⟨a, s'⟩, htake⟩ :=
        Option.ne_none_iff_exists'.mp (hfits.takeAggregate?_ne_none rfl rfl)
      simp only [Pipeline.stepFinish?, hs, htake, Option.bind_eq_bind, Option.bind_some]
      split <;> simp
  | ending active k kept =>
      simp only [Pipeline.stepFinish?]
      split <;> simp
  | draining active k i length kept =>
      obtain ⟨rfl, hk, -, rfl, -⟩ := hvalid
      obtain ⟨s, hs, -⟩ := hp.exists_station hk
      have hfits := hp.stations k s hs
      simp only [Phase.berth, Finishing.berth, lt_irrefl, if_false, if_true] at hfits
      simp only [Pipeline.stepFinish?]
      split
      · rename_i hlt
        obtain ⟨s', hdrain⟩ := Option.ne_none_iff_exists'.mp (hfits.drain?_ne_none
          ((Phase.outstanding_eq_load (by simp) p .settled).trans (hload _)) hlt)
        simp [hs, hdrain]
      · simp
  | closing active k kept =>
      obtain ⟨rfl, hk, -⟩ := hvalid
      obtain ⟨s, hs, -⟩ := hp.exists_station hk
      simp [Pipeline.stepFinish?, hs]
  | leaving active kept =>
      simp only [Pipeline.stepFinish?]
      split <;> simp

/-! ## When nobody can move -/

/-- Nobody can move, neither a thread nor a caller. -/
def Stuck (p : Pipeline F) : Prop := ∀ actor : Actor, p.step? actor = none

theorem Stuck.halted (hstuck : p.Stuck) : p.Halted := fun actor _ => hstuck actor

/-- If there is a bound on the moves, some schedule comes to a state in which nobody can move. -/
theorem exists_stuck {bound : Nat} (hbound : ∀ (actors : List Actor) (q : Pipeline F),
    p.run? (actors.map .act) = some q → actors.length ≤ bound) :
    ∃ (actors : List Actor) (q : Pipeline F), p.run? (actors.map .act) = some q ∧ q.Stuck := by
  induction bound generalizing p with
  | zero =>
      refine ⟨[], p, rfl, fun actor => Option.eq_none_iff_forall_ne_some.mpr fun q hstep => ?_⟩
      exact absurd (hbound [actor] q (Option.bind_eq_some_iff.mpr ⟨q, hstep, rfl⟩)) (by simp)
  | succ bound ih =>
      by_cases hstuck : p.Stuck
      · exact ⟨[], p, rfl, hstuck⟩
      · obtain ⟨actor, hactor⟩ := not_forall.mp hstuck
        obtain ⟨next, hstep⟩ := Option.ne_none_iff_exists'.mp hactor
        have hcons {actors : List Actor} {q : Pipeline F}
            (hrun : next.run? (actors.map .act) = some q) :
            p.run? ((actor :: actors).map .act) = some q :=
          Option.bind_eq_some_iff.mpr ⟨next, hstep, hrun⟩
        obtain ⟨actors, q, hrun, hq⟩ := ih fun actors q hrun =>
          Nat.le_of_succ_le_succ (hbound _ _ (hcons hrun))
        exact ⟨actor :: actors, q, hcons hrun, hq⟩

namespace Aftermath

variable (hp : p.Aftermath handlers past work) (horderly : p.Orderly)
  (hbefore : ∀ handler ∈ handlers, ∃ common,
    handler.beforeBlock work.store work.rules work.block = .ok common)

include hp

theorem holdsSenders_eq_false {call : Call F} (hcall : p.calls[c]? = some call) :
    call.holdsSenders = false := by
  cases call with
  | start store rules block next =>
      obtain ⟨rfl, -⟩ := hp.refuses hcall
      rfl
  | _ => rfl

theorem stepStart?_ne_none {rules : Rules} {next : Starting}
    (hcall : p.calls[c]? = some (.start store rules block next)) :
    p.stepStart? c store rules block next ≠ none := by
  obtain ⟨rfl, hactive⟩ := hp.refuses hcall
  obtain ⟨active, hactive⟩ := Option.isSome_iff_exists.mp hactive
  simp [stepStart?, hp.unlocked, hactive]

include horderly hbefore

theorem stepFinish?_ne_none (hhalted : p.Halted)
    (hcall : p.calls[c]? = some (.finish store block receipts next)) :
    p.stepFinish? c store block receipts next ≠ none := by
  have hexhausted := hp.exhausted horderly hbefore hhalted
  have hload := hp.load_eq_zero horderly hbefore hhalted
  have hlane := fun k s => hp.exists_lane (k := k) (s := s) horderly hbefore hhalted
  have hunlocked := hp.unlocked
  cases hp with
  | abandoned joined concluded hp hquiet => cases isSettled_of_isQuiet hquiet hcall
  | reset hp hquiet => cases isSettled_of_isQuiet hquiet hcall
  | served phase hp hphase =>
      cases phase with
      | starting d next => cases hphase
      | abandoned joined concluded => cases hphase
      | started =>
          obtain rfl := Waits.eq_take hp.calls hcall
          exact stepFinish?_take_ne_none hunlocked
      | finishing f origin store' block' receipts' next' =>
          obtain rfl := hp.finish_minds.eq hcall rfl
          rw [hp.finish_eq] at hcall
          cases hcall
          exact hp.stepFinish?_ne_none hload hexhausted.feeders hlane

/-- A call that closes the pools waits for workers only while these have something to do. -/
theorem stepClose?_ne_none (hhalted : p.Halted) {next : Closing}
    (hcall : p.calls[c]? = some (.close next)) : p.stepClose? c next ≠ none := by
  have hexhausted := hp.exhausted horderly hbefore hhalted
  cases next with
  | take =>
      simp only [stepClose?]
      split <;> simp
  | check => simp [stepClose?, hp.unlocked]
  | join w =>
      simp only [stepClose?]
      split
      · simp
      · rename_i worker hw
        have hworker := List.mem_of_getElem? hw
        rcases hexhausted.workers worker hworker with hidle | hexited
        · -- nobody can send to an idle worker any more, so it leaves
          obtain ⟨copy, hrests⟩ := hp.rests
          have hfree := isFree_of_idle hp.crew hrests hw hidle
          have hsender : p.hasSender worker.stage = false := by
            have hfeeders : p.feeders.any (fun f => !(f.pending worker.stage).isEmpty) = false := by
              refine List.any_eq_false.mpr fun f hf => ?_
              rw [hexhausted.feeders f hf]
              cases worker.stage <;> simp [Feeders.pending]
            have hcalls : p.calls.any Call.holdsSenders = false := by
              refine List.any_eq_false.mpr fun call hmem => ?_
              obtain ⟨i, hi⟩ := List.mem_iff_getElem?.mp hmem
              simp [hp.holdsSenders_eq_false hi]
            rw [hasSender, horderly.joins c w hcall, hfeeders, hcalls]
            rfl
          have hnone : p.receive? w = none := hhalted (.receiver w) rfl
          simp [receive?, hfree, hw, hexhausted.queues, hsender] at hnone
        · simp [hexited]

/-- If nobody can move, no call is waiting. -/
theorem isReturned_of_stuck (hstuck : p.Stuck) : ∀ call ∈ p.calls, call.isReturned = true := by
  intro call hmem
  obtain ⟨c, hcall⟩ := List.mem_iff_getElem?.mp hmem
  have hnone : p.stepCall? c = none := hstuck (.caller c)
  rw [stepCall?, hcall] at hnone
  cases call with
  | start store rules block next => exact absurd hnone (hp.stepStart?_ne_none hcall)
  | finish store block receipts next =>
      exact absurd hnone (hp.stepFinish?_ne_none horderly hbefore hstuck.halted hcall)
  | close next => exact absurd hnone (hp.stepClose?_ne_none horderly hbefore hstuck.halted hcall)
  | returned answer => rfl

/-- If nobody can move, all results are there, or a call has reset all stations. -/
theorem results_of_stuck (hstuck : p.Stuck) :
    p.HoldsResults handlers work ∨ ∀ s ∈ p.stations, s.Clear := by
  rcases hp.results_of_halted horderly hbefore hstuck.halted with hholds | hresetting | hclear
  · exact .inl hholds
  · obtain ⟨f, store, block, receipts, next, hcall, -⟩ := hresetting
    cases hp.isReturned_of_stuck horderly hbefore hstuck _ (List.mem_of_getElem? hcall)
  · exact .inr hclear

end Aftermath

/-! ## The end of a block -/

/-- No block gets stuck. After the start of a block, on a processor that has finished its earlier
blocks, no schedule goes on for ever. As long as a job is still to be passed on or worked on, a
result is still to be written, or a thread of the block has not ended, some thread can move; and
when nobody can move any more, all of this is done and no call is left waiting. -/
theorem comes_to_end (work : Work F) (hcreate : create config registry = .ok p)
    (hrun : p.steadyRun? moves = some q) (htask : (tasks moves)[c]? = some work.task)
    (hstarted : q.calls[c]? = some (.returned (.started (.ok ())))) (hover : ¬ q.Over c)
    (hbefore : ∀ handler ∈ registry.handlers, ∃ common,
      handler.beforeBlock work.store work.rules work.block = .ok common) :
    (∃ bound, ∀ (actors : List Actor) (r : Pipeline F), q.run? (actors.map .act) = some r →
      actors.length ≤ bound) ∧
    ∀ (actors : List Actor) (r : Pipeline F), q.run? (actors.map .act) = some r →
      (r.Halted → r.Exhausted registry.handlers work) ∧
      (r.Stuck → r.Exhausted registry.handlers work ∧
        (∀ call ∈ r.calls, call.isReturned = true) ∧
        (r.HoldsResults registry.handlers work ∨ ∀ s ∈ r.stations, s.Clear)) := by
  obtain ⟨past, hq⟩ := (Chronicle.of_steadyRun? hcreate hrun).aftermath htask hstarted hover
  have horderly := orderly_of_run? (orderly_create hcreate) (run?_of_runWhile? hrun)
  refine ⟨⟨q.effort registry.handlers work, fun actors r hr => ?_⟩, fun actors r hr => ?_⟩
  · exact (Nat.le_add_right _ _).trans (hq.length_le_effort hr)
  · have haftermath := hq.run? hr
    have horderly := orderly_of_run? horderly hr
    exact ⟨haftermath.exhausted horderly hbefore, fun hstuck =>
      ⟨haftermath.exhausted horderly hbefore hstuck.halted,
        haftermath.isReturned_of_stuck horderly hbefore hstuck,
        haftermath.results_of_stuck horderly hbefore hstuck⟩⟩

open Sample in
theorem comes_to_end_started : ∃ q bound,
    (ofConfig oneEach adders).steadyRun? (started.take 30) = some q ∧
    q.calls[0]? = some (.returned (.started (.ok ()))) ∧
    (∀ (actors : List Actor) (r : Pipeline flow), q.run? (actors.map .act) = some r →
      actors.length ≤ bound) ∧
    ∀ (actors : List Actor) (r : Pipeline flow), q.run? (actors.map .act) = some r → r.Stuck →
      ∀ call ∈ r.calls, call.isReturned = true := by
  obtain ⟨q, hrun, hover, _, hcall, rfl⟩ : ∃ q,
      (ofConfig oneEach adders).steadyRun? (started.take 30) = some q ∧ ¬ q.Over 0 ∧
        ∃ call, q.calls[0]? = some call ∧ call = .returned (.started (.ok ())) := by
    decide +kernel
  obtain ⟨⟨bound, hbound⟩, hends⟩ := comes_to_end ⟨(3 : Nat), .latest, pair⟩
    (show create oneEach adders = .ok _ from rfl) hrun rfl hcall hover
    fun handler hhandler => by
      obtain rfl := List.mem_singleton.mp hhandler
      exact ⟨(3 : Nat), rfl⟩
  exact ⟨q, bound, hrun, hcall, hbound, fun actors r hr hstuck =>
    ((hends actors r hr).2 hstuck).2.1⟩

end TxPipeline.Pipeline
