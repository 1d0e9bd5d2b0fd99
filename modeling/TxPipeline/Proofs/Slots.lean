import TxPipeline.Proofs.Frame
import TxPipeline.Proofs.Service.Calls
import TxPipeline.Proofs.Station.Moves

/-!
# Who writes which cell

Nobody but five kinds of threads writes a cell: a preparation writes what all stages share, an
aggregation what it has read, a worker what it has made for a job, and a call that starts a block
the results of declined transactions. Nobody but a call that finishes a block empties one.
-/

namespace TxPipeline

variable {F : Flow}

/-- A cell of a station. -/
inductive Slot
  | common
  | data (index : Nat)
  | result (index : Nat)
  | aggregated
deriving DecidableEq

/-! ## At a station -/

namespace Station

variable {s s' : Station F} {lane i : Nat}

/-- Whether a cell holds a value. -/
def isSet (s : Station F) : Slot → Bool
  | .common => s.common.value.isSome
  | .data i => (valueAt s.data i).isSome
  | .result i => (valueAt s.results i).isSome
  | .aggregated => s.aggregated.value.isSome

/-- A cell of `s'` is set if it was set in `s`, or if it is the one that is given. -/
def Fills (s s' : Station F) (filled : Option Slot) : Prop :=
  ∀ slot, s'.isSet slot = true ↔ s.isSet slot = true ∨ filled = some slot

theorem Fills.of_eq (hcommon : s'.common = s.common) (hdata : s'.data = s.data)
    (hresults : s'.results = s.results) (haggregated : s'.aggregated = s.aggregated) :
    s.Fills s' none := by
  intro slot
  cases slot <;> simp [isSet, hcommon, hdata, hresults, haggregated]

theorem valueAt_extend {α : Type} (cells : List (Cell α)) (n i : Nat) :
    valueAt (cells ++ List.replicate n .empty) i = valueAt cells i := by
  unfold valueAt
  rw [List.getElem?_append]
  split
  · rfl
  · rename_i hge
    rw [List.getElem?_eq_none (Nat.le_of_not_lt hge), List.getElem?_replicate]
    split <;> rfl

theorem fills_openBlock (s : Station F) (n : Nat) : s.Fills (s.openBlock n) none := by
  intro slot
  cases slot <;> simp [isSet, openBlock, valueAt_extend]

theorem fills_of_announce {r : TxResult F.Output} (h : s.announce r = .ok s') :
    s.Fills s' none := by
  obtain ⟨-, lanes, rfl, -⟩ := eq_of_announce h
  exact .of_eq rfl rfl rfl rfl

theorem fills_of_settle {r : TxResult F.Output} (h : s.settle r = .ok s') :
    s.Fills s' (some (.result r.index)) := by
  obtain ⟨cell, next, hcell, hset, rfl⟩ := eq_of_settle h
  have hlt := (List.getElem?_eq_some_iff.mp hcell).1
  have hvalue := (Cell.value_of_set? hset).2
  intro slot
  cases slot with
  | result i =>
      simp only [isSet, valueAt_set hlt, hvalue, Option.some.injEq, Slot.result.injEq]
      by_cases hi : i = r.index
      · simp [hi]
      · simp [hi, Ne.symm hi]
  | _ => simp [isSet]

theorem fills_of_deposit {data : Option F.Data} (h : s.deposit i data = .ok s') :
    s.Fills s' (some (.data i)) := by
  obtain ⟨cell, next, hcell, hset, rfl⟩ := eq_of_deposit h
  have hlt := (List.getElem?_eq_some_iff.mp hcell).1
  have hvalue := (Cell.value_of_set? hset).2
  intro slot
  cases slot with
  | data j =>
      simp only [isSet, valueAt_set hlt, hvalue, Option.some.injEq, Slot.data.injEq]
      by_cases hj : j = i
      · simp [hj]
      · simp [hj, Ne.symm hj]
  | _ => simp [isSet]

/-- The cell that is given is set in `s`, and is the only one that is emptied. -/
structure Empties (s s' : Station F) (emptied : Slot) : Prop where
  isSet_eq : s.isSet emptied = true
  isSet_iff : ∀ slot, s'.isSet slot = true ↔ s.isSet slot = true ∧ slot ≠ emptied

theorem empties_of_takeAggregate? {a : F.Aggregate} (h : s.takeAggregate? = some (a, s')) :
    s.Empties s' .aggregated := by
  obtain ⟨cell, htake, rfl⟩ := eq_of_takeAggregate? h
  obtain ⟨hvalue, hnone⟩ := Cell.eq_of_take? htake
  refine ⟨by simp [isSet, hvalue], fun slot => ?_⟩
  cases slot <;> simp [isSet, hnone]

theorem empties_of_drain? (h : s.drain? i = some s') : s.Empties s' (.result i) := by
  obtain ⟨cell, taken, next, hcell, htake, rfl⟩ := eq_of_drain? h
  obtain ⟨hvalue, hnone⟩ := Cell.eq_of_take? htake
  have hlt := (List.getElem?_eq_some_iff.mp hcell).1
  refine ⟨by simp [isSet, valueAt, hcell, hvalue], fun slot => ?_⟩
  cases slot with
  | result j =>
      by_cases hj : j = i
      · simp [isSet, valueAt_set hlt, hj, hnone]
      · simp [isSet, valueAt_set hlt, hj]
  | _ => simp [isSet]

theorem fills_of_stepPreparation? (h : s.stepPreparation? lane = some s') :
    s.Fills s' none ∨ s.Fills s' (some .common) := by
  cases preparationMove_of_stepPreparation? h with
  | fault | alreadySet => exact .inl (.of_eq rfl rfl rfl rfl)
  | write l store rules block common cell hl hready hok hset =>
      refine .inr fun slot => ?_
      cases slot <;> simp [isSet, updateLane, (Cell.value_of_set? hset).2]

theorem fills_of_stepReplay? (h : s.stepReplay? lane = some s') : s.Fills s' none := by
  cases replayMove_of_stepReplay? h <;> exact .of_eq rfl rfl rfl rfl

theorem fills_of_stepAggregation? (h : s.stepAggregation? lane = some s') :
    s.Fills s' none ∨ s.Fills s' (some .aggregated) := by
  cases aggregationMove_of_stepAggregation? h with
  | read l feed source reader hl hreading hfeed hmove =>
      cases hmove <;> exact .inl (.of_eq rfl rfl rfl rfl)
  | write l a cell hl hjoining hended hset =>
      refine .inr fun slot => ?_
      cases slot <;> simp [isSet, updateLane, (Cell.value_of_set? hset).2]
  | _ => exact .inl (.of_eq rfl rfl rfl rfl)

end Station

/-! ## In a pipeline -/

namespace Pipeline

variable {p q : Pipeline F} {actor : Actor} {c w h lane : Nat} {slot : Slot}

/-- Whether a cell of station `h` holds a value. -/
def isSet (p : Pipeline F) (h : Nat) (slot : Slot) : Bool := (p.stations[h]?).any (·.isSet slot)

/-- A cell that the next move of an actor may set. -/
inductive Writes (p : Pipeline F) : Actor → Nat → Slot → Prop
  | prepare (h lane : Nat) (s s' : Station F) (hs : p.stations[h]? = some s)
      (hmove : s.stepPreparation? lane = some s') : Writes p (.preparation h lane) h .common
  | aggregate (h lane : Nat) (s s' : Station F) (hs : p.stations[h]? = some s)
      (hmove : s.stepAggregation? lane = some s') : Writes p (.aggregation h lane) h .aggregated
  | deposit (w : Nat) (stage : Stage) (job : Job) (data : Option F.Data)
      (hw : p.workers[w]? = some ⟨stage, .prefetchDeposit job data⟩) :
      Writes p (.worker w) job.handler (.data job.tx.index)
  | settle (w : Nat) (stage : Stage) (r : TxResult F.Output) (h : Nat)
      (hw : p.workers[w]? = some ⟨stage, .processSettle r h⟩) :
      Writes p (.worker w) h (.result r.index)
  | decline (c : Nat) (store : F.Store) (rules : Rules) (block : Block) (plan : Plan) (job : Job)
      (rest : List Job)
      (hcall : p.calls[c]? = some (.start store rules block (.settling plan job rest))) :
      Writes p (.caller c) job.handler (.result job.tx.index)

/-- With this move no cell is emptied, and at most one is set, which the actor may set. -/
def Fills (p : Pipeline F) (actor : Actor) (q : Pipeline F) : Prop :=
  ∃ filled : Option (Nat × Slot),
    (∀ h slot, q.isSet h slot = true ↔ p.isSet h slot = true ∨ filled = some (h, slot)) ∧
    ∀ h slot, filled = some (h, slot) → p.Writes actor h slot

theorem Fills.of_eq (hstations : q.stations = p.stations) : p.Fills actor q :=
  ⟨none, fun h slot => by simp [isSet, hstations], fun _ _ h => by cases h⟩

theorem Fills.map {g : Station F → Station F} (hg : ∀ s : Station F, s.Fills (g s) none)
    (hstations : q.stations = p.stations.map g) : p.Fills actor q := by
  refine ⟨none, fun h slot => ?_, fun _ _ h => by cases h⟩
  rw [isSet, isSet, hstations, List.getElem?_map]
  cases p.stations[h]? with
  | none => simp
  | some s => simpa using hg s slot

theorem Fills.set {s s' : Station F} {filled : Option Slot} (hs : p.stations[h]? = some s)
    (hfills : s.Fills s' filled) (hstations : q.stations = p.stations.set h s')
    (hwrites : ∀ slot, filled = some slot → p.Writes actor h slot) : p.Fills actor q := by
  refine ⟨filled.map (Prod.mk h), fun i slot => ?_, fun i slot hi => ?_⟩
  · by_cases hi : h = i
    · subst hi
      rw [isSet, isSet, hstations,
        List.getElem?_set_self (List.getElem?_eq_some_iff.mp hs).1, hs, Option.any_some,
        Option.any_some, hfills slot]
      simp
    · rw [isSet, isSet, hstations, List.getElem?_set_ne hi]
      simp [hi]
  · obtain ⟨slot', hslot, heq⟩ := Option.map_eq_some_iff.mp hi
    cases heq
    exact hwrites slot hslot

theorem fills_of_advance {s : Station F} {outcome : Except Fault (Station F)} {filled : Option Slot}
    (hs : p.stations[h]? = some s) (hfills : ∀ s', outcome = .ok s' → s.Fills s' filled)
    (hwrites : ∀ slot, filled = some slot → p.Writes actor h slot) (activity : Activity F) :
    p.Fills actor (p.advance w h outcome activity) := by
  cases outcome with
  | ok s' => exact .set hs (hfills s' rfl) rfl hwrites
  | error fault => exact .of_eq rfl

theorem fills_of_work? (hstep : p.work? w = some q) : p.Fills (.worker w) q := by
  obtain ⟨⟨stage, activity⟩, hw, hmove⟩ := workMove_of_work? hstep
  have hnone (h : Nat) (slot : Slot) (hslot : (none : Option Slot) = some slot) :
      p.Writes (.worker w) h slot := by cases hslot
  have hkeep (s : Station F) (fault : Fault) : s.Fills (s.keep fault) none :=
    .of_eq rfl rfl rfl rfl
  cases hmove with
  | prefetchFault job common s store fault hs => exact .set hs (hkeep s _) rfl (hnone _)
  | processFault job common data s store fault hs => exact .set hs (hkeep s _) rfl (hnone _)
  | prefetchDeposit job data s hs =>
      refine fills_of_advance hs (fun _ h => Station.fills_of_deposit h) ?_ _
      intro slot hslot
      cases hslot
      exact .deposit w stage job data hw
  | processAnnounce r h s hs =>
      exact fills_of_advance hs (fun _ h => Station.fills_of_announce h) (hnone _) _
  | processSettle r h s hs =>
      refine fills_of_advance hs (fun _ h => Station.fills_of_settle h) ?_ _
      intro slot hslot
      cases hslot
      exact .settle w stage r h hw
  | _ => exact .of_eq rfl

theorem fills_of_stepStart? {store : F.Store} {rules : Rules} {block : Block} {next : Starting}
    (hcall : p.calls[c]? = some (.start store rules block next))
    (hmove : p.StartMove c store rules block next q) : p.Fills (.caller c) q := by
  have hnone (h : Nat) (slot : Slot) (hslot : (none : Option Slot) = some slot) :
      p.Writes (.caller c) h slot := by cases hslot
  cases hmove with
  | openStation plan h s hs => exact .set hs (s.fills_openBlock _) rfl (hnone h)
  | prepare plan =>
      exact .map (g := fun s => s.prepare plan.lane store rules block)
        (fun _ => .of_eq rfl rfl rfl rfl) rfl
  | dispatch plan =>
      exact .map (g := fun s => s.aggregate plan.lane) (fun _ => .of_eq rfl rfl rfl rfl) rfl
  | announce plan job rest s s' hs hannounce =>
      exact .set hs (Station.fills_of_announce hannounce) rfl (hnone _)
  | settle plan job rest s s' hs hsettle =>
      refine .set hs (Station.fills_of_settle hsettle) rfl ?_
      intro slot hslot
      cases hslot
      exact .decline c store rules block plan job rest hcall
  | _ => exact .of_eq rfl

theorem fills_of_stepStation? (slot : Slot) {move : Station F → Option (Station F)}
    (hstep : p.stepStation? h move = some q)
    (hmove : ∀ s s', p.stations[h]? = some s → move s = some s' →
      s.Fills s' none ∨ s.Fills s' (some slot) ∧ p.Writes actor h slot) : p.Fills actor q := by
  obtain ⟨s, s', hs, hs', rfl⟩ := eq_of_stepStation? hstep
  rcases hmove s s' hs hs' with hfills | ⟨hfills, hwrites⟩
  · exact .set hs hfills rfl fun _ h => by cases h
  · refine .set hs hfills rfl ?_
    intro other hother
    cases hother
    exact hwrites

/-- No thread but a caller empties a cell, and none sets one that it may not set. -/
theorem fills_of_stepThread? (hactor : ∀ c, actor ≠ .caller c) (hstep : p.step? actor = some q) :
    p.Fills actor q := by
  cases actor with
  | caller c => exact absurd rfl (hactor c)
  | worker w => exact fills_of_work? hstep
  | refresher w =>
      obtain ⟨relay, copies, rfl, -⟩ := eq_of_refresh? hstep
      exact .of_eq rfl
  | receiver w =>
      obtain ⟨prefetchQueue, processQueue, workers, rfl⟩ := eq_of_receive? hstep
      exact .of_eq rfl
  | feeder lane stage =>
      obtain ⟨prefetchQueue, processQueue, feeders, rfl⟩ := eq_of_feed? hstep
      exact .of_eq rfl
  | handOver lane w =>
      obtain ⟨feeders, workers, rfl⟩ := eq_of_handOver? hstep
      exact .of_eq rfl
  | preparation h lane =>
      refine fills_of_stepStation? .common hstep fun s s' hs hmove => ?_
      exact (Station.fills_of_stepPreparation? hmove).imp_right
        fun hfills => ⟨hfills, .prepare h lane s s' hs hmove⟩
  | replay h lane =>
      refine fills_of_stepStation? .common hstep fun s s' hs hmove => ?_
      exact .inl (Station.fills_of_stepReplay? hmove)
  | aggregation h lane =>
      refine fills_of_stepStation? .aggregated hstep fun s s' hs hmove => ?_
      exact (Station.fills_of_stepAggregation? hmove).imp_right
        fun hfills => ⟨hfills, .aggregate h lane s s' hs hmove⟩

end Pipeline

end TxPipeline
