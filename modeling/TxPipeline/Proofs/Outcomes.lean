import TxPipeline.Proofs.Course
import TxPipeline.Proofs.Stations

/-!
# What comes of the results of a block

Each handler makes one aggregate of the results of a block, or raises a fault, in a thread of its
own. The call that finishes the block takes the aggregates in the order of the handlers, and gives
each to `afterBlock`. Read off a run, what the threads have come to is all that the call can find:
no fault is lost or made up, and no handler is given the aggregate of another one.
-/

namespace TxPipeline

variable {F : Flow} {calm : Prop} {handlers : List (Handler F)} {past : List (Work F)}
  {work : Work F} {phase phase' : Phase F} {p q : Pipeline F} {actor : Actor} {c h k lane : Nat}
  {due : Checkpoint → Multiset Job} {s s' : Station F} {origin store : F.Store} {block : Block}
  {receipts : List Receipt} {outcomes more : List (Nat × Except Fault F.Aggregate)}

/-- Whether the thread has ended, in one way or the other. -/
def Aggregation.isOver : Aggregation F → Bool
  | .ended => true
  | .dead _ => true
  | _ => false

/-- How the thread ends that has come to this outcome. -/
def Aggregation.final : Except Fault F.Aggregate → Aggregation F
  | .ok _ => .ended
  | .error fault => .dead fault

/-- What `postProcess` of a handler has come to, if its thread ends with the next move of an
actor. -/
def Pipeline.conclusions (p : Pipeline F) : Actor → List (Nat × Except Fault F.Aggregate)
  | .aggregation h lane =>
      match (p.stations[h]?).bind fun s => s.aggregation? lane with
      | some (.joining outcome) => [(h, outcome)]
      | _ => []
  | _ => []

/-- With the results completed in some order, the reader of handler `h` comes to this outcome. -/
def Work.Yields (handlers : List (Handler F)) (work : Work F) (h : Nat)
    (outcome : Except Fault F.Aggregate) : Prop :=
  ∃ handler common completed i j, handlers[h]? = some handler ∧
    work.commonOf handlers h = some common ∧ completed.Perm (work.resultsOf handlers h) ∧
    Reader.Follows (work.resultsOf handlers h) completed
      (handler.postProcess common work.block.length) (.done outcome) i j

/-- Every handler has come to one outcome at most, and to one that its reader can come to. -/
structure Work.Permits (handlers : List (Handler F)) (work : Work F)
    (outcomes : List (Nat × Except Fault F.Aggregate)) : Prop where
  nodup : (outcomes.map Prod.fst).Nodup
  yields : ∀ h outcome, (h, outcome) ∈ outcomes → work.Yields handlers h outcome

/-- `afterBlock` of the first `k` handlers, in their order, has made `store` of `origin`, each with
the aggregate that its own `postProcess` has come to. -/
inductive Applies (handlers : List (Handler F)) (outcomes : List (Nat × Except Fault F.Aggregate))
    (block : Block) (receipts : List Receipt) (origin : F.Store) : Nat → F.Store → Prop
  | start : Applies handlers outcomes block receipts origin 0 origin
  | next {k : Nat} {store : F.Store} {handler : Handler F} {a : F.Aggregate}
      (hbefore : Applies handlers outcomes block receipts origin k store)
      (hhandler : handlers[k]? = some handler) (houtcome : (k, .ok a) ∈ outcomes)
      (hfault : (handler.afterBlock store a block receipts).2 = none) :
      Applies handlers outcomes block receipts origin (k + 1)
        (handler.afterBlock store a block receipts).1

namespace Applies

theorem le (ha : Applies handlers outcomes block receipts origin k store) :
    k ≤ handlers.length := by
  cases ha with
  | start => exact Nat.zero_le _
  | next _ hhandler _ _ => exact (List.getElem?_eq_some_iff.mp hhandler).1

theorem mono (ha : Applies handlers outcomes block receipts origin k store)
    (hsub : outcomes ⊆ more) : Applies handlers more block receipts origin k store := by
  induction ha with
  | start => exact .start
  | next _ hhandler houtcome hfault ih => exact .next ih hhandler (hsub houtcome) hfault

end Applies

/-! ## At a station -/

namespace Station

/-- Nothing happens to the aggregations of a station, and no aggregate is written. -/
structure Spares (s s' : Station F) : Prop where
  aggregation?_eq : ∀ lane, s'.aggregation? lane = s.aggregation? lane
  value : ∀ a, s'.aggregated.value = some a → s.aggregated.value = some a

theorem Spares.refl (s : Station F) : s.Spares s := ⟨fun _ => rfl, fun _ h => h⟩

theorem map_aggregation_updateLane (s : Station F) (i : Nat) {f : Lane F → Lane F}
    (hf : ∀ l : Lane F, (f l).aggregation = l.aggregation) :
    (s.updateLane i f).lanes.map (·.aggregation) = s.lanes.map (·.aggregation) :=
  map_modify_of_eq hf _ _

theorem aggregation?_of_map (hlanes : s'.lanes.map (·.aggregation) = s.lanes.map (·.aggregation))
    (lane : Nat) : s'.aggregation? lane = s.aggregation? lane := by
  rw [aggregation?, aggregation?, ← List.getElem?_map, ← List.getElem?_map, hlanes]

theorem Edits.spares (h : s.Edits s') : s.Spares s' where
  aggregation?_eq := aggregation?_of_map (h.map_lanes (·.aggregation) fun _ _ => rfl).2
  value := by
    intro a ha
    cases h with
    | stay => exact ha
    | keep fault => exact ha
    | announce r h =>
        obtain ⟨-, lanes, rfl, -⟩ := eq_of_announce h
        exact ha
    | settle r h =>
        obtain ⟨cell, cell', -, -, rfl⟩ := eq_of_settle h
        exact ha
    | deposit i data h =>
        obtain ⟨cell, cell', -, -, rfl⟩ := eq_of_deposit h
        exact ha
    | drain i h =>
        obtain ⟨cell, r, cell', -, -, rfl⟩ := eq_of_drain? h
        exact ha
    | takeAggregate b h =>
        obtain ⟨cell, htake, rfl⟩ := eq_of_takeAggregate? h
        rw [(Cell.eq_of_take? htake).2] at ha
        cases ha
    | closeBlock =>
        simp [Station.closeBlock] at ha

theorem spares_of_stepPreparation? (h : s.stepPreparation? lane = some s') : s.Spares s' := by
  cases preparationMove_of_stepPreparation? h <;>
    exact ⟨aggregation?_of_map (map_aggregation_updateLane s _ fun _ => rfl), fun _ ha => ha⟩

theorem spares_of_stepReplay? (h : s.stepReplay? lane = some s') : s.Spares s' := by
  cases replayMove_of_stepReplay? h <;>
    exact ⟨aggregation?_of_map (map_aggregation_updateLane s _ fun _ => rfl), fun _ ha => ha⟩

theorem aggregation?_updateLane (s : Station F) (i lane : Nat) (f : Lane F → Lane F) :
    (s.updateLane i f).aggregation? lane =
      if i = lane then (s.lanes[lane]?).map fun l => (f l).aggregation
      else s.aggregation? lane := by
  simp only [aggregation?, updateLane, List.getElem?_modify]
  split <;> simp [Function.comp_def]

/-- With its last move an aggregation writes the aggregate, or dies of the fault of its reader. -/
theorem aggregation?_of_joining {outcome : Except Fault F.Aggregate}
    (hjoining : s.aggregation? lane = some (.joining outcome)) (hnone : s.aggregated.value = none)
    (h : s.stepAggregation? lane = some s') :
    s'.aggregation? lane = some (.final outcome) ∧ s'.aggregated.value = outcome.toOption := by
  obtain ⟨l, hl, hlane⟩ := Option.map_eq_some_iff.mp hjoining
  have hlanes :=
    aggregation?_updateLane s lane lane fun l => { l with aggregation := .final outcome }
  rw [if_pos rfl, hl] at hlanes
  simp only [stepAggregation?, hl, hlane] at h
  split at h
  swap
  · cases h
  cases outcome with
  | error fault =>
      cases h
      exact ⟨hlanes, hnone⟩
  | ok a =>
      obtain ⟨cell, hset, hcell⟩ := Cell.set?_of_none hnone a
      simp only [hset, Option.some.injEq] at h
      obtain rfl := h
      exact ⟨hlanes, hcell⟩

/-- The aggregation of the lane goes on, and no aggregate is written. -/
structure Continues (lane : Nat) (s s' : Station F) : Prop where
  aggregated_eq : s'.aggregated = s.aggregated
  goes : ∃ a, s'.aggregation? lane = some a ∧ a.isOver = false

theorem Continues.of_updateLane {f : Lane F → Lane F} (hlt : lane < s.lanes.length)
    (hf : ∀ l, (f l).aggregation.isOver = false) : Continues lane s (s.updateLane lane f) where
  aggregated_eq := rfl
  goes := by
    refine ⟨(f s.lanes[lane]).aggregation, ?_, hf _⟩
    rw [aggregation?_updateLane, if_pos rfl, List.getElem?_eq_getElem hlt, Option.map_some]

theorem Continues.updateLane {t : Station F} (ht : Continues lane s t) (i : Nat)
    {f : Lane F → Lane F} (hf : ∀ l : Lane F, (f l).aggregation = l.aggregation) :
    Continues lane s (t.updateLane i f) where
  aggregated_eq := ht.aggregated_eq
  goes := by
    obtain ⟨a, ha, hgoes⟩ := ht.goes
    have hkept := aggregation?_of_map (map_aggregation_updateLane t i hf) lane
    exact ⟨a, hkept.trans ha, hgoes⟩

theorem ReaderMove.continues {source : Nat} {l feed : Lane F}
    {reader : Reader (TxResult F.Output) F.Aggregate} (hlt : lane < s.lanes.length)
    (h : s.ReaderMove lane source l feed reader s') : Continues lane s s' := by
  cases h with
  | done outcome =>
      exact (Continues.of_updateLane hlt fun _ => rfl).updateLane source fun _ => rfl
  | byCompletion k r stream hnext =>
      refine ⟨rfl, (Continues.of_updateLane ?_ fun _ => rfl).goes⟩
      exact hlt.trans_eq (List.length_modify ..).symm
  | _ => exact .of_updateLane hlt fun _ => rfl

/-- Every other move of an aggregation goes on, unless it misses its stream. -/
theorem continues_of_stepAggregation?
    (hgoing : ∀ outcome, s.aggregation? lane ≠ some (.joining outcome))
    (hreceiver : s.aggregation? lane = some .claiming → s.receiver.isSome = true)
    (h : s.stepAggregation? lane = some s') : Continues lane s s' := by
  have hlt {l : Lane F} (hl : s.lanes[lane]? = some l) : lane < s.lanes.length :=
    (List.getElem?_eq_some_iff.mp hl).1
  have hlane {l : Lane F} (hl : s.lanes[lane]? = some l) :
      s.aggregation? lane = some l.aggregation := by rw [aggregation?, hl, Option.map_some]
  cases aggregationMove_of_stepAggregation? h with
  | streamMissing l hl hclaiming hmissing =>
      have hsome := hreceiver (hclaiming ▸ hlane hl)
      rw [hmissing] at hsome
      cases hsome
  | claim l source hl => exact ⟨rfl, (Continues.of_updateLane (hlt hl) fun _ => rfl).goes⟩
  | gather l source common hl => exact .of_updateLane (hlt hl) fun _ => rfl
  | read l feed source reader hl hreading hfeed hmove => exact hmove.continues (hlt hl)
  | joinFault l fault hl hjoining => exact absurd (hjoining ▸ hlane hl) (hgoing _)
  | alreadySet l a hl hjoining => exact absurd (hjoining ▸ hlane hl) (hgoing _)
  | write l a cell hl hjoining => exact absurd (hjoining ▸ hlane hl) (hgoing _)

/-- Only the aggregation of the lane that is served can move. -/
theorem Fits.serves_of_stepAggregation? {berth : Berth}
    (hs : s.Fits calm handlers past work h due berth) (hstep : s.stepAggregation? lane = some s') :
    lane = past.length ∧ ∃ progress l, s.lanes[lane]? = some l ∧
      s.Serves calm handlers work h due progress past.length l := by
  obtain ⟨moved, hl⟩ : ∃ moved, s.lanes[lane]? = some moved := by
    cases hl : s.lanes[lane]? with
    | none => simp [Station.stepAggregation?, hl] at hstep
    | some moved => exact ⟨moved, rfl⟩
  have hnot (other : Work F) : ¬ moved.Done handlers h other := by
    intro hdone
    simp [Station.stepAggregation?, hl, hdone.aggregation] at hstep
  have hall {works : List (Work F)} (hdone : List.Forall₂ (Lane.Done handlers h) works s.lanes) :
      False := by
    obtain ⟨other, hother⟩ := exists_done_of_getElem? hdone hl
    exact hnot other hother
  cases berth with
  | unopened => exact (hall hs.2).elim
  | closed => exact (hall hs.2).elim
  | serving progress =>
      obtain ⟨old, l, hlanes, hold, hserves⟩ := hs
      obtain ⟨hlane, rfl⟩ := lane_eq hlanes hold hl hnot
      exact ⟨hlane, progress, moved, hl, hserves⟩

end Station

theorem Starting.dispatched_of_berth {next : Starting} {progress : Progress}
    (hnext : ∀ plan, next ≠ .activating plan) (hberth : next.berth h = .serving progress) :
    progress.dispatched = false := by
  cases next with
  | activating plan => exact absurd rfl (hnext plan)
  | opening plan k =>
      simp only [Starting.berth] at hberth
      split at hberth <;> cases hberth
      rfl
  | _ => cases hberth <;> rfl

theorem Aggregates.idle_of_not_dispatched {progress : Progress} {receiver : Option Nat}
    {aggregated : Option F.Aggregate} {l : Lane F} {aggregation : Aggregation F}
    (ha : Aggregates calm handlers work h progress lane receiver aggregated l aggregation)
    (hnot : progress.dispatched = false) : aggregation = .idle ∧ aggregated = none := by
  cases ha with
  | idle _ _ _ hnone _ => exact ⟨rfl, hnone⟩
  | claiming hd _ _ _ _ => simp [hnot] at hd
  | gathering hd _ _ _ _ => simp [hnot] at hd
  | reading _ hd _ _ _ _ _ => simp [hnot] at hd
  | joining _ hd _ _ _ _ => simp [hnot] at hd
  | ended _ hd _ _ _ _ => simp [hnot] at hd
  | dead _ _ hd _ _ _ _ _ => simp [hnot] at hd

namespace Pipeline

/-- No thread but an aggregation touches the aggregates, and callers only take them. -/
theorem spares_of_stepThread? (hcaller : ∀ c, actor ≠ .caller c)
    (haggregation : ∀ h lane, actor ≠ .aggregation h lane) (hstep : p.step? actor = some q) :
    List.Forall₂ Station.Spares p.stations q.stations := by
  have hrefl : List.Forall₂ Station.Spares p.stations p.stations :=
    List.forall₂_same.mpr fun s _ => .refl s
  cases actor with
  | caller c => exact absurd rfl (hcaller c)
  | aggregation h lane => exact absurd rfl (haggregation h lane)
  | worker w => exact (edited_of_work? hstep).imp fun _ _ => Station.Edits.spares
  | refresher w =>
      obtain ⟨relay, copies, rfl, -⟩ := eq_of_refresh? hstep
      exact hrefl
  | receiver w =>
      obtain ⟨prefetchQueue, processQueue, workers, rfl⟩ := eq_of_receive? hstep
      exact hrefl
  | feeder lane stage =>
      obtain ⟨prefetchQueue, processQueue, feeders, rfl⟩ := eq_of_feed? hstep
      exact hrefl
  | handOver lane w =>
      obtain ⟨feeders, workers, rfl⟩ := eq_of_handOver? hstep
      exact hrefl
  | preparation h lane =>
      obtain ⟨s, s', hs, hs', rfl⟩ := eq_of_stepStation? hstep
      exact forall₂_set .refl hs (Station.spares_of_stepPreparation? hs')
  | replay h lane =>
      obtain ⟨s, s', hs, hs', rfl⟩ := eq_of_stepStation? hstep
      exact forall₂_set .refl hs (Station.spares_of_stepReplay? hs')

/-- Until the jobs of a block are dispatched, nobody aggregates anything. -/
theorem During.aggregation_of_starting {next : Starting}
    (hp : p.During calm handlers past work (.starting c next))
    (hnext : ∀ plan, next ≠ .activating plan) (hs : p.stations[h]? = some s) :
    s.aggregated.value = none ∧ ∀ a, s.aggregation? past.length = some a → a = .idle := by
  have hfits := hp.stations h s hs
  cases hberth : next.berth h with
  | closed => exact absurd hberth (Starting.berth_ne_closed _ _)
  | unopened =>
      rw [Phase.berth, hberth] at hfits
      obtain ⟨hclear, hdone⟩ := hfits
      refine ⟨hclear.aggregated, fun a ha => ?_⟩
      rw [Station.aggregation?, List.getElem?_eq_none hdone.length_eq.ge] at ha
      cases ha
  | serving progress =>
      have hdispatched := Starting.dispatched_of_berth hnext hberth
      rw [Phase.berth, hberth] at hfits
      obtain ⟨old, l, hlanes, hold, hserves⟩ := hfits
      have hl : s.aggregation? past.length = some l.aggregation := by
        simp [Station.aggregation?, hlanes, hold.length_eq]
      obtain ⟨hidle, hnone⟩ := hserves.aggregates.idle_of_not_dispatched hdispatched
      refine ⟨hnone, fun a ha => ?_⟩
      rw [hl, hidle] at ha
      exact (Option.some.inj ha).symm

end Pipeline

/-! ## In a run -/

/-- What the aggregations of a lane have come to. -/
structure Gathers (handlers : List (Handler F)) (work : Work F) (lane : Nat) (p : Pipeline F)
    (outcomes : List (Nat × Except Fault F.Aggregate)) : Prop
    extends work.Permits handlers outcomes where
  ended : ∀ h outcome, (h, outcome) ∈ outcomes → ∃ s a, p.stations[h]? = some s ∧
    s.aggregation? lane = some a ∧ a.isOver = true
  dead : ∀ (h : Nat) s fault, p.stations[h]? = some s → s.aggregation? lane = some (.dead fault) →
    (h, .error fault) ∈ outcomes
  kept : ∀ (h : Nat) s a, p.stations[h]? = some s → s.aggregated.value = some a →
    (h, .ok a) ∈ outcomes

namespace Gathers

theorem spare (hg : Gathers handlers work lane p outcomes)
    (hspares : List.Forall₂ Station.Spares p.stations q.stations) :
    Gathers handlers work lane q outcomes := by
  have hback {h : Nat} {s' : Station F} (hs : q.stations[h]? = some s') :
      ∃ s, p.stations[h]? = some s ∧ s.Spares s' := by
    obtain ⟨hlt, rfl⟩ := List.getElem?_eq_some_iff.mp hs
    have hlt' : h < p.stations.length := hspares.length_eq ▸ hlt
    exact ⟨_, List.getElem?_eq_getElem hlt', hspares.get hlt' hlt⟩
  refine ⟨hg.toPermits, fun h outcome hmem => ?_, fun h s fault hs hdead => ?_,
    fun h s a hs ha => ?_⟩
  · obtain ⟨s, a, hs, ha, hover⟩ := hg.ended h outcome hmem
    have hlt := (List.getElem?_eq_some_iff.mp hs).1
    obtain ⟨other, hother, hspare⟩ := hback (List.getElem?_eq_getElem (hspares.length_eq ▸ hlt))
    obtain rfl : other = s := Option.some.inj (hother.symm.trans hs)
    exact ⟨_, a, List.getElem?_eq_getElem (hspares.length_eq ▸ hlt),
      (hspare.aggregation?_eq lane).trans ha, hover⟩
  · obtain ⟨other, hother, hspare⟩ := hback hs
    exact hg.dead h other fault hother ((hspare.aggregation?_eq lane).symm.trans hdead)
  · obtain ⟨other, hother, hspare⟩ := hback hs
    exact hg.kept h other a hother (hspare.value a ha)

/-- Nothing is told of a block of which nothing was dispatched. -/
theorem of_starting {next : Starting} (hp : p.During calm handlers past work (.starting c next))
    (hnext : ∀ plan, next ≠ .activating plan) : Gathers handlers work past.length p [] where
  nodup := List.nodup_nil
  yields := fun _ _ h => absurd h List.not_mem_nil
  ended := fun _ _ h => absurd h List.not_mem_nil
  dead := fun h s fault hs hdead => by
    cases (hp.aggregation_of_starting hnext hs).2 _ hdead
  kept := fun h s a hs ha => by
    rw [(hp.aggregation_of_starting hnext hs).1] at ha
    cases ha

theorem eq_nil_of_starting {next : Starting} (hg : Gathers handlers work past.length p outcomes)
    (hp : p.During calm handlers past work (.starting c next))
    (hnext : ∀ plan, next ≠ .activating plan) : outcomes = [] := by
  refine List.eq_nil_iff_forall_not_mem.mpr ?_
  rintro ⟨h, outcome⟩ hmem
  obtain ⟨s, a, hs, ha, hover⟩ := hg.ended h outcome hmem
  obtain rfl := (hp.aggregation_of_starting hnext hs).2 a ha
  cases hover

section Aggregate

variable (hg : Gathers handlers work past.length p outcomes) (hs : p.stations[h]? = some s)

include hg hs

/-- An aggregation that has not ended has not told anything. -/
theorem not_mem {a : Aggregation F} (ha : s.aggregation? past.length = some a)
    (hgoes : a.isOver = false) (outcome : Except Fault F.Aggregate) : (h, outcome) ∉ outcomes := by
  intro hmem
  obtain ⟨other, b, hother, hb, hover⟩ := hg.ended h outcome hmem
  obtain rfl : s = other := Option.some.inj (hs.symm.trans hother)
  obtain rfl : a = b := Option.some.inj (ha.symm.trans hb)
  rw [hgoes] at hover
  cases hover

/-- Those that have told something are other ones, and are not touched. -/
theorem ended_set {a : Aggregation F} (ha : s.aggregation? past.length = some a)
    (hgoes : a.isOver = false) {k : Nat} {outcome : Except Fault F.Aggregate}
    (hmem : (k, outcome) ∈ outcomes) :
    ∃ other b, (p.setStation h s').stations[k]? = some other ∧
      other.aggregation? past.length = some b ∧ b.isOver = true := by
  obtain ⟨other, b, hother, hb, hover⟩ := hg.ended k outcome hmem
  refine ⟨other, b, ?_, hb, hover⟩
  rw [Pipeline.getElem?_setStation hs, if_neg, hother]
  rintro rfl
  exact hg.not_mem hs ha hgoes outcome hmem

/-- An aggregation that goes on tells nothing. -/
theorem go {a : Aggregation F} (ha : s.aggregation? past.length = some a)
    (hgoes : a.isOver = false) (hs' : Station.Continues past.length s s') :
    Gathers handlers work past.length (p.setStation h s') outcomes where
  nodup := hg.nodup
  yields := hg.yields
  ended := fun k outcome hmem => hg.ended_set hs ha hgoes hmem
  dead := by
    intro k other fault hother hdead
    rw [Pipeline.getElem?_setStation hs] at hother
    split at hother
    · cases hother
      obtain ⟨b, hb, hgoes⟩ := hs'.goes
      rw [hb] at hdead
      cases hdead
      cases hgoes
    · exact hg.dead k other fault hother hdead
  kept := by
    intro k other value hother hvalue
    rw [Pipeline.getElem?_setStation hs] at hother
    split at hother
    · rename_i heq
      cases hother
      rw [hs'.aggregated_eq] at hvalue
      exact heq ▸ hg.kept h s value hs hvalue
    · exact hg.kept k other value hother hvalue

/-- With its last move an aggregation tells what its reader has come to. -/
theorem finish {outcome : Except Fault F.Aggregate}
    (hjoining : s.aggregation? past.length = some (.joining outcome))
    (hyields : work.Yields handlers h outcome)
    (hfinal : s'.aggregation? past.length = some (.final outcome))
    (hvalue : s'.aggregated.value = outcome.toOption) :
    Gathers handlers work past.length (p.setStation h s') (outcomes ++ [(h, outcome)]) where
  nodup := by
    rw [List.map_append]
    refine List.Nodup.append hg.nodup (List.nodup_singleton h) ?_
    intro k hk hkh
    obtain rfl := List.mem_singleton.mp hkh
    obtain ⟨⟨k, told⟩, hmem, rfl⟩ := List.mem_map.mp hk
    exact hg.not_mem hs hjoining rfl told hmem
  yields := by
    intro k told hmem
    rcases List.mem_append.mp hmem with hmem | hmem
    · exact hg.yields k told hmem
    · cases List.mem_singleton.mp hmem
      exact hyields
  ended := by
    intro k told hmem
    rcases List.mem_append.mp hmem with hmem | hmem
    · exact hg.ended_set hs hjoining rfl hmem
    · cases List.mem_singleton.mp hmem
      refine ⟨s', _, ?_, hfinal, ?_⟩
      · rw [Pipeline.getElem?_setStation hs, if_pos rfl]
      · cases outcome <;> rfl
  dead := by
    intro k other fault hother hdead
    rw [Pipeline.getElem?_setStation hs] at hother
    split at hother
    · rename_i heq
      cases hother
      rw [hfinal] at hdead
      cases outcome <;> cases hdead
      exact List.mem_append.mpr (.inr (by rw [heq]; exact List.mem_singleton_self _))
    · exact List.mem_append.mpr (.inl (hg.dead k other fault hother hdead))
  kept := by
    intro k other value hother hsome
    rw [Pipeline.getElem?_setStation hs] at hother
    split at hother
    · rename_i heq
      cases hother
      rw [hvalue] at hsome
      cases outcome <;> cases hsome
      exact List.mem_append.mpr (.inr (by rw [heq]; exact List.mem_singleton_self _))
    · exact List.mem_append.mpr (.inl (hg.kept k other value hother hsome))

theorem aggregate (hp : p.During calm handlers past work phase)
    (hstep : s.stepAggregation? lane = some s') :
    Gathers handlers work past.length (p.setStation h s')
      (outcomes ++ p.conclusions (.aggregation h lane)) := by
  obtain ⟨rfl, progress, l, hl, hserves⟩ :=
    (hp.stations h s hs).serves_of_stepAggregation? hstep
  have hlane : s.aggregation? past.length = some l.aggregation := by
    rw [Station.aggregation?, hl, Option.map_some]
  have haggregates := hserves.aggregates
  by_cases hjoining : ∃ outcome, l.aggregation = .joining outcome
  · obtain ⟨outcome, hjoining⟩ := hjoining
    rw [hjoining] at haggregates hlane
    cases haggregates with
    | joining _ _ _ _ hnone hreads =>
        obtain ⟨hfinal, hvalue⟩ := Station.aggregation?_of_joining hlane hnone hstep
        obtain ⟨handler, common, completed, i, j, hhandler, hcommon, -, hperm, hfollows, -⟩ :=
          hreads.exists_follows hserves.announced
        have hconclusions : p.conclusions (.aggregation h past.length) = [(h, outcome)] := by
          simp [Pipeline.conclusions, hs, hlane]
        rw [hconclusions]
        exact hg.finish hs hlane ⟨handler, common, completed, i, j, hhandler, hcommon, hperm,
          hfollows⟩ hfinal hvalue
  · have hgoing (outcome : Except Fault F.Aggregate) : l.aggregation ≠ .joining outcome :=
      fun h => hjoining ⟨outcome, h⟩
    have hreceiver (hclaiming : s.aggregation? past.length = some .claiming) :
        s.receiver.isSome = true := by
      rw [hlane] at hclaiming
      rw [Option.some.inj hclaiming] at haggregates
      cases haggregates with
      | claiming _ _ hreceiver _ _ => rw [hreceiver, Option.isSome_some]
    have hover : l.aggregation.isOver = false := by
      cases hcase : l.aggregation with
      | ended => simp [Station.stepAggregation?, hl, hcase] at hstep
      | dead fault => simp [Station.stepAggregation?, hl, hcase] at hstep
      | _ => rfl
    have hconclusions : p.conclusions (.aggregation h past.length) = [] := by
      simp only [Pipeline.conclusions, hs, Option.bind_some, hlane]
      split
      · rename_i outcome heq
        exact absurd (Option.some.inj heq) (hgoing outcome)
      · rfl
    rw [hconclusions, List.append_nil]
    apply hg.go hs hlane hover
    apply Station.continues_of_stepAggregation? _ hreceiver hstep
    intro outcome heq
    exact hgoing outcome (Option.some.inj (hlane.symm.trans heq))

end Aggregate

end Gathers

/-- How many of `n` handlers have changed the store. -/
def Finishing.concluded (n : Nat) : Finishing → Nat
  | .take => 0
  | .joinPreparation _ _ => 0
  | .joinFeeders _ => 0
  | .joinAggregation _ k => k
  | .conclude _ k => k
  | _ => n

/-- What the aggregations have come to is told, and the call that finishes the block has given it to
`afterBlock`. -/
structure Tells (handlers : List (Handler F)) (work : Work F) (past : List (Work F))
    (phase : Phase F) (p : Pipeline F) (outcomes : List (Nat × Except Fault F.Aggregate)) :
    Prop where
  gathers : Gathers handlers work past.length p outcomes
  applies : ∀ f origin store block receipts next,
    phase = .finishing f origin store block receipts next →
    Applies handlers outcomes block receipts origin (next.concluded handlers.length) store

namespace Tells

theorem spare (ht : Tells handlers work past phase p outcomes)
    (hspares : List.Forall₂ Station.Spares p.stations q.stations) :
    Tells handlers work past phase q outcomes :=
  ⟨ht.gathers.spare hspares, ht.applies⟩

theorem spares_of_eq (hstations : q.stations = p.stations) :
    List.Forall₂ Station.Spares p.stations q.stations := by
  rw [hstations]
  exact List.forall₂_same.mpr fun s _ => .refl s

/-- Dispatching begins the aggregations; before that nothing is told. -/
theorem start {next next' : Starting} (ht : Tells handlers work past (.starting c next) p outcomes)
    (hp : p.During calm handlers past work (.starting c next))
    (hq : q.During calm handlers past work (.starting c next'))
    (hmove : p.StartMove c work.store work.rules work.block next q) :
    Tells handlers work past (.starting c next') q outcomes := by
  refine ⟨?_, fun f origin store block receipts next h => by cases h⟩
  have hnext (plan : Plan) : next ≠ .activating plan := by
    rintro rfl
    cases hmove with
    | activate plan =>
        have hcall := hq.call_eq
        rw [Pipeline.getElem?_of_set_calls hp.call_eq rfl] at hcall
        cases hcall
  obtain rfl := ht.gathers.eq_nil_of_starting hp hnext
  by_cases hnext' : ∀ plan, next' ≠ .activating plan
  · exact .of_starting hq hnext'
  push Not at hnext'
  obtain ⟨plan, rfl⟩ := hnext'
  have hcall := hq.call_eq
  cases hmove with
  | refuse | acquire | enter | closed | scanFault | scanError | scan => exact hp.valid.elim
  | dispatch plan' =>
      obtain rfl : plan' = work.plan handlers past.length := hp.valid
      have hget {h : Nat} {s : Station F}
          (hs : (p.dispatchAll (work.plan handlers past.length)).stations[h]? = some s) :
          ∃ old, p.stations[h]? = some old ∧ s = old.aggregate past.length := by
        rw [show (p.dispatchAll _).stations = p.stations.map _ from rfl, List.getElem?_map] at hs
        obtain ⟨old, hold, heq⟩ := Option.map_eq_some_iff.mp hs
        exact ⟨old, hold, heq.symm⟩
      refine ⟨⟨List.nodup_nil, fun _ _ h => absurd h List.not_mem_nil⟩,
        fun _ _ h => absurd h List.not_mem_nil, fun h s fault hs hdead => ?_,
        fun h s a hs ha => ?_⟩
      · obtain ⟨old, hold, rfl⟩ := hget hs
        rw [Station.aggregate, Station.aggregation?_updateLane, if_pos rfl] at hdead
        obtain ⟨l, -, hl⟩ := Option.map_eq_some_iff.mp hdead
        cases hl
      · obtain ⟨old, hold, rfl⟩ := hget hs
        have hnone := (hp.aggregation_of_starting hnext hold).1
        rw [show (old.aggregate past.length).aggregated = old.aggregated from rfl, hnone] at ha
        cases ha
  | _ =>
      rw [Pipeline.getElem?_of_set_calls hp.call_eq rfl] at hcall
      cases hcall

/-- Whatever the call that finishes the block gives to `afterBlock` was told. -/
theorem finish {f : Nat} {store' : F.Store} {next next' : Finishing}
    (ht : Tells handlers work past (.finishing f origin store block receipts next) p outcomes)
    (hp : p.During calm handlers past work (.finishing f origin store block receipts next))
    (hmove : p.FinishMove f store block receipts next q)
    (hnext : q.calls[f]? = some (.finish store' block receipts next')) :
    Applies handlers outcomes block receipts origin (next'.concluded handlers.length) store' := by
  have happlies := ht.applies f origin store block receipts next rfl
  have hgoes {call : Call F} (hcalls : q.calls = p.calls.set f call) :
      call = .finish store' block receipts next' := by
    rw [Pipeline.getElem?_of_set_calls hp.finish_eq hcalls] at hnext
    exact Option.some.inj hnext
  cases hmove with
  | take | miss | mismatch => exact hp.finish_valid.elim
  | preparationDead | aggregationDead | concludeFault | leave | leaveFault => cases hgoes rfl
  | aggregated active k hs =>
      cases hgoes rfl
      obtain rfl : k = handlers.length := Nat.le_antisymm happlies.le (hp.crew.length_le hs)
      exact happlies
  | conclude active k s s' a made hs htake hafter =>
      cases hgoes rfl
      obtain ⟨⟨taken, cell⟩, htaken, heq⟩ := Option.bind_eq_some_iff.mp htake
      cases heq
      have hhandler : handlers[k]? = some s.handler := by
        rw [hp.crew.getElem?_handlers, hs, Option.map_some]
      have hnext := Applies.next happlies hhandler
        (ht.gathers.kept k s a hs (Cell.eq_of_take? htaken).1) (by rw [hafter])
      rwa [hafter] at hnext
  | _ =>
      cases hgoes rfl
      exact happlies

theorem invoke (ht : Tells handlers work past phase p outcomes) (task : Task F) :
    Tells handlers work past phase (p.invoke task) outcomes :=
  ht.spare (spares_of_eq rfl)

/-- A thread tells something only if it is an aggregation that ends. -/
theorem stepThread? (ht : Tells handlers work past phase p outcomes)
    (hp : p.During calm handlers past work phase) (hactor : ∀ i, actor ≠ .caller i)
    (hstep : p.step? actor = some q) :
    Tells handlers work past phase q (outcomes ++ p.conclusions actor) := by
  by_cases haggregation : ∀ h lane, actor ≠ .aggregation h lane
  · have hnone : p.conclusions actor = [] := by
      cases actor with
      | aggregation h lane => exact absurd rfl (haggregation h lane)
      | _ => rfl
    rw [hnone, List.append_nil]
    exact ht.spare (Pipeline.spares_of_stepThread? hactor haggregation hstep)
  · push Not at haggregation
    obtain ⟨h, lane, rfl⟩ := haggregation
    obtain ⟨s, s', hs, hs', rfl⟩ := Pipeline.eq_of_stepStation? hstep
    constructor
    · exact ht.gathers.aggregate hs hp hs'
    · intro f origin store block receipts next hphase
      apply (ht.applies f origin store block receipts next hphase).mono
      exact List.subset_append_left ..

/-- A caller tells nothing. -/
theorem advance (ht : Tells handlers work past phase p outcomes)
    (hp : p.During calm handlers past work phase) (hq : q.During calm handlers past work phase')
    (hstep : p.step? actor = some q)
    (hadvance : Pipeline.Advance work past.length p actor q phase phase') :
    Tells handlers work past phase' q (outcomes ++ p.conclusions actor) := by
  have hnil {i : Nat} (hactor : actor = .caller i) :
      outcomes ++ p.conclusions actor = outcomes := by
    rw [hactor]
    exact List.append_nil outcomes
  cases hadvance with
  | thread _ hactor => exact ht.stepThread? hp hactor hstep
  | aside _ haside =>
      obtain ⟨i, hactor⟩ := haside.exists_caller
      rw [hnil hactor]
      exact ht.spare (spares_of_eq haside.stations_eq)
  | activate i plan haside _ =>
      obtain ⟨j, hactor⟩ := haside.exists_caller
      rw [hnil hactor]
      constructor
      · exact ht.gathers.spare (spares_of_eq haside.stations_eq)
      · intro f origin store block receipts next hphase
        cases hphase
  | take f store block receipts haside =>
      obtain ⟨j, hactor⟩ := haside.exists_caller
      rw [hnil hactor]
      constructor
      · exact ht.gathers.spare (spares_of_eq haside.stations_eq)
      · intro f' origin store' block' receipts' next hphase
        cases hphase
        exact .start
  | start i next next' hactor hmove hnext =>
      rw [hnil hactor]
      exact ht.start hp hq hmove
  | finish f origin store store' block receipts next next' hactor hmove hnext =>
      rw [hnil hactor]
      subst hactor
      have hfinish : p.stepFinish? f store block receipts next = some q := by
        rwa [Pipeline.step?_of_finish hp.finish_eq] at hstep
      constructor
      · apply ht.gathers.spare
        exact (Pipeline.edited_of_stepFinish? hfinish).imp fun _ _ => Station.Edits.spares
      · intro f' origin' made block' receipts' next'' hphase
        cases hphase
        exact ht.finish hp hmove hnext

end Tells

namespace Pipeline

theorem Between.conclusions_eq_nil (hp : p.Between calm handlers past)
    (hstep : p.step? actor = some q) : p.conclusions actor = [] := by
  cases actor with
  | aggregation h lane =>
      change p.stepStation? h _ = some q at hstep
      rw [hp.stepStation? fun _ _ => stepAggregation?_of_done] at hstep
      cases hstep
  | _ => rfl

/-- What the aggregations have come to since a block came into work is told. -/
theorem carries_tells (calm : Prop) (handlers : List (Handler F)) (work : Work F) (c : Nat) :
    Carries calm handlers work c conclusions fun past phase p outcomes =>
      Tells handlers work past phase p outcomes where
  rest := fun hp _ hstep => hp.conclusions_eq_nil hstep
  begin := fun hp => ⟨.of_starting hp (by simp), fun _ _ _ _ _ _ h => by cases h⟩
  invoke := fun task ht => ht.invoke task
  advance := fun hp hq _ hstep hadvance ht => ht.advance hp hq hstep hadvance

end Pipeline

end TxPipeline
