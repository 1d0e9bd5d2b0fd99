import TxPipeline.Proofs.Run
import TxPipeline.Proofs.Service.Results
import TxPipeline.Proofs.Station.Moves

/-!
# The threads of a lane

The preparation, the replay and the aggregation of the lane that a station serves move without
losing what holds at the station. The threads of earlier lanes have all ended.
-/

namespace TxPipeline

variable {F : Flow} {calm : Prop} {handlers : List (Handler F)} {past : List (Work F)}
  {work : Work F} {h : Nat} {due : Checkpoint → Multiset Job} {progress : Progress}
  {lane : Nat} {s s' : Station F} {l : Lane F}

theorem Work.nodup_resultsOf (hlen : work.block.length ≤ 2 ^ 32) :
    (work.resultsOf handlers h).Nodup :=
  (Block.nodup_indexed hlen).map fun _ _ heq => congrArg TxResult.tx heq

theorem Work.getElem?_resultsOf (i : Nat) :
    (work.resultsOf handlers h)[i]? =
      (work.block.indexed[i]?).map (work.resultOf handlers h) := by
  rw [resultsOf, List.getElem?_map]

/-! ## Lanes of earlier blocks -/

theorem Lane.Done.stepPreparation? {l : Lane F} (hl : s.lanes[lane]? = some l)
    (hdone : l.Done handlers h work) : s.stepPreparation? lane = none := by
  rw [Station.stepPreparation?, hl]
  simp [hdone.preparation]

theorem Lane.Done.stepReplay? {l : Lane F} (hl : s.lanes[lane]? = some l)
    (hdone : l.Done handlers h work) : s.stepReplay? lane = none := by
  rw [Station.stepReplay?, hl]
  simp [hdone.replay]

theorem Lane.Done.stepAggregation? {l : Lane F} (hl : s.lanes[lane]? = some l)
    (hdone : l.Done handlers h work) : s.stepAggregation? lane = none := by
  rw [Station.stepAggregation?, hl]
  simp [hdone.aggregation]

theorem exists_done_of_getElem? {works : List (Work F)} {lanes : List (Lane F)}
    (hdone : List.Forall₂ (Lane.Done handlers h) works lanes) (hl : lanes[lane]? = some l) :
    ∃ work, l.Done handlers h work := by
  induction hdone generalizing lane with
  | nil => simp at hl
  | cons hfirst _ ih =>
      cases lane with
      | zero =>
          cases hl
          exact ⟨_, hfirst⟩
      | succ n => exact ih hl

/-- A lane in which a thread can move is the one that is served. -/
theorem Station.Fits.lane_eq {old : List (Lane F)} {moved : Lane F}
    (hlanes : s.lanes = old ++ [l]) (hold : List.Forall₂ (Lane.Done handlers h) past old)
    (hl : s.lanes[lane]? = some moved) (hmoved : ∀ work, ¬ moved.Done handlers h work) :
    lane = past.length ∧ moved = l := by
  have hlen := hold.length_eq
  rw [hlanes] at hl
  rcases Nat.lt_trichotomy lane old.length with hlt | heq | hgt
  · rw [List.getElem?_append_left hlt] at hl
    obtain ⟨work, hdone⟩ := exists_done_of_getElem? hold hl
    exact absurd hdone (hmoved work)
  · subst heq
    exact ⟨hlen.symm, by simpa using hl.symm⟩
  · rw [List.getElem?_append_right (Nat.le_of_lt hgt)] at hl
    have hone : lane - old.length < 1 := (List.getElem?_eq_some_iff.mp hl).1
    omega

theorem Station.lanes_updateLane {old : List (Lane F)} (hlanes : s.lanes = old ++ [l])
    (hlen : lane = old.length) (f : Lane F → Lane F) :
    (s.updateLane lane f).lanes = old ++ [f l] := by
  rw [Station.updateLane, hlen]
  simp only [hlanes, modify_append_length]

/-! ## The preparation -/

theorem Lane.Reads.of_eq {l l' : Lane F} {reader : Reader (TxResult F.Output) F.Aggregate}
    (hr : l.Reads handlers work h reader) (hlength : l'.length = l.length)
    (hreplay : l'.replay = l.replay) (hordered : l'.ordered = l.ordered)
    (hcompletions : l'.completions = l.completions) : l'.Reads handlers work h reader := by
  cases l
  cases l'
  simp only at hlength hreplay hordered hcompletions
  subst hlength hreplay hordered hcompletions
  refine ⟨hr.length_eq, ?_, hr.replayed, hr.read_le, hr.follows⟩
  cases hr.replays with
  | reading i hi hsent => exact .reading i hi hsent
  | sending i r hget hmem hsent => exact .sending i r hget hmem hsent
  | ended hsent hall => exact .ended hsent hall

/-- The aggregation does not depend on the preparation, nor on what else the callers have done. -/
theorem Aggregates.prepare {receiver : Option Nat} {aggregated : Option F.Aggregate}
    {aggregation : Aggregation F} {progress' : Progress}
    (ha : Aggregates calm handlers work h progress lane receiver aggregated l aggregation)
    (preparation : Preparation F) (hdispatched : progress'.dispatched = progress.dispatched)
    (hawaited : progress'.awaited = progress.awaited)
    (hconcluded : progress'.concluded = progress.concluded) :
    Aggregates calm handlers work h progress' lane receiver aggregated
      { l with preparation := preparation } aggregation := by
  have hreads {reader : Reader (TxResult F.Output) F.Aggregate}
      (hr : l.Reads handlers work h reader) :
      Lane.Reads handlers work h { l with preparation := preparation } reader :=
    hr.of_eq rfl rfl rfl rfl
  have hopen : progress'.isOpen = progress.isOpen := by
    rw [Progress.isOpen, hawaited, hconcluded, Progress.isOpen]
  cases ha with
  | idle hd ho hreceiver hnone hu =>
      exact .idle (by rwa [hdispatched]) (by rwa [hopen]) hreceiver hnone
        ⟨hu.replay, hu.ordered, hu.read, hu.held⟩
  | claiming hd ho hreceiver hnone hu =>
      exact .claiming (by rwa [hdispatched]) (by rwa [hopen]) hreceiver hnone
        ⟨hu.replay, hu.ordered, hu.read, hu.held⟩
  | gathering hd ho hreceiver hnone hu =>
      exact .gathering (by rwa [hdispatched]) (by rwa [hopen]) hreceiver hnone
        ⟨hu.replay, hu.ordered, hu.read, hu.held⟩
  | reading reader hd ho hreceiver hnone hheld hr =>
      exact .reading reader (by rwa [hdispatched]) (by rwa [hopen]) hreceiver hnone hheld
        (hreads hr)
  | joining outcome hd ho hreceiver hnone hr =>
      exact .joining outcome (by rwa [hdispatched]) (by rwa [hopen]) hreceiver hnone
        (hreads hr)
  | ended a hd hreceiver hsome hreplay hr =>
      exact .ended a (by rwa [hdispatched]) hreceiver (by rwa [hconcluded]) hreplay (hreads hr)
  | dead fault hcalm hd ho hreceiver hnone hreplay hr =>
      exact .dead fault hcalm (by rwa [hdispatched]) (by rwa [hopen]) hreceiver hnone hreplay
        (hreads hr)

theorem Station.Fits.stepPreparation?
    (hs : s.Fits calm handlers past work h due (.serving progress))
    (hhandler : handlers[h]? = some s.handler) (hstep : s.stepPreparation? lane = some s')
    (hcalm : calm → s.prepareRaises lane = false) :
    s'.handler = s.handler ∧ s'.Fits calm handlers past work h due (.serving progress) := by
  obtain ⟨old, l, hlanes, hold, hserves⟩ := hs
  have hlast := hold.length_eq
  have hprepares := hserves.prepares
  have hlane {moved : Lane F} (hl : s.lanes[lane]? = some moved)
      (hne : moved.preparation ≠ .ended) : lane = past.length ∧ moved = l :=
    Station.Fits.lane_eq hlanes hold hl fun _ hdone => hne hdone.preparation
  cases preparationMove_of_stepPreparation? hstep with
  | fault moved store rules block fault hl hready hfault =>
      obtain ⟨rfl, rfl⟩ := hlane hl (by simp [hready])
      have hraises : s.prepareRaises past.length = true := by
        simp [Station.prepareRaises, Station.preparation?, hl, hready, hfault]
      rw [hready] at hprepares
      cases hprepares with
      | ready hprepared hjoined hcommon =>
          refine ⟨rfl, old, _, Station.lanes_updateLane hlanes hlast _, hold,
            { hserves with
              prepares := .dead fault ?_ hprepared hjoined hcommon ⟨_, hhandler, hfault⟩
              aggregates := hserves.aggregates.prepare _ rfl rfl rfl }⟩
          intro hc
          rw [hcalm hc] at hraises
          cases hraises
  | alreadySet moved store rules block common hl hready hok hset =>
      obtain ⟨rfl, rfl⟩ := hlane hl (by simp [hready])
      rw [hready] at hprepares
      cases hprepares with
      | ready hprepared hjoined hcommon =>
          obtain ⟨cell, hcell, -⟩ := Cell.set?_of_none hcommon common
          rw [hcell] at hset
          cases hset
  | write moved store rules block common cell hl hready hok hset =>
      obtain ⟨rfl, rfl⟩ := hlane hl (by simp [hready])
      have hcell := (Cell.value_of_set? hset).2
      rw [hready] at hprepares
      cases hprepares with
      | ready hprepared hjoined hcommon =>
          refine ⟨rfl, old, _, Station.lanes_updateLane hlanes hlast _, hold,
            { hserves with
              prepares := .ended hprepared ?_ ?_
              aggregates := hserves.aggregates.prepare _ rfl rfl rfl }⟩
          · rw [hcell]
            rfl
          · rw [hcell]
            simp [Work.commonOf, hhandler, hok, Except.toOption]

/-! ## The replay -/

theorem Aggregates.replay {receiver : Option Nat} {aggregated : Option F.Aggregate}
    {aggregation : Aggregation F} {replay : Replay (TxResult F.Output)}
    {ordered : Stream (TxResult F.Output)}
    (ha : Aggregates calm handlers work h progress lane receiver aggregated l aggregation)
    (hidle : l.replay ≠ .idle) (hended : l.replay ≠ .ended)
    (hheld : ordered.held = l.ordered.held)
    (hreads : ∀ reader, l.Reads handlers work h reader →
      Lane.Reads handlers work h { l with replay := replay, ordered := ordered } reader) :
    Aggregates calm handlers work h progress lane receiver aggregated
      { l with replay := replay, ordered := ordered } aggregation := by
  cases ha with
  | idle _ _ _ _ hu => exact absurd hu.replay hidle
  | claiming _ _ _ _ hu => exact absurd hu.replay hidle
  | gathering _ _ _ _ hu => exact absurd hu.replay hidle
  | reading reader hd ho hreceiver hnone hh hr =>
      exact .reading reader hd ho hreceiver hnone (hheld.trans hh) (hreads reader hr)
  | joining outcome hd ho hreceiver hnone hr =>
      exact .joining outcome hd ho hreceiver hnone (hreads _ hr)
  | ended _ _ _ _ hreplay _ => exact absurd hreplay hended
  | dead _ _ _ _ _ _ hreplay _ => exact absurd hreplay hended

theorem Lane.Reads.find {reader : Reader (TxResult F.Output) F.Aggregate} {i : Nat}
    {r : TxResult F.Output} (hr : l.Reads handlers work h reader) (hreplay : l.replay = .reading i)
    (hget : (work.resultsOf handlers h)[i]? = some r) (hmem : r ∈ l.completions.sent) :
    Lane.Reads handlers work h { l with replay := .sending i r } reader := by
  refine ⟨hr.length_eq, ?_, hr.replayed, hr.read_le, hr.follows⟩
  have hrep := hr.replays
  rw [hreplay] at hrep
  cases hrep with
  | reading _ _ hsent => exact .sending i r hget hmem hsent

theorem Lane.Reads.replaySend {reader : Reader (TxResult F.Output) F.Aggregate} {i : Nat}
    {r : TxResult F.Output} (hr : l.Reads handlers work h reader)
    (hreplay : l.replay = .sending i r) :
    Lane.Reads handlers work h
      { l with ordered := l.ordered.send r, replay := .at (i + 1) l.length } reader := by
  have hrep := hr.replays
  rw [hreplay] at hrep
  cases hrep with
  | sending _ _ hget hmem hsent =>
      have hi : i < (work.resultsOf handlers h).length := (List.getElem?_eq_some_iff.mp hget).1
      have hsent' : (l.ordered.send r).sent = (work.resultsOf handlers h).take (i + 1) := by
        rw [List.take_add_one, hget, ← hsent]
        rfl
      refine ⟨hr.length_eq, ?_, ?_, ?_, hr.follows⟩
      · rw [hr.length_eq, ← Work.length_resultsOf handlers work h, Replay.at]
        split
        · rename_i hlt
          exact .reading (i + 1) hlt hsent'
        · rename_i hge
          have hall : (l.ordered.send r).sent = work.resultsOf handlers h := by
            rw [hsent', List.take_of_length_le (by omega)]
          exact .ended ⟨[], by rw [List.append_nil]; exact hall⟩ fun _ => hall
      · intro r' hr'
        rcases List.mem_append.mp hr' with hr' | hr'
        · exact hr.replayed r' hr'
        · rwa [List.mem_singleton.mp hr']
      · simp only [Stream.send, List.length_append]
        exact Nat.le_trans hr.read_le (Nat.le_add_right _ _)

theorem Lane.Reads.giveUp {reader : Reader (TxResult F.Output) F.Aggregate} {i : Nat}
    {r : TxResult F.Output} (hr : l.Reads handlers work h reader)
    (hreplay : l.replay = .sending i r) (hheld : l.ordered.held = false) :
    Lane.Reads handlers work h { l with replay := .ended } reader := by
  refine ⟨hr.length_eq, ?_, hr.replayed, hr.read_le, hr.follows⟩
  have hrep := hr.replays
  rw [hreplay] at hrep
  cases hrep with
  | sending _ _ _ _ hsent =>
      refine .ended ?_ ?_
      · change l.ordered.sent <+: _
        rw [hsent]
        exact List.take_prefix _ _
      · intro hh
        rw [show l.ordered.held = true from hh] at hheld
        cases hheld

theorem Station.Fits.stepReplay?
    (hs : s.Fits calm handlers past work h due (.serving progress))
    (hincluded : ∀ job ∈ due .announced, job ∈ due .settled)
    (hstep : s.stepReplay? lane = some s') :
    s'.handler = s.handler ∧ s'.Fits calm handlers past work h due (.serving progress) := by
  obtain ⟨old, l, hlanes, hold, hserves⟩ := hs
  have hlast := hold.length_eq
  have hlane {moved : Lane F} (hl : s.lanes[lane]? = some moved) (hne : moved.replay ≠ .ended) :
      lane = past.length ∧ moved = l :=
    Station.Fits.lane_eq hlanes hold hl fun _ hdone => hne hdone.replay
  cases replayMove_of_stepReplay? hstep with
  | find moved i r hl hreading hvalue =>
      obtain ⟨rfl, rfl⟩ := hlane hl (by simp [hreading])
      have hat : valueAt s.results i = some r := hvalue
      rw [hserves.settled.values i] at hat
      obtain ⟨tx, hget, hif⟩ := Option.bind_eq_some_iff.mp hat
      obtain ⟨hsettled, heq⟩ := Option.ite_none_right_eq_some.mp hif
      cases heq
      have hmem : work.resultOf handlers h tx ∈ moved.completions.sent :=
        hserves.announced.mem_sent (List.mem_of_getElem? hget)
          fun hdue => hsettled.2 (hincluded _ hdue)
      have hresult : (work.resultsOf handlers h)[i]? = some (work.resultOf handlers h tx) := by
        rw [Work.getElem?_resultsOf, hget]
        rfl
      refine ⟨rfl, old, _, Station.lanes_updateLane hlanes hlast _, hold,
        { hserves with aggregates := ?_ }⟩
      exact hserves.aggregates.replay (by simp [hreading]) (by simp [hreading]) rfl
        fun reader hr => hr.find hreading hresult hmem
  | send moved i r hl hsending hheld =>
      obtain ⟨rfl, rfl⟩ := hlane hl (by simp [hsending])
      refine ⟨rfl, old, _, Station.lanes_updateLane hlanes hlast _, hold,
        { hserves with aggregates := ?_ }⟩
      exact hserves.aggregates.replay (by simp [hsending]) (by simp [hsending]) rfl
        fun reader hr => hr.replaySend hsending
  | giveUp moved i r hl hsending hheld =>
      obtain ⟨rfl, rfl⟩ := hlane hl (by simp [hsending])
      refine ⟨rfl, old, _, Station.lanes_updateLane hlanes hlast _, hold,
        { hserves with aggregates := ?_ }⟩
      exact hserves.aggregates.replay (by simp [hsending]) (by simp [hsending]) rfl
        fun reader hr => hr.giveUp hsending hheld

end TxPipeline
