import TxPipeline.Proofs.Service.Aggregation

/-!
# What callers do at a station

The calls that start and finish a block open a station, give the threads of the new lane their
tasks, wait for them, take what they made, and close the station again. A station that is closed is
as clear as it was before it was opened, apart from one lane more.
-/

namespace TxPipeline

variable {F : Flow} {calm : Prop} {handlers : List (Handler F)} {past : List (Work F)}
  {work : Work F} {h : Nat} {due : Checkpoint → Multiset Job} {progress : Progress}
  {s s' : Station F} {l : Lane F}

theorem valueAt_eq_none {α : Type} {cells : List (Cell α)} (h : ∀ cell ∈ cells, cell.value = none)
    (i : Nat) : valueAt cells i = none := by
  unfold valueAt
  cases hi : cells[i]? with
  | none => rfl
  | some cell => exact h cell (List.mem_of_getElem? hi)

theorem eq_none_of_valueAt {α : Type} {cells : List (Cell α)} (h : ∀ i, valueAt cells i = none)
    {cell : Cell α} (hcell : cell ∈ cells) : cell.value = none := by
  obtain ⟨i, hi⟩ := List.mem_iff_getElem?.mp hcell
  simpa [valueAt, hi] using h i

theorem value_eq_none_of_mem_extend {α : Type} {cells : List (Cell α)}
    (h : ∀ cell ∈ cells, cell.value = none) (n : Nat) :
    ∀ cell ∈ cells ++ List.replicate n Cell.empty, cell.value = none := by
  intro cell hcell
  rcases List.mem_append.mp hcell with hcell | hcell
  · exact h cell hcell
  · rw [List.eq_of_mem_replicate hcell]
    rfl

/-! ## Opening -/

theorem Station.Fits.openBlock (hs : s.Fits calm handlers past work h due .unopened)
    (hannounced : (due .announced).filter (·.handler = h) =
      (work.block.indexed.map (Job.mk h) : List Job))
    (hsettled : ∀ tx ∈ work.block.indexed, ⟨h, tx⟩ ∈ due .settled)
    (hjobs : ∀ c, ∀ job ∈ work.jobs handlers, job ∈ due c) :
    (s.openBlock work.block.length).Fits calm handlers past work h due (.serving .opened) := by
  obtain ⟨hclear, hlanes⟩ := hs
  have hlast : s.lanes.length = past.length := hlanes.length_eq.symm
  refine ⟨s.lanes, .fresh, rfl, hlanes, ?_⟩
  exact {
    length_eq := rfl
    announced := by
      have hcard : ((due .announced).filter (·.handler = h)).card = work.block.length := by
        rw [hannounced, Multiset.coe_card, List.length_map, Block.length_indexed]
      refine ⟨?_, hcard.symm, ?_, ?_⟩
      · rw [hannounced]
        exact zero_add _
      · simp only [Station.openBlock, hlast]
        split
        · rw [if_neg (by omega)]
        · rw [if_pos (by omega)]
      · intro r hr
        cases hr
    settled := by
      refine ⟨?_, ?_, fun i tx hi => absurd hi (Nat.not_lt_zero i)⟩
      · simp only [Station.openBlock, List.length_append, List.length_replicate]
        omega
      · intro i
        have hnone := valueAt_eq_none (value_eq_none_of_mem_extend hclear.results
          (work.block.length - s.results.length)) i
        change valueAt (s.results ++ List.replicate _ Cell.empty) i = _
        rw [hnone]
        cases htx : work.block.indexed[i]? with
        | none => rfl
        | some tx => simp [hsettled tx (List.mem_of_getElem? htx)]
    supplied := by
      refine ⟨?_, ?_, fun tx hjob hnot => absurd (hjobs .deposited _ hjob) hnot⟩
      · simp only [Station.openBlock, List.length_append, List.length_replicate]
        omega
      · intro i
        have hnone := valueAt_eq_none (value_eq_none_of_mem_extend hclear.data
          (work.block.length - s.data.length)) i
        change valueAt (s.data ++ List.replicate _ Cell.empty) i = _
        rw [hnone]
        cases htx : work.block.indexed[i]? with
        | none => rfl
        | some tx =>
            have hif : ¬ (⟨h, tx⟩ ∈ work.jobs handlers ∧ ⟨h, tx⟩ ∉ due .deposited) :=
              fun hand => hand.2 (hjobs .deposited _ hand.1)
            simp [hif]
    kept := by
      refine ⟨?_, ?_⟩
      · intro f hf
        rw [show (s.openBlock work.block.length).fault = s.fault from rfl, hclear.fault] at hf
        cases hf
      · intro _ job hjob _
        exact ⟨fun hnot => absurd (hjobs _ job hjob) hnot,
          fun hnot => absurd (hjobs _ job hjob) hnot⟩
    prepares := .idle rfl rfl hclear.common
    aggregates := .idle rfl rfl (by rw [← hlast]; rfl) hclear.aggregated ⟨rfl, rfl, rfl, rfl⟩ }

/-! ## Tasks for the threads of the lane -/

theorem Prepares.prepare {common : Option F.Common} {preparation : Preparation F}
    (hp : Prepares calm handlers work h progress common preparation)
    (hprepared : progress.prepared = false) :
    Prepares calm handlers work h { progress with prepared := true } common
      (.ready work.store work.rules work.block) := by
  cases hp with
  | idle _ hjoined hcommon => exact .ready rfl hjoined hcommon
  | ready hp _ _ => simp [hprepared] at hp
  | ended hp _ _ => simp [hprepared] at hp
  | dead _ _ hp _ _ _ => simp [hprepared] at hp

theorem Prepares.congr {progress' : Progress} {common : Option F.Common}
    {preparation : Preparation F} (hp : Prepares calm handlers work h progress common preparation)
    (hprepared : progress'.prepared = progress.prepared)
    (hjoined : progress'.joined = progress.joined) :
    Prepares calm handlers work h progress' common preparation := by
  cases hp with
  | idle hp hj hcommon => exact .idle (hprepared.trans hp) (hjoined.trans hj) hcommon
  | ready hp hj hcommon => exact .ready (hprepared.trans hp) (hjoined.trans hj) hcommon
  | ended hp hsome hcommon => exact .ended (hprepared.trans hp) hsome hcommon
  | dead fault hcalm hp hj hcommon hfault =>
      exact .dead fault hcalm (hprepared.trans hp) (hjoined.trans hj) hcommon hfault

theorem Aggregates.dispatch {lane : Nat} {receiver : Option Nat} {aggregated : Option F.Aggregate}
    {aggregation : Aggregation F}
    (ha : Aggregates calm handlers work h progress lane receiver aggregated l aggregation)
    (hdispatched : progress.dispatched = false) :
    Aggregates calm handlers work h { progress with dispatched := true } lane receiver aggregated
      { l with aggregation := .claiming } .claiming := by
  cases ha with
  | idle _ ho hreceiver hnone hu =>
      exact .claiming rfl ho hreceiver hnone ⟨hu.replay, hu.ordered, hu.read, hu.held⟩
  | claiming hd _ _ _ _ => simp [hdispatched] at hd
  | gathering hd _ _ _ _ => simp [hdispatched] at hd
  | reading _ hd _ _ _ _ _ => simp [hdispatched] at hd
  | joining _ hd _ _ _ _ => simp [hdispatched] at hd
  | ended _ hd _ _ _ _ => simp [hdispatched] at hd
  | dead _ _ hd _ _ _ _ _ => simp [hdispatched] at hd

theorem Station.Fits.prepare (hs : s.Fits calm handlers past work h due (.serving progress))
    (hprepared : progress.prepared = false) :
    (s.prepare past.length work.store work.rules work.block).Fits calm handlers past work h due
      (.serving { progress with prepared := true }) := by
  obtain ⟨old, l, hlanes, hold, hserves⟩ := hs
  exact ⟨old, _, Station.lanes_updateLane hlanes hold.length_eq _, hold, { hserves with
    prepares := hserves.prepares.prepare hprepared
    aggregates := hserves.aggregates.prepare _ rfl rfl rfl }⟩

theorem Station.Fits.aggregate (hs : s.Fits calm handlers past work h due (.serving progress))
    (hdispatched : progress.dispatched = false) :
    (s.aggregate past.length).Fits calm handlers past work h due
      (.serving { progress with dispatched := true }) := by
  obtain ⟨old, l, hlanes, hold, hserves⟩ := hs
  exact ⟨old, _, Station.lanes_updateLane hlanes hold.length_eq _, hold, { hserves with
    prepares := hserves.prepares.congr rfl rfl
    aggregates := hserves.aggregates.dispatch hdispatched }⟩

/-! ## Waiting for the threads of the lane -/

theorem Prepares.of_joined {common : Option F.Common} {preparation : Preparation F}
    (hp : Prepares calm handlers work h progress common preparation)
    (hjoined : progress.joined = true) :
    preparation = .ended ∧ common = work.commonOf handlers h := by
  cases hp with
  | ended _ _ hcommon => exact ⟨rfl, hcommon⟩
  | idle _ hj _ => simp [hjoined] at hj
  | ready _ hj _ => simp [hjoined] at hj
  | dead _ _ _ hj _ _ => simp [hjoined] at hj

theorem Prepares.join {common : Option F.Common} {preparation : Preparation F}
    (hp : Prepares calm handlers work h progress common preparation)
    (hended : preparation = .ended) :
    Prepares calm handlers work h { progress with joined := true } common preparation := by
  cases hp with
  | ended hp hsome hcommon => exact .ended hp hsome hcommon
  | _ => cases hended

theorem Station.Fits.join (hs : s.Fits calm handlers past work h due (.serving progress))
    (hended : s.preparation? past.length = some .ended) :
    s.Fits calm handlers past work h due (.serving { progress with joined := true }) := by
  obtain ⟨old, l, hlanes, hold, hserves⟩ := hs
  have hl : l.preparation = .ended := by
    simpa [Station.preparation?, hlanes, hold.length_eq] using hended
  exact ⟨old, l, hlanes, hold, { hserves with
    prepares := hserves.prepares.join hl
    aggregates := hserves.aggregates.prepare l.preparation rfl rfl rfl }⟩

theorem Aggregates.await {lane : Nat} {receiver : Option Nat} {aggregated : Option F.Aggregate}
    {aggregation : Aggregation F}
    (ha : Aggregates calm handlers work h progress lane receiver aggregated l aggregation)
    (hended : aggregation = .ended) :
    Aggregates calm handlers work h { progress with awaited := true } lane receiver aggregated l
      aggregation := by
  cases ha with
  | ended a hd hreceiver hsome hreplay hr => exact .ended a hd hreceiver hsome hreplay hr
  | _ => cases hended

theorem Station.Fits.await (hs : s.Fits calm handlers past work h due (.serving progress))
    (hended : s.aggregation? past.length = some .ended) :
    s.Fits calm handlers past work h due (.serving { progress with awaited := true }) := by
  obtain ⟨old, l, hlanes, hold, hserves⟩ := hs
  have hl : l.aggregation = .ended := by
    simpa [Station.aggregation?, hlanes, hold.length_eq] using hended
  exact ⟨old, l, hlanes, hold, { hserves with
    prepares := hserves.prepares.congr rfl rfl
    aggregates := hserves.aggregates.await hl }⟩

theorem Station.Fits.preparation_dead
    (hs : s.Fits calm handlers past work h due (.serving progress)) {fault : Fault}
    (hdead : s.preparation? past.length = some (.dead fault)) : ¬ calm := by
  obtain ⟨old, l, hlanes, hold, hserves⟩ := hs
  have hl : l.preparation = .dead fault := by
    simpa [Station.preparation?, hlanes, hold.length_eq] using hdead
  have hprepares := hserves.prepares
  rw [hl] at hprepares
  cases hprepares with
  | dead _ hcalm _ _ _ _ => exact hcalm

theorem Station.Fits.aggregation_dead
    (hs : s.Fits calm handlers past work h due (.serving progress)) {fault : Fault}
    (hdead : s.aggregation? past.length = some (.dead fault)) : ¬ calm := by
  obtain ⟨old, l, hlanes, hold, hserves⟩ := hs
  have hl : l.aggregation = .dead fault := by
    simpa [Station.aggregation?, hlanes, hold.length_eq] using hdead
  have haggregates := hserves.aggregates
  rw [hl] at haggregates
  cases haggregates with
  | dead _ hcalm _ _ _ _ _ _ => exact hcalm

/-! ## Taking what was made -/

theorem Cell.eq_of_take? {α : Type} {cell next : Cell α} {a : α}
    (h : cell.take? = some (a, next)) : cell.value = some a ∧ next.value = none := by
  unfold Cell.take? at h
  split at h
  · cases h
  · rename_i b hb
    cases h
    exact ⟨hb, Cell.value_reset cell⟩

theorem Aggregates.conclude {lane : Nat} {receiver : Option Nat} {aggregated : Option F.Aggregate}
    {aggregation : Aggregation F} {a : F.Aggregate}
    (ha : Aggregates calm handlers work h progress lane receiver aggregated l aggregation)
    (hsome : aggregated = some a) :
    l.Reads handlers work h (.done (.ok a)) ∧
      Aggregates calm handlers work h { progress with concluded := true } lane receiver none l
        aggregation := by
  cases ha with
  | ended b hd hreceiver hif hreplay hr =>
      rw [hif] at hsome
      split at hsome
      · cases hsome
      · cases hsome
        exact ⟨hr, .ended _ hd hreceiver rfl hreplay hr⟩
  | idle _ _ _ hnone _ => simp [hnone] at hsome
  | claiming _ _ _ hnone _ => simp [hnone] at hsome
  | gathering _ _ _ hnone _ => simp [hnone] at hsome
  | reading _ _ _ _ hnone _ _ => simp [hnone] at hsome
  | joining _ _ _ _ hnone _ => simp [hnone] at hsome
  | dead _ _ _ _ _ hnone _ _ => simp [hnone] at hsome

theorem Aggregates.of_concluded {lane : Nat} {receiver : Option Nat}
    {aggregated : Option F.Aggregate} {aggregation : Aggregation F}
    (ha : Aggregates calm handlers work h progress lane receiver aggregated l aggregation)
    (hawaited : progress.awaited = true) (hconcluded : progress.concluded = true) :
    aggregation = .ended ∧ receiver = none ∧ aggregated = none ∧ l.replay = .ended ∧
      ∃ a, l.Reads handlers work h (.done (.ok a)) := by
  cases ha with
  | ended a _ hreceiver hif hreplay hr =>
      rw [hconcluded] at hif
      exact ⟨rfl, hreceiver, hif, hreplay, a, hr⟩
  | idle _ ho _ _ _ => simp [Progress.isOpen, hawaited] at ho
  | claiming _ ho _ _ _ => simp [Progress.isOpen, hawaited] at ho
  | gathering _ ho _ _ _ => simp [Progress.isOpen, hawaited] at ho
  | reading _ _ ho _ _ _ _ => simp [Progress.isOpen, hawaited] at ho
  | joining _ _ ho _ _ _ => simp [Progress.isOpen, hawaited] at ho
  | dead _ _ _ ho _ _ _ _ => simp [Progress.isOpen, hawaited] at ho

theorem Station.Fits.takeAggregate?
    (hs : s.Fits calm handlers past work h due (.serving progress)) {a : F.Aggregate}
    (htake : s.takeAggregate? = some (a, s')) :
    s'.handler = s.handler ∧ work.Aggregates handlers h a ∧
      s'.Fits calm handlers past work h due (.serving { progress with concluded := true }) := by
  obtain ⟨old, l, hlanes, hold, hserves⟩ := hs
  obtain ⟨cell, htaken, rfl⟩ := eq_of_takeAggregate? htake
  obtain ⟨hvalue, hnone⟩ := Cell.eq_of_take? htaken
  obtain ⟨hreads, haggregates⟩ := hserves.aggregates.conclude hvalue
  obtain ⟨handler, common, completed, i, j, hhandler, hcommon, _, hperm, hfollows, _⟩ :=
    hreads.exists_follows hserves.announced
  refine ⟨rfl, ⟨handler, common, completed, i, j, hhandler, hcommon, hperm, hfollows⟩,
    old, l, hlanes, hold, { hserves with
      prepares := hserves.prepares.congr rfl rfl
      aggregates := ?_ }⟩
  change Aggregates _ _ _ _ _ _ _ cell.value _ _
  rw [hnone]
  exact haggregates

/-- The caller removes a result only after it was written. -/
theorem Station.Fits.drain? (hs : s.Fits calm handlers past work h due (.serving progress))
    (hdrain : s.drain? progress.drained = some s') :
    s'.handler = s.handler ∧ s'.Fits calm handlers past work h due
      (.serving { progress with drained := progress.drained + 1 }) := by
  obtain ⟨old, l, hlanes, hold, hserves⟩ := hs
  obtain ⟨length_le, values, hdrained⟩ := hserves.settled
  obtain ⟨cell, r, next, hcell, htaken, rfl⟩ := eq_of_drain? hdrain
  obtain ⟨hvalue, hnone⟩ := Cell.eq_of_take? htaken
  obtain ⟨hlt, -⟩ := List.getElem?_eq_some_iff.mp hcell
  have hat : valueAt s.results progress.drained = some r := by simp [valueAt, hcell, hvalue]
  rw [values] at hat
  obtain ⟨tx, htx, hif⟩ := Option.bind_eq_some_iff.mp hat
  obtain ⟨⟨-, hnot⟩, -⟩ := Option.ite_none_right_eq_some.mp hif
  refine ⟨rfl, old, l, hlanes, hold, { hserves with
    settled := ⟨by simpa using length_le, ?_, ?_⟩
    prepares := hserves.prepares.congr rfl rfl
    aggregates := hserves.aggregates.prepare l.preparation rfl rfl rfl }⟩
  · intro i
    rw [valueAt_set hlt, values]
    by_cases hi : i = progress.drained
    · rw [if_pos hi, hnone, hi, htx]
      simp
    · rw [if_neg hi]
      have hiff : progress.drained ≤ i ↔ progress.drained + 1 ≤ i := by omega
      simp only [hiff]
  · intro i other hi hother
    rcases Nat.lt_succ_iff_lt_or_eq.mp hi with hi | rfl
    · exact hdrained i other hi hother
    · obtain rfl : tx = other := by simpa [htx] using hother
      exact hnot

/-! ## Closing -/

section Closing

variable (hs : s.Fits calm handlers past work h due (.serving progress))
  (hincluded : ∀ c, ∀ job ∈ due c, job ∈ due .settled)
  (hdrained : progress.drained = work.block.length)

include hs hincluded hdrained

theorem Station.Fits.not_due_of_drained {c : Checkpoint} {tx : IndexedTx}
    (ht : tx ∈ work.block.indexed) : ⟨h, tx⟩ ∉ due c := by
  obtain ⟨old, l, hlanes, hold, hserves⟩ := hs
  intro hdue
  obtain ⟨i, hi⟩ := List.mem_iff_getElem?.mp ht
  refine hserves.settled.drained_not_due i tx ?_ hi (hincluded c _ hdue)
  rw [hdrained, ← Block.length_indexed]
  exact (List.getElem?_eq_some_iff.mp hi).1

/-- The fault that is kept when a block is closed: one if a stage has raised any. -/
theorem Station.Fits.kept_of_drained : Kept handlers work h 0 0 s.fault := by
  have hnot {c : Checkpoint} {job : Job} (hjob : job ∈ work.jobs handlers)
      (hh : job.handler = h) : job ∉ due c := by
    obtain rfl := hh
    exact hs.not_due_of_drained hincluded hdrained (Work.mem_jobs.mp hjob).1
  obtain ⟨old, l, hlanes, hold, hserves⟩ := hs
  refine ⟨hserves.kept.raised, ?_⟩
  intro hnone job hjob hh
  obtain ⟨hprefetch, hprocess⟩ := hserves.kept.missed hnone job hjob hh
  exact ⟨fun _ => hprefetch (hnot hjob hh), fun _ => hprocess (hnot hjob hh)⟩

theorem Station.Fits.closeBlock (hjoined : progress.joined = true)
    (hawaited : progress.awaited = true) (hconcluded : progress.concluded = true) :
    s.closeBlock.Fits calm handlers past work h due .closed := by
  have hnot {c : Checkpoint} {tx : IndexedTx} (ht : tx ∈ work.block.indexed) :
      ⟨h, tx⟩ ∉ due c := hs.not_due_of_drained hincluded hdrained ht
  obtain ⟨old, l, hlanes, hold, hserves⟩ := hs
  have hzero : (due .announced).filter (·.handler = h) = 0 := by
    rw [Multiset.filter_eq_nil]
    rintro ⟨n, tx⟩ hdue rfl
    exact hnot (hserves.announced.mem_indexed hdue) hdue
  have hremaining : s.remaining = 0 := by
    rw [hserves.announced.remaining_eq, hzero, Multiset.card_zero]
  obtain ⟨preparation_eq, hcommon⟩ := hserves.prepares.of_joined hjoined
  obtain ⟨aggregation_eq, hreceiver, haggregated, hreplay, a, hreads⟩ :=
    hserves.aggregates.of_concluded hawaited hconcluded
  refine ⟨⟨rfl, ?_, hremaining, rfl, rfl, ?_, ?_, ?_, ?_⟩, ?_⟩
  · change s.sender = none
    rw [hserves.announced.sender_eq, if_pos hremaining]
  · exact Cell.value_reset _
  · exact Cell.value_reset _
  · intro cell hcell
    obtain ⟨_, _, rfl⟩ := List.mem_map.mp hcell
    exact Cell.value_reset _
  · refine fun cell hcell => eq_none_of_valueAt ?_ hcell
    intro i
    change valueAt s.results i = none
    rw [hserves.settled.values]
    cases htx : work.block.indexed[i]? with
    | none => rfl
    | some tx =>
        have hi : i < progress.drained := by
          rw [hdrained, ← Block.length_indexed]
          exact (List.getElem?_eq_some_iff.mp htx).1
        simp [Nat.not_le_of_lt hi]
  · change List.Forall₂ _ _ s.lanes
    rw [hlanes]
    refine List.rel_append hold (.cons ?_ .nil)
    exact ⟨preparation_eq, aggregation_eq, hreplay, hserves.announced.perm_of_zero hzero, a, hreads⟩

end Closing

end TxPipeline
