import TxPipeline.Proofs.Service.Aggregation

/-!
# When the threads of a lane come to a stop

The preparation waits for nobody, everything else at a station waits for it, and what reads results
waits for those who write them. So once all results are written, a lane in which no thread can move
is one whose threads have all ended.
-/

namespace TxPipeline

variable {F : Flow} {calm : Prop} {handlers : List (Handler F)} {past : List (Work F)}
  {work : Work F} {h lane : Nat} {due : Checkpoint → Multiset Job} {progress : Progress}
  {s : Station F} {l : Lane F} {old : List (Lane F)}

/-- All threads of the lane have ended, the aggregation in one way or the other. -/
structure Lane.Ended (l : Lane F) : Prop where
  preparation : l.preparation = .ended
  replay : l.replay = .ended
  aggregation : l.aggregation = .ended ∨ ∃ fault, l.aggregation = .dead fault

theorem Lane.Done.ended (h : l.Done handlers lane work) : l.Ended :=
  ⟨h.preparation, h.replay, .inl h.aggregation⟩

theorem ended_of_done {works : List (Work F)} {lanes : List (Lane F)}
    (hdone : List.Forall₂ (Lane.Done handlers h) works lanes) (hl : l ∈ lanes) : l.Ended := by
  obtain ⟨i, hi⟩ := List.mem_iff_getElem?.mp hl
  obtain ⟨other, hother⟩ := exists_done_of_getElem? hdone hi
  exact hother.ended

/-- No thread of a lane can move. -/
structure Station.Halted (s : Station F) : Prop where
  preparation : ∀ lane, s.stepPreparation? lane = none
  replay : ∀ lane, s.stepReplay? lane = none
  aggregation : ∀ lane, s.stepAggregation? lane = none

theorem Aggregates.exists_of_awaited {receiver : Option Nat} {aggregated : Option F.Aggregate}
    {aggregation : Aggregation F}
    (ha : Aggregates calm handlers work h progress lane receiver aggregated l aggregation)
    (hawaited : progress.awaited = true) (hconcluded : progress.concluded = false) :
    ∃ a, aggregated = some a ∧ aggregation = .ended := by
  have hopen : progress.isOpen ≠ true := by simp [Progress.isOpen, hawaited]
  cases ha with
  | ended a _ _ hsome _ _ =>
      rw [hconcluded] at hsome
      exact ⟨a, hsome, rfl⟩
  | idle _ ho _ _ _ => exact absurd ho hopen
  | claiming _ ho _ _ _ => exact absurd ho hopen
  | gathering _ ho _ _ _ => exact absurd ho hopen
  | reading _ _ ho _ _ _ _ => exact absurd ho hopen
  | joining _ _ ho _ _ _ => exact absurd ho hopen
  | dead _ _ _ ho _ _ _ _ => exact absurd ho hopen

namespace Station

theorem stepPreparation?_ne_none {store : F.Store} {rules : Rules} {block : Block}
    (hl : s.lanes[lane]? = some l) (hready : l.preparation = .ready store rules block) :
    s.stepPreparation? lane ≠ none := by
  simp only [stepPreparation?, hl, hready]
  split
  · simp
  · split <;> simp

theorem stepReader?_ne_none {feed : Lane F} {source : Nat} (hended : l.replay.isEnded = true)
    (hsender : s.sender = none) (reader : Reader (TxResult F.Output) F.Aggregate) :
    s.stepReader? lane source l feed reader ≠ none := by
  cases reader with
  | done outcome => simp [stepReader?]
  | backlog k => simp [stepReader?]
  | nextByIndex k =>
      simp only [stepReader?, hended, if_true]
      split <;> simp
  | nextByCompletion k =>
      simp only [stepReader?, hsender]
      split <;> simp

namespace Serves

variable (hserves : s.Serves calm handlers work h due progress lane l)
  (hl : s.lanes[lane]? = some l) (hhalted : s.Halted)

include hserves hl hhalted

/-- A preparation that does not fail has ended, and has left what the others wait for. -/
theorem preparation_of_halted (hprepared : progress.prepared = true)
    (hbefore : ∀ handler ∈ handlers, ∃ common,
      handler.beforeBlock work.store work.rules work.block = .ok common) :
    l.preparation = .ended ∧ s.common.value.isSome = true := by
  have hprepares := hserves.prepares
  cases hpreparation : l.preparation with
  | idle =>
      rw [hpreparation] at hprepares
      cases hprepares with
      | idle hp _ _ => simp [hprepared] at hp
  | ready store rules block =>
      exact absurd (hhalted.preparation lane) (stepPreparation?_ne_none hl hpreparation)
  | ended =>
      rw [hpreparation] at hprepares
      cases hprepares with
      | ended _ hsome _ => exact ⟨rfl, hsome⟩
  | dead fault =>
      rw [hpreparation] at hprepares
      cases hprepares with
      | dead _ _ _ _ _ hfault =>
          obtain ⟨handler, hhandler, herror⟩ := hfault
          obtain ⟨common, hok⟩ := hbefore handler (List.mem_of_getElem? hhandler)
          rw [hok] at herror
          cases herror

/-- A replay that has begun goes on to its end, as all results are there. -/
theorem replay_of_halted (hdue : due .settled = 0) (hdrained : progress.drained = 0)
    (hreplays : Replays (work.resultsOf handlers h) l l.replay) : l.replay = .ended := by
  cases hreplay : l.replay with
  | ended => rfl
  | idle =>
      rw [hreplay] at hreplays
      cases hreplays
  | reading i =>
      rw [hreplay] at hreplays
      cases hreplays with
      | reading _ hi _ =>
          have hi' : i < work.block.indexed.length := by
            rwa [Work.length_resultsOf, ← Block.length_indexed] at hi
          have hvalue := hserves.settled.values i
          rw [List.getElem?_eq_getElem hi', hdrained, hdue] at hvalue
          have hstuck := hhalted.replay lane
          simp only [stepReplay?, hl, hreplay] at hstuck
          unfold valueAt at hvalue
          simp [hvalue] at hstuck
  | sending i r =>
      have hstuck := hhalted.replay lane
      simp only [stepReplay?, hl, hreplay] at hstuck
      split at hstuck <;> cases hstuck

theorem ended_of_halted (hprepared : progress.prepared = true)
    (hdispatched : progress.dispatched = true) (hdue : ∀ c, due c = 0)
    (hdrained : progress.isOpen = true → progress.drained = 0)
    (hbefore : ∀ handler ∈ handlers, ∃ common,
      handler.beforeBlock work.store work.rules work.block = .ok common) : l.Ended := by
  obtain ⟨hpreparation, hcommon⟩ := hserves.preparation_of_halted hl hhalted hprepared hbefore
  have hstuck := hhalted.aggregation lane
  have haggregates := hserves.aggregates
  have hreplay {reader : Reader (TxResult F.Output) F.Aggregate} (ho : progress.isOpen = true)
      (hreads : l.Reads handlers work h reader) : l.replay = .ended :=
    hserves.replay_of_halted hl hhalted (hdue .settled) (hdrained ho) hreads.replays
  suffices hrest : l.replay = .ended ∧
      (l.aggregation = .ended ∨ ∃ fault, l.aggregation = .dead fault) from
    ⟨hpreparation, hrest.1, hrest.2⟩
  cases haggregation : l.aggregation with
  | idle =>
      rw [haggregation] at haggregates
      cases haggregates with
      | idle hd _ _ _ _ => simp [hdispatched] at hd
  | claiming =>
      simp only [stepAggregation?, hl, haggregation] at hstuck
      split at hstuck <;> cases hstuck
  | gathering source =>
      obtain ⟨common, hvalue⟩ := Option.isSome_iff_exists.mp hcommon
      simp [stepAggregation?, hl, haggregation, hvalue] at hstuck
  | reading source reader =>
      rw [haggregation] at haggregates
      cases haggregates with
      | reading _ _ ho _ _ _ hreads =>
          have hsender : s.sender = none := by
            rw [hserves.announced.sender_eq, hserves.announced.remaining_eq, hdue .announced]
            rfl
          simp only [stepAggregation?, hl, haggregation] at hstuck
          exact absurd hstuck
            (stepReader?_ne_none (by rw [hreplay ho hreads]; rfl) hsender reader)
  | joining outcome =>
      rw [haggregation] at haggregates
      cases haggregates with
      | joining _ _ ho _ _ hreads =>
          simp only [stepAggregation?, hl, haggregation, hreplay ho hreads, Replay.isEnded,
            if_true] at hstuck
          split at hstuck
          · cases hstuck
          · split at hstuck <;> cases hstuck
  | ended =>
      rw [haggregation] at haggregates
      cases haggregates with
      | ended _ _ _ _ hended _ => exact ⟨hended, .inl rfl⟩
  | dead fault =>
      rw [haggregation] at haggregates
      cases haggregates with
      | dead _ _ _ _ _ _ hended _ => exact ⟨hended, .inr ⟨fault, rfl⟩⟩

end Serves

/-- What a reader of a result finds when nothing is due any more and nothing was removed. -/
theorem Serves.result?_of_settled (hserves : s.Serves calm handlers work h due progress lane l)
    (hdue : due .settled = 0) (hdrained : progress.drained = 0) {i : Nat} {r : TxResult F.Output}
    (hr : (work.resultsOf handlers h)[i]? = some r) : s.result? i = .ok (some r) := by
  have hi : i < s.blockLength := by
    rw [hserves.length_eq, ← Work.length_resultsOf handlers work h]
    exact (List.getElem?_eq_some_iff.mp hr).1
  rw [Work.getElem?_resultsOf] at hr
  obtain ⟨tx, htx, rfl⟩ := Option.map_eq_some_iff.mp hr
  have hvalue := hserves.settled.values i
  rw [htx, hdrained, hdue] at hvalue
  unfold valueAt at hvalue
  simp [Station.result?, hi, hvalue]

/-- A worker that waits for what was prefetched finds it once it is written. -/
theorem Fits.data_of_deposited (hs : s.Fits calm handlers past work h due (.serving progress))
    (hlen : work.block.length ≤ 2 ^ 32) {tx : IndexedTx} (hjob : ⟨h, tx⟩ ∈ work.jobs handlers)
    (hdue : ⟨h, tx⟩ ∉ due .deposited) :
    ∃ cell, s.data[tx.index]? = some cell ∧ cell.value = some (work.dataOf handlers h tx) := by
  obtain ⟨cell, hcell, -⟩ := hs.dataOf hlen hjob
  obtain ⟨old, l, -, -, hserves⟩ := hs
  refine ⟨cell, hcell, ?_⟩
  have hvalue := hserves.supplied.values tx.index
  rw [(Work.getElem?_of_mem hlen (Work.mem_jobs.mp hjob).1).2] at hvalue
  simpa [valueAt, hcell, hjob, hdue] using hvalue

/-- Once the aggregation was waited for, there is an aggregate to take. -/
theorem Fits.takeAggregate?_ne_none
    (hs : s.Fits calm handlers past work h due (.serving progress))
    (hawaited : progress.awaited = true) (hconcluded : progress.concluded = false) :
    s.takeAggregate? ≠ none := by
  obtain ⟨old, l, -, -, hserves⟩ := hs
  obtain ⟨a, ha, -⟩ := hserves.aggregates.exists_of_awaited hawaited hconcluded
  simp [Station.takeAggregate?, Cell.take?, ha]

/-- Once all results are written, the next one can be removed. -/
theorem Fits.drain?_ne_none (hs : s.Fits calm handlers past work h due (.serving progress))
    (hdue : due .settled = 0) (hdrained : progress.drained < work.block.length) :
    s.drain? progress.drained ≠ none := by
  obtain ⟨old, l, -, -, hserves⟩ := hs
  have hvalue := hserves.settled.values progress.drained
  rw [List.getElem?_eq_getElem (by rwa [Block.length_indexed]), hdue] at hvalue
  obtain ⟨cell, hcell, hset⟩ : ∃ cell, s.results[progress.drained]? = some cell ∧
      cell.value.isSome = true := by
    unfold valueAt at hvalue
    cases hcell : s.results[progress.drained]? with
    | none => simp [hcell] at hvalue
    | some cell =>
        refine ⟨cell, rfl, ?_⟩
        rw [hcell, Option.bind_some] at hvalue
        simp [hvalue]
  obtain ⟨r, hr⟩ := Option.isSome_iff_exists.mp hset
  simp [Station.drain?, hcell, Cell.take?, hr]

end Station

end TxPipeline
