import TxPipeline.Station.Threads

/-!
# What a move at a station can be

What an operation makes of a station when it succeeds, and for each thread of a lane its moves as a
relation: a constructor for each way a move can come out, with everything that was found on the way.
-/

namespace TxPipeline.Station

variable {F : Flow} {s s' : Station F} {lane source i : Nat} {l feed : Lane F}

/-! ## Operations -/

/-- An announcement changes what is still to be announced, and the lane that it is sent to. -/
theorem eq_of_announce {r : TxResult F.Output} (h : s.announce r = .ok s') :
    r.index < s.blockLength ∧ ∃ lanes,
      s' = { s with
        lanes
        remaining := s.remaining - 1
        sender := if s.remaining - 1 = 0 then none else s.sender } ∧
      (s.sender = none ∧ lanes = s.lanes ∨
        ∃ lane, s.sender = some lane ∧
          lanes = s.lanes.modify lane fun l => { l with completions := l.completions.send r }) := by
  unfold announce at h
  split at h <;> cases h
  rename_i hindex
  cases s.sender with
  | none => exact ⟨hindex, _, rfl, .inl ⟨rfl, rfl⟩⟩
  | some lane => exact ⟨hindex, _, rfl, .inr ⟨lane, rfl, rfl⟩⟩

theorem eq_of_settle {r : TxResult F.Output} (h : s.settle r = .ok s') :
    ∃ cell cell', s.results[r.index]? = some cell ∧ cell.set? r = some cell' ∧
      s' = { s with results := s.results.set r.index cell' } := by
  unfold settle at h
  split at h
  · cases h
  · split at h <;> cases h
    exact ⟨_, _, ‹_›, ‹_›, rfl⟩

theorem eq_of_deposit {data : Option F.Data} (h : s.deposit i data = .ok s') :
    ∃ cell cell', s.data[i]? = some cell ∧ cell.set? data = some cell' ∧
      s' = { s with data := s.data.set i cell' } := by
  unfold deposit at h
  split at h
  · cases h
  · split at h <;> cases h
    exact ⟨_, _, ‹_›, ‹_›, rfl⟩

theorem eq_of_drain? (h : s.drain? i = some s') :
    ∃ cell r cell', s.results[i]? = some cell ∧ cell.take? = some (r, cell') ∧
      s' = { s with results := s.results.set i cell' } := by
  obtain ⟨cell, hcell, h⟩ := Option.bind_eq_some_iff.mp h
  obtain ⟨⟨r, cell'⟩, htake, h⟩ := Option.bind_eq_some_iff.mp h
  cases h
  exact ⟨cell, r, cell', hcell, htake, rfl⟩

theorem eq_of_takeAggregate? {a : F.Aggregate} (h : s.takeAggregate? = some (a, s')) :
    ∃ cell, s.aggregated.take? = some (a, cell) ∧ s' = { s with aggregated := cell } := by
  obtain ⟨⟨taken, cell⟩, htake, h⟩ := Option.bind_eq_some_iff.mp h
  cases h
  exact ⟨cell, htake, rfl⟩

/-! ## The preparation -/

/-- A move of the preparation of lane `lane`. -/
inductive PreparationMove (s : Station F) (lane : Nat) : Station F → Prop
  | fault (l : Lane F) (store : F.Store) (rules : Rules) (block : Block) (fault : Fault)
      (hl : s.lanes[lane]? = some l) (hready : l.preparation = .ready store rules block)
      (hfault : s.handler.beforeBlock store rules block = .error fault) :
      PreparationMove s lane (s.updateLane lane fun l => { l with preparation := .dead fault })
  | alreadySet (l : Lane F) (store : F.Store) (rules : Rules) (block : Block) (common : F.Common)
      (hl : s.lanes[lane]? = some l) (hready : l.preparation = .ready store rules block)
      (hok : s.handler.beforeBlock store rules block = .ok common)
      (hset : s.common.set? common = none) :
      PreparationMove s lane
        (s.updateLane lane fun l => { l with preparation := .dead .alreadySet })
  | write (l : Lane F) (store : F.Store) (rules : Rules) (block : Block) (common : F.Common)
      (cell : Cell F.Common) (hl : s.lanes[lane]? = some l)
      (hready : l.preparation = .ready store rules block)
      (hok : s.handler.beforeBlock store rules block = .ok common)
      (hset : s.common.set? common = some cell) :
      PreparationMove s lane
        { s.updateLane lane fun l => { l with preparation := .ended } with common := cell }

theorem preparationMove_of_stepPreparation? (h : s.stepPreparation? lane = some s') :
    s.PreparationMove lane s' := by
  unfold stepPreparation? at h
  split at h
  · cases h
  rename_i l hl
  split at h
  · rename_i store rules block hready
    split at h
    · cases h
      exact .fault l store rules block _ hl hready ‹_›
    · rename_i common hok
      split at h <;> cases h
      · exact .alreadySet l store rules block common hl hready hok ‹_›
      · exact .write l store rules block common _ hl hready hok ‹_›
  · cases h

/-! ## The replay -/

/-- A move of the replay of lane `lane`. -/
inductive ReplayMove (s : Station F) (lane : Nat) : Station F → Prop
  | find (l : Lane F) (i : Nat) (r : TxResult F.Output) (hl : s.lanes[lane]? = some l)
      (hreading : l.replay = .reading i) (hvalue : (s.results[i]?).bind (·.value) = some r) :
      ReplayMove s lane (s.updateLane lane fun l => { l with replay := .sending i r })
  | send (l : Lane F) (i : Nat) (r : TxResult F.Output) (hl : s.lanes[lane]? = some l)
      (hsending : l.replay = .sending i r) (hheld : l.ordered.held = true) :
      ReplayMove s lane (s.updateLane lane fun l =>
        { l with ordered := l.ordered.send r, replay := .at (i + 1) l.length })
  | giveUp (l : Lane F) (i : Nat) (r : TxResult F.Output) (hl : s.lanes[lane]? = some l)
      (hsending : l.replay = .sending i r) (hheld : l.ordered.held = false) :
      ReplayMove s lane (s.updateLane lane fun l => { l with replay := .ended })

theorem replayMove_of_stepReplay? (h : s.stepReplay? lane = some s') : s.ReplayMove lane s' := by
  unfold stepReplay? at h
  split at h
  · cases h
  rename_i l hl
  split at h
  · split at h <;> cases h
    exact .find l _ _ hl ‹_› ‹_›
  · rename_i i r hsending
    split at h <;> cases h
    · exact .send l i r hl hsending ‹_›
    · rename_i hheld
      exact .giveUp l i r hl hsending (by simpa using hheld)
  · cases h

/-! ## The aggregation -/

/-- A move of the reader of lane `l`, whose completions come from lane `feed`. -/
inductive ReaderMove (s : Station F) (lane source : Nat) (l feed : Lane F) :
    Reader (TxResult F.Output) F.Aggregate → Station F → Prop
  | done (outcome : Except Fault F.Aggregate) :
      ReaderMove s lane source l feed (.done outcome)
        ((s.updateLane lane fun l =>
            { l with ordered := l.ordered.release, aggregation := .joining outcome }).updateLane
          source fun l => { l with completions := l.completions.release })
  | byIndex (k : Option (TxResult F.Output) → Reader (TxResult F.Output) F.Aggregate)
      (r : TxResult F.Output) (stream : Stream (TxResult F.Output))
      (hnext : l.ordered.next? = some (r, stream)) :
      ReaderMove s lane source l feed (.nextByIndex k)
        (s.updateLane lane fun l =>
          { l with ordered := stream, aggregation := .reading source (k (some r)) })
  | endByIndex (k : Option (TxResult F.Output) → Reader (TxResult F.Output) F.Aggregate)
      (hnext : l.ordered.next? = none) (hended : l.replay.isEnded = true) :
      ReaderMove s lane source l feed (.nextByIndex k)
        (s.updateLane lane fun l => { l with aggregation := .reading source (k none) })
  | byCompletion (k : Option (TxResult F.Output) → Reader (TxResult F.Output) F.Aggregate)
      (r : TxResult F.Output) (stream : Stream (TxResult F.Output))
      (hnext : feed.completions.next? = some (r, stream)) :
      ReaderMove s lane source l feed (.nextByCompletion k)
        ((s.updateLane source fun l => { l with completions := stream }).updateLane lane
          fun l => { l with aggregation := .reading source (k (some r)) })
  | endByCompletion (k : Option (TxResult F.Output) → Reader (TxResult F.Output) F.Aggregate)
      (hnext : feed.completions.next? = none) (hsender : s.sender ≠ some source) :
      ReaderMove s lane source l feed (.nextByCompletion k)
        (s.updateLane lane fun l => { l with aggregation := .reading source (k none) })
  | backlog (k : Nat → Nat → Reader (TxResult F.Output) F.Aggregate) :
      ReaderMove s lane source l feed (.backlog k)
        (s.updateLane lane fun l =>
          { l with aggregation :=
              .reading source (k l.ordered.queued.length feed.completions.queued.length) })

theorem readerMove_of_stepReader? {reader : Reader (TxResult F.Output) F.Aggregate}
    (h : s.stepReader? lane source l feed reader = some s') :
    s.ReaderMove lane source l feed reader s' := by
  cases reader with
  | done outcome =>
      cases h
      exact .done outcome
  | nextByIndex k =>
      rw [stepReader?] at h
      split at h
      · cases h
        exact .byIndex k _ _ ‹_›
      · split at h <;> cases h
        exact .endByIndex k ‹_› ‹_›
  | nextByCompletion k =>
      rw [stepReader?] at h
      split at h
      · cases h
        exact .byCompletion k _ _ ‹_›
      · split at h <;> cases h
        exact .endByCompletion k ‹_› ‹_›
  | backlog k =>
      cases h
      exact .backlog k

/-- A move of the aggregation of lane `lane`. -/
inductive AggregationMove (s : Station F) (lane : Nat) : Station F → Prop
  | streamMissing (l : Lane F) (hl : s.lanes[lane]? = some l)
      (hclaiming : l.aggregation = .claiming)
      (hreceiver : s.receiver = none) :
      AggregationMove s lane (s.updateLane lane fun l =>
        { l with aggregation := .dead (.streamMissing s.handler.name) })
  | claim (l : Lane F) (source : Nat) (hl : s.lanes[lane]? = some l)
      (hclaiming : l.aggregation = .claiming) (hreceiver : s.receiver = some source) :
      AggregationMove s lane
        { s.updateLane lane fun l => { l with aggregation := .gathering source } with
          receiver := none }
  | gather (l : Lane F) (source : Nat) (common : F.Common) (hl : s.lanes[lane]? = some l)
      (hgathering : l.aggregation = .gathering source) (hvalue : s.common.value = some common) :
      AggregationMove s lane (s.updateLane lane fun l =>
        { l with
          length := s.blockLength
          replay := .at 0 s.blockLength
          aggregation := .reading source (s.handler.postProcess common s.blockLength) })
  | read {s' : Station F} (l feed : Lane F) (source : Nat)
      (reader : Reader (TxResult F.Output) F.Aggregate) (hl : s.lanes[lane]? = some l)
      (hreading : l.aggregation = .reading source reader) (hfeed : s.lanes[source]? = some feed)
      (hmove : s.ReaderMove lane source l feed reader s') : AggregationMove s lane s'
  | joinFault (l : Lane F) (fault : Fault) (hl : s.lanes[lane]? = some l)
      (hjoining : l.aggregation = .joining (.error fault)) (hended : l.replay.isEnded = true) :
      AggregationMove s lane (s.updateLane lane fun l => { l with aggregation := .dead fault })
  | alreadySet (l : Lane F) (a : F.Aggregate) (hl : s.lanes[lane]? = some l)
      (hjoining : l.aggregation = .joining (.ok a)) (hended : l.replay.isEnded = true)
      (hset : s.aggregated.set? a = none) :
      AggregationMove s lane
        (s.updateLane lane fun l => { l with aggregation := .dead .alreadySet })
  | write (l : Lane F) (a : F.Aggregate) (cell : Cell F.Aggregate) (hl : s.lanes[lane]? = some l)
      (hjoining : l.aggregation = .joining (.ok a)) (hended : l.replay.isEnded = true)
      (hset : s.aggregated.set? a = some cell) :
      AggregationMove s lane
        { s.updateLane lane fun l => { l with aggregation := .ended } with aggregated := cell }

theorem aggregationMove_of_stepAggregation? (h : s.stepAggregation? lane = some s') :
    s.AggregationMove lane s' := by
  unfold stepAggregation? at h
  split at h
  · cases h
  rename_i l hl
  split at h
  · split at h <;> cases h
    · exact .streamMissing l hl ‹_› ‹_›
    · exact .claim l _ hl ‹_› ‹_›
  · split at h <;> cases h
    exact .gather l _ _ hl ‹_› ‹_›
  · split at h
    · cases h
    · exact .read l _ _ _ hl ‹_› ‹_› (readerMove_of_stepReader? h)
  · rename_i outcome hjoining
    split at h
    · rename_i hended
      cases outcome with
      | error fault =>
          cases h
          exact .joinFault l fault hl hjoining hended
      | ok a =>
          dsimp only at h
          split at h <;> cases h
          · exact .alreadySet l a hl hjoining hended ‹_›
          · exact .write l a _ hl hjoining hended ‹_›
    · cases h
  · cases h

end TxPipeline.Station
