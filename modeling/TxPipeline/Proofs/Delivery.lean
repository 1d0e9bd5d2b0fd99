import TxPipeline.Proofs.Audience.Waiting
import TxPipeline.Proofs.Undrained

/-!
# What comes out of the streams

Who reads the streams of a started block does not wait for ever. When no thread can move any more,
each of the two streams carries every result and is closed, and who drains them has got every
result from each. Until then the streams carry a part of just these results.
-/

namespace TxPipeline

variable {F : Flow} {calm : Prop} {handlers : List (Handler F)} {past : List (Work F)}
  {work : Work F} {phase : Phase F} {progress : Progress} {p q : Pipeline F} {s : Station F}
  {l : Lane F} {c h lane : Nat} {due : Checkpoint → Multiset Job} {common : F.Common}
  {outcome : Except Fault F.Aggregate} {results : List (TxResult F.Output)}
  {g : Option (List (TxResult F.Output)) → Option (List (TxResult F.Output)) →
    Except Fault F.Aggregate}

/-- Both streams of lane `l`, which is number `lane`, carry all results and are closed, and the
threads at their ends have ended. -/
structure Station.Delivers (s : Station F) (lane : Nat) (l : Lane F)
    (results : List (TxResult F.Output)) : Prop where
  completed : l.completions.sent.Perm results
  closed : s.sender ≠ some lane
  /-- Nothing more is sent to who has given up the ordered stream. -/
  ordered : l.ordered.held = true → l.ordered.sent = results
  ended : l.Ended

/-- `postProcess` of lane `l` has got all results from each stream and learned that both are over,
and has made `g` of them. -/
structure Station.Receives (s : Station F) (l : Lane F) (results : List (TxResult F.Output))
    (g : Option (List (TxResult F.Output)) → Option (List (TxResult F.Output)) →
      Except Fault F.Aggregate) : Prop where
  reaches : s.Reaches l (.done (g (some results) (some l.completions.sent)))
  ordered : l.ordered.sent = results
  ordered_read : l.ordered.queued = []
  completed : l.completions.sent.Perm results
  completed_read : l.completions.queued = []

/-- Whatever can be read at station `h`, whose lane is `l`, is the result of its transaction. -/
structure Pipeline.Agrees (p : Pipeline F) (h : Nat) (l : Lane F)
    (results : List (TxResult F.Output)) : Prop where
  ordered : ∀ (i : Nat) r, l.ordered.sent[i]? = some r → results[i]? = some r
  completed : ∀ r ∈ l.completions.sent, results[r.index]? = some r
  result : ∀ i r, p.result? h i = .ok (some r) → results[i]? = some r

/-! ## A reader that drains both streams -/

theorem Lane.Reads.receives {handler : Handler F} (hreads : l.Reads handlers work h (.done outcome))
    (hcovers : s.Covers lane l (work.resultsOf handlers h)) (hreaches : s.Reaches l (.done outcome))
    (hhandler : handlers[h]? = some handler)
    (hcommon : handler.beforeBlock work.store work.rules work.block = .ok common)
    (hdrain : handler.postProcess common work.block.length = .drain work.block.length g) :
    outcome = g (some (work.resultsOf handlers h)) (some l.completions.sent) ∧
      s.Receives l (work.resultsOf handlers h) g := by
  obtain ⟨-, hreplays, -, hread, other, common', i, j, hother, hcommon', hfollows, hi, hj,
    hcompleted⟩ := hreads
  obtain rfl : other = handler := Option.some.inj (hother.symm.trans hhandler)
  have hbefore := Work.beforeBlock_eq hhandler hcommon'
  rw [hcommon] at hbefore
  cases hbefore
  rw [hdrain] at hfollows
  have hresults := Work.length_resultsOf handlers work h
  -- a drain asks once more than there are results, so all of them were announced
  obtain ⟨rest, hperm⟩ := hcovers.completed
  have hlength := hperm.length_eq.trans hresults
  rw [List.length_append] at hlength
  have hall : l.completions.sent.length = work.block.length := by
    rcases hcompleted with hle | hall
    · obtain ⟨-, -, rfl⟩ := (hfollows.append_completed hle rest).eq_of_drain hresults
        (by rw [List.length_append, hlength])
      omega
    · exact hall
  obtain ⟨houtcome, rfl, rfl⟩ := hfollows.eq_of_drain hresults hall
  have hzero : s.remaining = 0 := by rw [hcovers.remaining_eq, hresults, hall, Nat.sub_self]
  have hprefix := hcovers.replayed
  refine ⟨houtcome, houtcome ▸ hreaches, ?_, ?_, hcovers.perm_of_remaining hzero, ?_⟩
  · refine hprefix.eq_of_length_le ?_
    omega
  · have hle := hprefix.length_le
    refine List.drop_eq_nil_of_le ?_
    omega
  · refine List.drop_eq_nil_of_le ?_
    omega

namespace Pipeline

theorem During.agrees (hp : p.During calm handlers past work phase) (hs : p.stations[h]? = some s)
    (hl : s.lanes[past.length]? = some l) : p.Agrees h l (work.resultsOf handlers h) where
  ordered := fun i r hr => (hp.covers hs hl).getElem?_of_replayed hr
  completed := fun r hr =>
    Work.getElem?_of_mem_resultsOf hp.length_le ((hp.covers hs hl).mem_of_announced hr)
  result := fun i r hr => by
    obtain ⟨tx, htx, rfl, -⟩ := hp.result? hr
    rw [Work.getElem?_resultsOf, htx, Option.map_some]

theorem During.receives (hp : p.During calm handlers past work phase)
    (hs : p.stations[h]? = some s) (hl : s.lanes[past.length]? = some l)
    (hreaches : s.Reaches l (.done outcome))
    (hcommon : s.handler.beforeBlock work.store work.rules work.block = .ok common)
    (hdrain : s.handler.postProcess common work.block.length = .drain work.block.length g) :
    outcome = g (some (work.resultsOf handlers h)) (some l.completions.sent) ∧
      s.Receives l (work.resultsOf handlers h) g := by
  have hhandler : handlers[h]? = some s.handler := by
    rw [hp.crew.getElem?_handlers, hs, Option.map_some]
  rcases hp.serves_or_done hs hl with ⟨progress, hserves⟩ | ⟨hclear, hdone⟩
  · exact (hserves.aggregates.reads hreaches).receives (hp.covers hs hl) hreaches hhandler hcommon
      hdrain
  · cases hreaches with
    | reading _ _ h => simp [hdone.aggregation] at h
    | joining _ h => simp [hdone.aggregation] at h
    | ended a h ha => simp [hclear.aggregated] at ha
    | dead fault h => simp [hdone.aggregation] at h

/-- What a call takes when it concludes the block is what was made of all results. -/
theorem During.exists_taken {f : Nat} {store : F.Store} {block : Block} {receipts : List Receipt}
    {active : ActiveBlock} (hp : p.During calm handlers past work phase)
    (hs : p.stations[h]? = some s) (hl : s.lanes[past.length]? = some l)
    (hcall : p.calls[f]? = some (.finish store block receipts (.conclude active h)))
    (hcommon : s.handler.beforeBlock work.store work.rules work.block = .ok common)
    (hdrain : s.handler.postProcess common work.block.length = .drain work.block.length g) :
    ∃ a s', s.takeAggregate? = some (a, s') ∧
      g (some (work.resultsOf handlers h)) (some l.completions.sent) = .ok a ∧
      s.Receives l (work.resultsOf handlers h) g := by
  rcases hp.eq_finishing hcall with ⟨hnext, -⟩ | ⟨origin, rfl⟩
  · cases hnext
  have hfits := hp.stations h s hs
  simp only [Phase.berth, Finishing.berth, le_refl, lt_irrefl, decide_true,
    decide_false] at hfits
  obtain ⟨⟨a, s'⟩, htake⟩ := Option.ne_none_iff_exists'.mp (hfits.takeAggregate?_ne_none rfl rfl)
  obtain ⟨old, last, hlanes, hold, hserves⟩ := hfits
  obtain rfl : last = l := by simpa [hlanes, hold.length_eq] using hl
  obtain ⟨b, hb, hended⟩ := hserves.aggregates.exists_of_awaited rfl rfl
  obtain ⟨cell, hcell, rfl⟩ := Station.eq_of_takeAggregate? htake
  obtain rfl : b = a := by simpa [hb] using (Cell.eq_of_take? hcell).1
  obtain ⟨hmade, hreceives⟩ := hp.receives hs hl (.ended b hended hb) hcommon hdrain
  exact ⟨b, _, htake, hmade.symm, hreceives⟩

/-! ## When no thread can move -/

theorem Aftermath.covers (hp : p.Aftermath handlers past work) (hs : p.stations[h]? = some s)
    (hl : s.lanes[past.length]? = some l) :
    s.Covers past.length l (work.resultsOf handlers h) := by
  rcases hp.station hs with ⟨phase, progress, hduring, -, -, -⟩ | ⟨hclear, hall⟩
  · exact hduring.covers hs hl
  · obtain ⟨last, hlast, hdone⟩ := exists_last_of_done hall
    obtain rfl : last = l := Option.some.inj (hlast.symm.trans hl)
    exact hdone.covers hclear

theorem Aftermath.delivers (hp : p.Aftermath handlers past work) (horderly : p.Orderly)
    (hbefore : ∀ handler ∈ handlers, ∃ common,
      handler.beforeBlock work.store work.rules work.block = .ok common)
    (hhalted : p.Halted) (hs : p.stations[h]? = some s) :
    ∃ l, s.lanes[past.length]? = some l ∧
      s.Delivers past.length l (work.resultsOf handlers h) := by
  have hexhausted := hp.exhausted horderly hbefore hhalted
  obtain ⟨l, hl, hperm⟩ := hexhausted.announced h s hs
  rw [hp.lastLane_eq] at hl
  have hended := hexhausted.lanes s (List.mem_of_getElem? hs) l (List.mem_of_getElem? hl)
  have hcovers := hp.covers hs hl
  have hzero : s.remaining = 0 := by rw [hcovers.remaining_eq, hperm.length_eq, Nat.sub_self]
  refine ⟨l, hl, hperm, ?_, hcovers.replayed_all hended.replay, hended⟩
  rw [hcovers.sender_eq, hzero]
  exact nofun

/-- While nobody finishes the block, a `postProcess` that has ended has left what it made, or its
fault. -/
theorem Standing.exists_outcome (hp : p.Standing handlers past work) (hs : p.stations[h]? = some s)
    (hl : s.lanes[past.length]? = some l) (hended : l.Ended) :
    ∃ outcome, s.Reaches l (.done outcome) := by
  obtain ⟨old, last, hlanes, hold, hserves⟩ := hp.during.stations h s hs
  obtain rfl : last = l := by simpa [hlanes, hold.length_eq] using hl
  rcases hended.aggregation with haggregation | ⟨fault, haggregation⟩
  · have haggregates := hserves.aggregates
    rw [haggregation] at haggregates
    cases haggregates with
    | ended a _ _ hsome _ _ => exact ⟨_, .ended a haggregation hsome⟩
  · exact ⟨_, .dead fault haggregation⟩

theorem Standing.run? {actors : List Actor} (hp : p.Standing handlers past work)
    (hrun : p.run? (actors.map .act) = some q) : q.Standing handlers past work := by
  induction actors generalizing p with
  | nil =>
      cases hrun
      exact hp
  | cons actor rest ih =>
      obtain ⟨next, hstep, hrest⟩ := Option.bind_eq_some_iff.mp hrun
      exact ih (hp.step? hstep) hrest

/-- Both streams of station `h` come to their ends: whoever moves, there are at most `bound` moves,
and when no thread can move any more, both streams have delivered all results. If nobody has asked
to finish the block, `postProcess` has then come to its end on all results, and has received all of
them if it drains both streams. -/
def Delivers (handlers : List (Handler F)) (work : Work F) (p : Pipeline F) (h bound : Nat) :
    Prop :=
  ∀ (actors : List Actor) (q : Pipeline F), p.run? (actors.map .act) = some q →
    actors.length ≤ bound ∧ (q.Halted → ∃ s l, q.stations[h]? = some s ∧
      handlers[h]? = some s.handler ∧ s.lanes[p.lastLane]? = some l ∧
      s.Delivers p.lastLane l (work.resultsOf handlers h) ∧
      ((∀ call ∈ p.calls, call.isFinishing = false) → ∀ common,
        s.handler.beforeBlock work.store work.rules work.block = .ok common →
        (∃ outcome i j, s.Reaches l (.done outcome) ∧
          Reader.Follows (work.resultsOf handlers h) l.completions.sent
            (s.handler.postProcess common work.block.length) (.done outcome) i j) ∧
        ∀ g, s.handler.postProcess common work.block.length = .drain work.block.length g →
          s.Receives l (work.resultsOf handlers h) g))

theorem Chronicle.exists_delivers {ts : List (Task F)} (hp : Chronicle False handlers ts p)
    (horderly : p.Orderly) (htask : ts[c]? = some work.task)
    (hstarted : p.calls[c]? = some (.returned (.started (.ok ())))) (hover : ¬ p.Over c)
    (hbefore : ∀ handler ∈ handlers, ∃ common,
      handler.beforeBlock work.store work.rules work.block = .ok common)
    (hh : h < handlers.length) : ∃ bound, p.Delivers handlers work h bound := by
  obtain ⟨past, haftermath⟩ := hp.aftermath htask hstarted hover
  refine ⟨p.effort handlers work, fun actors q hrun => ⟨?_, fun hhalted => ?_⟩⟩
  · exact (Nat.le_add_right _ _).trans (haftermath.length_le_effort hrun)
  have hq := haftermath.run? hrun
  have hhandler := hq.crew.getElem?_handlers h
  rw [List.getElem?_eq_getElem hh] at hhandler
  obtain ⟨s, hs, heq⟩ := Option.map_eq_some_iff.mp hhandler.symm
  obtain ⟨l, hl, hdelivers⟩ := hq.delivers (orderly_of_run? horderly hrun) hbefore hhalted hs
  rw [← haftermath.lastLane_eq] at hl hdelivers
  refine ⟨s, l, hs, heq ▸ List.getElem?_eq_getElem hh, hl, hdelivers,
    fun hunasked common hcommon => ?_⟩
  obtain ⟨past', hstanding⟩ := hp.standing htask hstarted hover hunasked
  rw [hstanding.during.lastLane_eq] at hl
  have hstanding := hstanding.run? hrun
  obtain ⟨outcome, hreaches⟩ := hstanding.exists_outcome hs hl hdelivers.ended
  refine ⟨?_, fun g hdrain => (hstanding.during.receives hs hl hreaches hcommon hdrain).2⟩
  obtain ⟨common', i, j, hcommon', hfollows⟩ := hstanding.during.follows_of_isPrefix hs hl hreaches
    List.prefix_rfl (hdelivers.completed.length_eq.trans (Work.length_resultsOf _ _ _))
  rw [hcommon] at hcommon'
  cases hcommon'
  exact ⟨outcome, i, j, hreaches, hfollows⟩

variable {config : Config} {registry : Registry F} {moves : List (Move F)}

/-- Each stream of a block carries every result exactly once, at every moment so far as it was sent,
and what is read of either stream or of the results themselves is the same. A `postProcess` that
drains its streams ends with all of it and with nothing else. It does come to this: once the block
is started, no schedule goes on for ever, and when no thread can move any more, both streams carry
all results and are closed, and who drains them has received all. If a call finishes the block in
the meantime, what it takes is what was made of all results. -/
theorem streams_cover_results (hcreate : create config registry = .ok p)
    (hrun : p.cleanRun? moves = some q) (htask : (tasks moves)[c]? = some work.task)
    (hwork : q.InWork c) (hs : q.stations[h]? = some s) :
    (work.resultsOf registry.handlers h).map (·.tx) = work.block.indexed ∧
      (q.calls[c]? = some (.returned (.started (.ok ()))) →
        (∃ l, s.lanes[q.lastLane]? = some l) ∧
        ((∀ handler ∈ registry.handlers, ∃ common,
            handler.beforeBlock work.store work.rules work.block = .ok common) →
          ∃ bound, q.Delivers registry.handlers work h bound)) ∧
      ∀ l, s.lanes[q.lastLane]? = some l →
        s.Covers q.lastLane l (work.resultsOf registry.handlers h) ∧
        q.Agrees h l (work.resultsOf registry.handlers h) ∧
        (∀ reader, s.Reaches l reader → ∃ common completed i j,
          s.handler.beforeBlock work.store work.rules work.block = .ok common ∧
          l.completions.sent <+: completed ∧ completed.Perm (work.resultsOf registry.handlers h) ∧
          Reader.Follows (work.resultsOf registry.handlers h) completed
            (s.handler.postProcess common work.block.length) reader i j) ∧
        ∀ common g, s.handler.beforeBlock work.store work.rules work.block = .ok common →
          s.handler.postProcess common work.block.length = .drain work.block.length g →
          (∀ outcome, s.Reaches l (.done outcome) →
            outcome = g (some (work.resultsOf registry.handlers h)) (some l.completions.sent) ∧
            s.Receives l (work.resultsOf registry.handlers h) g) ∧
          ∀ (f : Nat) store block receipts active,
            q.calls[f]? = some (Call.finish store block receipts (.conclude active h)) →
            ∃ a s', s.takeAggregate? = some (a, s') ∧
              g (some (work.resultsOf registry.handlers h)) (some l.completions.sent) = .ok a ∧
              s.Receives l (work.resultsOf registry.handlers h) g := by
  obtain ⟨past, phase, hq, hstarting, -⟩ := exists_phase work hcreate hrun htask hwork
  refine ⟨Work.map_tx_resultsOf _ _ _, fun hstarted => ⟨?_, fun hbefore => ?_⟩, fun l hl => ?_⟩
  · rw [hq.lastLane_eq]
    apply hq.exists_lane hs
    intro d next hphase
    obtain rfl := hphase
    obtain rfl := hstarting d next rfl
    rw [hq.call_eq] at hstarted
    cases hstarted
  · have hsteady := Chronicle.of_steadyRun? hcreate (steadyRun?_of_cleanRun? hcreate hrun)
    exact hsteady.exists_delivers
      (orderly_of_run? (orderly_create hcreate) (run?_of_cleanRun? hrun)) htask hstarted hwork.2
      hbefore (hq.crew.lt_of_station hs)
  · rw [hq.lastLane_eq] at hl ⊢
    refine ⟨hq.covers hs hl, hq.agrees hs hl, fun reader => hq.follows hs hl,
      fun common g hcommon hdrain => ⟨fun outcome hreaches => ?_, ?_⟩⟩
    · exact hq.receives hs hl hreaches hcommon hdrain
    · intro f store block receipts active hcall
      exact hq.exists_taken hs hl hcall hcommon hdrain

end Pipeline

/-! ## A run -/

namespace Sample

/-- How much came from each of two streams. -/
def tally (ordered completed : Option (List (TxResult Nat))) : Except Fault Nat :=
  .ok (10 * (ordered.getD []).length + (completed.getD []).length)

/-- The handler `adder`, but it drains both streams and tells how much it got of each. -/
def draining : Handler flow := { adder with postProcess := fun _ n => .drain n tally }

def drainers : Registry flow := ⟨[draining]⟩

/-- After `started` everything is replayed, and both streams are read to their ends. -/
def received : List (Pipeline.Move flow) :=
  [.replay 0 0, .replay 0 0, .replay 0 0, .replay 0 0, .aggregation 0 0, .aggregation 0 0,
    .aggregation 0 0, .aggregation 0 0, .aggregation 0 0, .aggregation 0 0, .aggregation 0 0,
    .aggregation 0 0].map .act

/-- Whether the aggregation of a lane has ended without a fault. -/
def hasAggregated (l : Lane flow) : Bool :=
  match l.aggregation with
  | .ended => true
  | _ => false

theorem aggregation_eq {l : Lane flow} (h : hasAggregated l = true) : l.aggregation = .ended := by
  unfold hasAggregated at h
  split at h
  · assumption
  · cases h

end Sample

open Pipeline Sample in
/-- From a state in which nothing of `pair` was replayed, some schedule comes to a state in which
no thread can move, and then both results were received from each stream. In one of them the
replay goes first. -/
theorem Pipeline.streams_cover_received : ∃ p q s l results,
    results = Work.resultsOf drainers.handlers ⟨(3 : Nat), .latest, pair⟩ 0 ∧ results.length = 2 ∧
    (ofConfig oneEach drainers).cleanRun? started = some p ∧
    (∃ (actors : List Actor) (q : Pipeline flow) (s : Station flow) (l : Lane flow),
      p.run? (actors.map .act) = some q ∧ q.Halted ∧ q.stations[0]? = some s ∧
      s.lanes[p.lastLane]? = some l ∧ s.Delivers p.lastLane l results ∧
        s.Receives l results tally) ∧
    p.cleanRun? received = some q ∧ q.stations[0]? = some s ∧ s.lanes[q.lastLane]? = some l ∧
    s.aggregated.value = some 22 ∧ s.Receives l results tally := by
  obtain ⟨p, hrun, hwork, ⟨_, hcall, rfl⟩, hunasked, station, hstation, -⟩ : ∃ p,
      (ofConfig oneEach drainers).cleanRun? started = some p ∧ p.InWork 0 ∧
        (∃ call, p.calls[0]? = some call ∧ call = .returned (.started (.ok ()))) ∧
        (∀ call ∈ p.calls, call.isFinishing = false) ∧
        ∃ s, p.stations[0]? = some s ∧ s.blockLength = 2 := by
    decide +kernel
  obtain ⟨q, hall, hstill, s, hs, hvalue, l, hl, hended⟩ : ∃ q,
      (ofConfig oneEach drainers).cleanRun? (started ++ received) = some q ∧ q.InWork 0 ∧
        ∃ s, q.stations[0]? = some s ∧ s.aggregated.value = some 22 ∧
          ∃ l, s.lanes[q.lastLane]? = some l ∧ hasAggregated l = true := by
    decide +kernel
  have hcreate : create oneEach drainers = .ok (ofConfig oneEach drainers) := rfl
  have htask : (tasks started)[0]? = some (Work.task ⟨(3 : Nat), .latest, pair⟩) := rfl
  obtain ⟨-, hends, -⟩ := streams_cover_results hcreate hrun htask hwork hstation
  obtain ⟨bound, hdelivers⟩ := (hends hcall).2 fun handler hmem =>
    ⟨(3 : Nat), by rw [List.mem_singleton.mp hmem]; rfl⟩
  obtain ⟨actors, r, hr, hstuck⟩ := exists_stuck fun actors r hr => (hdelivers actors r hr).1
  obtain ⟨s', l', hs', hhandler', hl', hdelivered, hreceives⟩ :=
    (hdelivers actors r hr).2 hstuck.halted
  have hdraining : draining = s'.handler := Option.some.inj hhandler'
  have hhandler : draining = s.handler := Option.some.inj
    (((Chronicle.of_cleanRun? hcreate hall).crew.getElem?_handlers 0).trans
      (congrArg (Option.map _) hs))
  obtain ⟨-, -, hlanes⟩ :=
    streams_cover_results hcreate hall (getElem?_tasks_append htask received) hstill hs
  obtain ⟨-, -, -, hdrains⟩ := hlanes l hl
  have hreached := Station.Reaches.ended _ (aggregation_eq hended) hvalue
  refine ⟨p, q, s, l, _, rfl, Work.length_resultsOf _ _ _, hrun, ⟨actors, r, s', l', hr,
    hstuck.halted, hs', hl', hdelivered, (hreceives hunasked (3 : Nat) ?_).2 tally ?_⟩, ?_, hs, hl,
    hvalue, ((hdrains (3 : Nat) tally ?_ ?_).1 _ hreached).2⟩
  · rw [← hdraining]
    rfl
  · rw [← hdraining]
    rfl
  · rwa [cleanRun?_append, hrun, Option.bind_some] at hall
  · rw [← hhandler]
    rfl
  · rw [← hhandler]
    rfl

end TxPipeline
