import TxPipeline.Proofs.Course
import TxPipeline.Proofs.Order.Line
import TxPipeline.Proofs.Stations
import TxPipeline.Proofs.Streams

/-!
# The order of announcements

A completion stream only grows, and what is announced on it is not outstanding any more. So if
nothing leaves the lineup but its head, results are announced in the order of the lineup: first
those of declined transactions and then all others, both in the order of transactions.
-/

namespace TxPipeline

variable {F : Flow} {calm : Prop} {handlers : List (Handler F)} {past : List (Work F)}
  {work : Work F} {phase phase' : Phase F} {p q : Pipeline F} {actor : Actor} {c h i w lane : Nat}

/-! ## Streams only grow -/

namespace Station

variable {s s' : Station F} {l : Lane F}

/-- What was announced in a lane; nothing as long as the lane is not open. -/
def announcedIn (s : Station F) (lane : Nat) : List (TxResult F.Output) :=
  ((s.lanes[lane]?).map (·.completions.sent)).getD []

theorem announcedIn_eq (hl : s.lanes[lane]? = some l) :
    s.announcedIn lane = l.completions.sent := by
  rw [announcedIn, hl]
  rfl

theorem announcedIn_eq_nil (hlane : s.lanes.length ≤ lane) : s.announcedIn lane = [] := by
  rw [announcedIn, List.getElem?_eq_none hlane]
  rfl

theorem prefix_of_map_eq
    (hlanes : s'.lanes.map (·.completions.sent) = s.lanes.map (·.completions.sent)) (lane : Nat) :
    s.announcedIn lane <+: s'.announcedIn lane := by
  rw [announcedIn, announcedIn, ← List.getElem?_map, ← List.getElem?_map, hlanes]

theorem prefix_of_modify {f : Lane F → Lane F} (hlanes : s'.lanes = s.lanes.modify i f)
    (hf : ∀ l, s.lanes[i]? = some l → l.completions.sent <+: (f l).completions.sent) (lane : Nat) :
    s.announcedIn lane <+: s'.announcedIn lane := by
  rw [announcedIn, announcedIn, hlanes, List.getElem?_modify]
  cases hl : s.lanes[lane]? with
  | none => exact List.prefix_rfl
  | some l =>
      by_cases hi : i = lane
      · subst hi
        simpa using hf l hl
      · simp [hi]

theorem Edits.prefix_announcedIn (h : s.Edits s') (lane : Nat) :
    s.announcedIn lane <+: s'.announcedIn lane := by
  cases h with
  | stay | keep | closeBlock => exact prefix_of_map_eq rfl lane
  | announce r h =>
      obtain ⟨-, lanes, rfl, ⟨-, rfl⟩ | ⟨source, -, rfl⟩⟩ := eq_of_announce h
      · exact prefix_of_map_eq rfl lane
      · exact prefix_of_modify rfl (fun _ _ => List.prefix_append _ _) lane
  | settle r h =>
      obtain ⟨cell, cell', -, -, rfl⟩ := eq_of_settle h
      exact prefix_of_map_eq rfl lane
  | deposit i data h =>
      obtain ⟨cell, cell', -, -, rfl⟩ := eq_of_deposit h
      exact prefix_of_map_eq rfl lane
  | drain i h =>
      obtain ⟨cell, r, cell', -, -, rfl⟩ := eq_of_drain? h
      exact prefix_of_map_eq rfl lane
  | takeAggregate a h =>
      obtain ⟨cell, -, rfl⟩ := eq_of_takeAggregate? h
      exact prefix_of_map_eq rfl lane

theorem prefix_of_openBlock (s : Station F) (n lane : Nat) :
    s.announcedIn lane <+: (s.openBlock n).announcedIn lane := by
  cases hl : s.lanes[lane]? with
  | none =>
      rw [announcedIn_eq_nil (List.getElem?_eq_none_iff.mp hl)]
      exact List.nil_prefix
  | some l =>
      have hlt := (List.getElem?_eq_some_iff.mp hl).1
      have hl' : (s.openBlock n).lanes[lane]? = some l :=
        (List.getElem?_append_left hlt).trans hl
      rw [announcedIn_eq hl, announcedIn_eq hl']

theorem prefix_of_stepPreparation? (h : s.stepPreparation? i = some s') (lane : Nat) :
    s.announcedIn lane <+: s'.announcedIn lane := by
  cases preparationMove_of_stepPreparation? h <;> exact prefix_of_modify rfl (by simp) lane

theorem prefix_of_stepReplay? (h : s.stepReplay? i = some s') (lane : Nat) :
    s.announcedIn lane <+: s'.announcedIn lane := by
  cases replayMove_of_stepReplay? h <;> exact prefix_of_modify rfl (by simp) lane

theorem ReaderMove.prefix_announcedIn {source : Nat} {feed : Lane F}
    {reader : Reader (TxResult F.Output) F.Aggregate} (hfeed : s.lanes[source]? = some feed)
    (h : s.ReaderMove i source l feed reader s') (lane : Nat) :
    s.announcedIn lane <+: s'.announcedIn lane := by
  cases h with
  | done outcome =>
      exact (prefix_of_modify rfl (by simp) lane).trans
        (prefix_of_modify rfl (by simp [Stream.release]) lane)
  | byCompletion k r stream hnext =>
      -- reading moves on in the stream, which keeps what was sent
      obtain ⟨-, rfl⟩ := Stream.eq_of_next? hnext
      refine (prefix_of_modify rfl (fun l' hl' => ?_) lane).trans
        (prefix_of_modify rfl (by simp) lane)
      rw [hfeed] at hl'
      cases hl'
      exact List.prefix_rfl
  | _ => exact prefix_of_modify rfl (by simp) lane

theorem prefix_of_stepAggregation? (h : s.stepAggregation? i = some s') (lane : Nat) :
    s.announcedIn lane <+: s'.announcedIn lane := by
  cases aggregationMove_of_stepAggregation? h with
  | read l feed source reader hl hreading hfeed hmove => exact hmove.prefix_announcedIn hfeed lane
  | _ => exact prefix_of_modify rfl (by simp) lane

/-- Nothing is taken back of what was announced. -/
theorem Turns.prefix_announcedIn (h : s.Turns s') (lane : Nat) :
    s.announcedIn lane <+: s'.announcedIn lane := by
  cases h with
  | edit h => exact h.prefix_announcedIn lane
  | openBlock n => exact prefix_of_openBlock s n lane
  | prepare | aggregate => exact prefix_of_modify rfl (by simp) lane
  | preparation _ h => exact prefix_of_stepPreparation? h lane
  | replay _ h => exact prefix_of_stepReplay? h lane
  | aggregation _ h => exact prefix_of_stepAggregation? h lane

end Station

/-! ## The reference -/

namespace Pipeline

/-- The mark of one handler among those of all, which are numbered from `n`. -/
theorem map_tx_filter_marked (wanted : Bool) (tx : IndexedTx) (marks : List Bool) (n h : Nat) :
    (((marks.zipIdx n).filterMap fun (marked, k) =>
        if marked == wanted then some (Job.mk k tx) else none).filter
      (·.handler = n + h)).map (·.tx) = if marks[h]? = some wanted then [tx] else [] := by
  induction marks generalizing n h with
  | nil => rfl
  | cons marked marks ih =>
      rw [List.zipIdx_cons, List.filterMap_cons]
      cases h with
      | succ h =>
          have hrest := ih (n + 1) h
          rw [Nat.add_right_comm, Nat.add_assoc] at hrest
          by_cases hmarked : marked = wanted <;> simpa [hmarked] using hrest
      | zero =>
          have hrest : ((marks.zipIdx (n + 1)).filterMap fun (marked, k) =>
              if marked == wanted then some (Job.mk k tx) else none).filter
                (·.handler = n + 0) = [] := by
            rw [List.filter_eq_nil_iff]
            intro job hjob
            obtain ⟨⟨m, k⟩, hmem, hk⟩ := List.mem_filterMap.mp hjob
            have hle := (List.mem_zipIdx hmem).1
            obtain ⟨-, heq⟩ := Option.ite_none_right_eq_some.mp hk
            cases heq
            simp only [Nat.add_zero, decide_eq_true_eq]
            omega
          by_cases hmarked : marked = wanted <;> simp [hmarked] at hrest ⊢ <;> exact hrest

/-- The transactions that one handler is to work on, or those it is not to. -/
theorem map_tx_filter_jobsOf (wanted : Bool) (decisions : List (IndexedTx × List Bool)) (h : Nat) :
    ((jobsOf wanted decisions).filter (·.handler = h)).map (·.tx) =
      (decisions.filter fun decision => decision.2[h]? = some wanted).map Prod.fst := by
  induction decisions with
  | nil => rfl
  | cons decision decisions ih =>
      obtain ⟨tx, marks⟩ := decision
      have hhead := map_tx_filter_marked wanted tx marks 0 h
      rw [Nat.zero_add] at hhead
      rw [jobsOf, List.flatMap_cons, List.filter_append, List.map_append, hhead]
      rw [← jobsOf, ih, List.filter_cons]
      split <;> simp_all

end Pipeline

namespace Work

/-- The transactions for which handler `h` has this mark. -/
def markedBy (handlers : List (Handler F)) (work : Work F) (h : Nat) (mark : Bool) :
    List IndexedTx :=
  work.block.indexed.filter fun tx => (work.marks handlers tx)[h]? = some mark

/-- The results of handler `h`: first of the transactions it declines, then of those it works on,
both in the order of transactions. -/
def completionsOf (handlers : List (Handler F)) (work : Work F) (h : Nat) :
    List (TxResult F.Output) :=
  (work.markedBy handlers h false ++ work.markedBy handlers h true).map (work.resultOf handlers h)

theorem map_tx_filter_decisions (handlers : List (Handler F)) (work : Work F) (wanted : Bool)
    (h : Nat) : ((Pipeline.jobsOf wanted (work.decisions handlers)).filter (·.handler = h)).map
      (·.tx) = work.markedBy handlers h wanted := by
  rw [Pipeline.map_tx_filter_jobsOf, decisions, List.filter_map, List.map_map, markedBy]
  exact List.map_id _

end Work

/-! ## Announced and outstanding -/

namespace Pipeline

variable {s s' : Station F}

/-- A station that is not open yet waits for the call that opens one after the other. -/
theorem During.opening_of_unopened (hp : p.During calm handlers past work phase) {n : Nat}
    (hberth : phase.berth n h = .unopened) :
    ∃ c k, phase = .starting c (.opening (work.plan handlers past.length) k) := by
  cases phase with
  | starting c next =>
      have hvalid := hp.valid
      cases next with
      | acquire | enter | scan => exact hvalid.elim
      | opening plan k =>
          obtain rfl := hvalid
          exact ⟨c, k, rfl⟩
      | _ => cases hberth
  | _ => exact absurd hberth (Phase.berth_ne_unopened (by simp) n h)

/-- Whatever the phase, a result of a handler is announced or outstanding, and not both. -/
theorem During.announced_add_outstanding (hp : p.During calm handlers past work phase)
    (hs : p.stations[h]? = some s) :
    (((s.announcedIn past.length).map fun r => Job.mk h r.tx : List Job) : Multiset Job) +
      (phase.outstanding p .announced).filter (·.handler = h) =
        (work.block.indexed.map (Job.mk h) : List Job) := by
  have hfits := hp.stations h s hs
  cases hberth : phase.berth work.block.length h with
  | unopened =>
      rw [hberth] at hfits
      obtain ⟨c, k, rfl⟩ := hp.opening_of_unopened hberth
      rw [Station.announcedIn_eq_nil hfits.2.length_eq.ge, Phase.outstanding,
        hp.load_eq_zero (by simp), add_zero]
      exact (zero_add _).trans
        (Work.filter_declined_add_jobs hp.accepted hp.length_le (hp.crew.lt_of_station hs))
  | serving progress =>
      rw [hberth] at hfits
      obtain ⟨old, l, hlanes, hold, hserves⟩ := hfits
      rw [Station.announcedIn_eq (l := l) (by simp [hlanes, hold.length_eq])]
      exact hserves.announced.split
  | closed =>
      rw [hberth] at hfits
      obtain ⟨-, hlanes⟩ := hfits
      have hlane : past.length < s.lanes.length := by
        rw [← hlanes.length_eq, List.length_append]
        exact Nat.lt_succ_self _
      have hdone : Lane.Done handlers h work s.lanes[past.length] := by
        simpa using hlanes.get (by simp) hlane
      have hnone : (phase.outstanding p .announced).filter (·.handler = h) = 0 := by
        rw [Multiset.filter_eq_nil]
        rintro job hjob rfl
        exact hp.traffic.not_closed job (hp.traffic.mem_settled hjob) hberth
      rw [hnone, add_zero, Station.announcedIn_eq (List.getElem?_eq_getElem hlane)]
      have hmap : (work.resultsOf handlers h).map (fun r => Job.mk h r.tx) =
          work.block.indexed.map (Job.mk h) := List.map_map
      rw [← hmap]
      exact Multiset.coe_eq_coe.mpr (hdone.completions.map _)

/-! ## In order -/

/-- The results of each handler are announced in the order of the lineup. -/
def InOrder (handlers : List (Handler F)) (work : Work F) (lane : Nat) (phase : Phase F)
    (p : Pipeline F) : Prop :=
  ∀ (h : Nat) (s : Station F), p.stations[h]? = some s →
    ((s.announcedIn lane).map fun r => Job.mk h r.tx) ++
      (phase.lineup p).filter (·.handler = h) =
        (work.declined handlers ++ work.jobs handlers).filter (·.handler = h)

theorem eq_of_perm_of_length_le {α : Type} {l l' : List α} (hperm : l.Perm l')
    (hlength : l'.length ≤ 1) : l = l' := by
  cases l' with
  | nil => exact List.perm_nil.mp hperm
  | cons a rest =>
      obtain rfl : rest = [] := List.eq_nil_of_length_eq_zero (by simpa using hlength)
      exact List.perm_singleton.mp hperm

/-- A station after a move is what the move has made of the station before. -/
theorem exists_turned_station (hstep : p.step? actor = some q) (hs' : q.stations[h]? = some s') :
    ∃ s, p.stations[h]? = some s ∧ s.Turns s' := by
  have hevolves := evolves_of_step? hstep
  obtain ⟨hlt', rfl⟩ := List.getElem?_eq_some_iff.mp hs'
  have hlt : h < p.stations.length := hevolves.length_eq ▸ hlt'
  exact ⟨p.stations[h], List.getElem?_eq_getElem hlt, hevolves.get hlt hlt'⟩

/-- What leaves the lineup is announced next. -/
theorem During.map_announcedIn (hp : p.During calm handlers past work phase)
    (hq : q.During calm handlers past work phase') (hs : p.stations[h]? = some s)
    (hs' : q.stations[h]? = some s') (hturns : s.Turns s') {gone : List Job}
    (hgone : gone.length ≤ 1) (hlineup : phase.lineup p = gone ++ phase'.lineup q) :
    (s'.announcedIn past.length).map (fun r => Job.mk h r.tx) =
      (s.announcedIn past.length).map (fun r => Job.mk h r.tx) ++ gone.filter (·.handler = h) := by
  obtain ⟨new, hnew⟩ := hturns.prefix_announcedIn past.length
  have hold := hp.announced_add_outstanding hs
  have hnow := hq.announced_add_outstanding hs'
  rw [← hnew, ← Phase.coe_lineup, Multiset.filter_coe, List.map_append, Multiset.coe_add] at hnow
  rw [← Phase.coe_lineup, Multiset.filter_coe, hlineup, List.filter_append, Multiset.coe_add,
    ← hnow, Multiset.coe_eq_coe, List.append_assoc, List.perm_append_left_iff,
    List.perm_append_right_iff] at hold
  -- at most one has left, so that it cannot be announced out of order
  have hsame := eq_of_perm_of_length_le hold.symm ((List.length_filter_le _ _).trans hgone)
  rw [← hnew, List.map_append, hsame]

theorem InOrder.advance (horder : p.InOrder handlers work past.length phase)
    (hp : p.During calm handlers past work phase) (hq : q.During calm handlers past work phase')
    (hstep : p.step? actor = some q)
    (hlineup : ∃ gone : List Job, gone.length ≤ 1 ∧ phase.lineup p = gone ++ phase'.lineup q) :
    q.InOrder handlers work past.length phase' := by
  intro h s' hs'
  obtain ⟨gone, hgone, hlineup⟩ := hlineup
  obtain ⟨s, hs, hturns⟩ := exists_turned_station hstep hs'
  rw [hp.map_announcedIn hq hs hs' hturns hgone hlineup, List.append_assoc, ← List.filter_append,
    ← hlineup]
  exact horder h s hs

/-- What a lane has announced is what the transactions it was announced for result in. -/
theorem During.map_resultOf_sent {l : Lane F} (hp : p.During calm handlers past work phase)
    (hs : p.stations[h]? = some s) (hl : s.lanes[past.length]? = some l) :
    l.completions.sent.map (fun r => work.resultOf handlers h r.tx) = l.completions.sent := by
  refine (List.map_congr_left fun r hr => ?_).trans (List.map_id _)
  obtain ⟨tx, -, rfl⟩ := List.mem_map.mp ((hp.covers hs hl).mem_of_announced hr)
  rfl

/-- The order of the lineup is that of the reference. -/
theorem InOrder.completions {l : Lane F} (horder : p.InOrder handlers work past.length phase)
    (hp : p.During calm handlers past work phase) (hs : p.stations[h]? = some s)
    (hl : s.lanes[past.length]? = some l) :
    l.completions.sent <+: work.completionsOf handlers h ∧
      (s.remaining = 0 → l.completions.sent = work.completionsOf handlers h) := by
  have hcovers := hp.covers hs hl
  have hresults : (l.completions.sent.map (·.tx)).map (work.resultOf handlers h) =
      l.completions.sent := by
    rw [List.map_map]
    exact hp.map_resultOf_sent hs hl
  -- of each job the transaction is enough
  have htxs := congrArg (List.map (·.tx)) (horder h s hs)
  rw [Station.announcedIn_eq hl, List.map_append, List.map_map, List.filter_append,
    List.map_append] at htxs
  have hall : (l.completions.sent.map (·.tx)) ++
      ((phase.lineup p).filter (·.handler = h)).map (·.tx) =
        work.markedBy handlers h false ++ work.markedBy handlers h true := by
    rw [← Work.map_tx_filter_decisions, ← Work.map_tx_filter_decisions]
    exact htxs
  rw [Work.completionsOf, ← hresults, ← hall]
  refine ⟨(List.prefix_append _ _).map _, fun hzero => ?_⟩
  have hcard := congrArg Multiset.card (hp.announced_add_outstanding hs)
  rw [Station.announcedIn_eq hl, ← Phase.coe_lineup, Multiset.filter_coe, Multiset.coe_add,
    Multiset.coe_card, Multiset.coe_card, List.length_append, List.length_map, List.length_map,
    (hcovers.perm_of_remaining hzero).length_eq, Work.resultsOf, List.length_map] at hcard
  have hnil : (phase.lineup p).filter (·.handler = h) = [] :=
    List.eq_nil_of_length_eq_zero (by omega)
  rw [hnil, List.map_nil, List.append_nil]

theorem InOrder.of_opening {c : Nat} {plan : Plan}
    (hp : p.During calm handlers past work (.starting c (.opening plan 0))) :
    p.InOrder handlers work past.length (.starting c (.opening plan 0)) := by
  obtain rfl : plan = work.plan handlers past.length := hp.valid
  intro h s hs
  have hfits := hp.stations h s hs
  simp only [Phase.berth, Starting.berth, Nat.not_lt_zero, if_false] at hfits
  rw [Station.announcedIn_eq_nil hfits.2.length_eq.ge, Phase.lineup,
    line_eq_nil (hp.load_eq_zero (by simp) _), List.append_nil]
  rfl

/-- With one worker in the process pool, the order of announcements is kept from the moment when a
block comes into work. Nothing has to be read off the run for it. -/
theorem carries_order (calm : Prop) (handlers : List (Handler F)) (work : Work F) (c w : Nat) :
    Carries calm handlers work c (fun _ _ => ([] : List Unit)) fun past phase p _ => p.Lone w →
      p.SingleFile w past.length ∧ p.InOrder handlers work past.length phase where
  rest := fun _ _ _ => rfl
  begin := fun hp _ => ⟨.of_unloaded (hp.load_eq_zero (by simp)), .of_opening hp⟩
  invoke := fun _ hr hlone => by
    obtain ⟨⟨hhands, hfeeders, hroom⟩, horder⟩ := hr hlone
    exact ⟨⟨hhands, hfeeders, hroom⟩, horder⟩
  advance := fun hp hq _ hstep hadvance hr hlone => by
    have hlone := (lone_iff_of_step? hstep).mp hlone
    obtain ⟨hfile, horder⟩ := hr hlone
    obtain ⟨hfile', hlineup⟩ := hadvance.lineup hp hq hstep hfile hlone
    exact ⟨hfile', horder.advance hp hq hstep hlineup⟩

/-! ## In a run -/

variable {config : Config} {registry : Registry F} {moves : List (Move F)} {l : Lane F}

theorem lone_of_run? (hcreate : create config registry = .ok p) (hone : config.processWorkers = 1)
    (hrun : p.run? moves = some q) : q.Lone config.prefetchWorkers := by
  refine run?_induction (P := fun q => q.Lone config.prefetchWorkers) hrun ?_
    (fun _ _ hp => hp) (fun _ _ _ hp hstep => (lone_iff_of_step? hstep).mpr hp) ?_
  swap
  · intro p c reason q hp hdeny
    obtain ⟨_, _, _, _, rfl⟩ := eq_of_deny? hdeny
    exact hp
  obtain ⟨-, rfl⟩ := eq_ofConfig hcreate
  intro i hi
  simp only [ofConfig, crew, hone, List.map_append, List.map_replicate, List.getElem?_append,
    List.length_replicate, List.getElem?_replicate] at hi
  split at hi
  · cases hi
  · split at hi <;> cases hi
    omega

/-- With one worker in the process pool, the results of a handler are announced in one order,
whatever the schedule: those of declined transactions and then all others, both in the order of
transactions. -/
theorem completions_of_lone (hcreate : create config registry = .ok p)
    (hone : config.processWorkers = 1) (hrun : p.cleanRun? moves = some q)
    (htask : (tasks moves)[c]? = some work.task) (hwork : q.InWork c)
    (hs : q.stations[h]? = some s) (hl : s.lanes[q.lastLane]? = some l) :
    l.completions.sent <+: work.completionsOf registry.handlers h ∧
      (s.remaining = 0 → l.completions.sent = work.completionsOf registry.handlers h) := by
  obtain ⟨past, phase, hq, -, hr⟩ := (Course.since_cleanRun? hcreate
    (carries_order True registry.handlers work c config.prefetchWorkers) hrun
    htask).exists_reading hwork
  obtain ⟨-, horder⟩ := hr (lone_of_run? hcreate hone (run?_of_cleanRun? hrun))
  rw [hq.lastLane_eq] at hl
  exact horder.completions hq hs hl

end Pipeline

end TxPipeline
