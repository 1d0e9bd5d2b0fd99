import TxPipeline.Proofs.Order.Announcements

/-!
# What can be seen was announced

A result is announced on the completion stream before its cell is written, and the ordered stream is
copied from the cells. So whatever is read from a cell or from the ordered stream has been
announced. When everything was read from the ordered stream, all results of the block were
announced, and nobody waits for a completion any more.
-/

namespace TxPipeline

variable {F : Flow} {calm : Prop} {handlers : List (Handler F)} {past : List (Work F)}
  {work : Work F} {phase : Phase F} {p q : Pipeline F} {s : Station F} {l : Lane F}
  {c h i lane : Nat} {r : TxResult F.Output}

/-- Everything that can be read at the station was announced in lane `l`. -/
structure Station.Backed (s : Station F) (l : Lane F) : Prop where
  cells : (s.results.filterMap (·.value)).Subperm l.completions.sent
  count : s.results.countP (·.value.isSome) ≤ l.completions.sent.length
  ordered : l.ordered.sent.Subperm l.completions.sent

namespace Pipeline

/-- The aggregation of the last lane at station `h` comes to `reader` with its next `count` moves,
without anybody else. -/
def ReadsOn (p : Pipeline F) (h count : Nat)
    (reader : Reader (TxResult F.Output) F.Aggregate) : Prop :=
  ∃ q s, p.cleanRun? (List.replicate count (.act (.aggregation h p.lastLane))) = some q ∧
    q.stations[h]? = some s ∧ s.aggregation? p.lastLane = some (.reading p.lastLane reader)

/-! ## Cells and the ordered stream -/

/-- A cell is written after the result was announced. -/
theorem During.exists_announced (hp : p.During calm handlers past work phase)
    (hs : p.stations[h]? = some s) (hvalue : valueAt s.results i = some r) :
    r.index = i ∧ ∃ l, s.lanes[past.length]? = some l ∧ r ∈ l.completions.sent := by
  have hempty (hclear : s.Clear) : valueAt s.results i = none := by
    rw [valueAt, Option.bind_eq_none_iff]
    exact fun cell hcell => hclear.results cell (List.mem_of_getElem? hcell)
  have hfits := hp.stations h s hs
  cases hberth : phase.berth work.block.length h with
  | unopened =>
      rw [hberth] at hfits
      simp [hempty hfits.1] at hvalue
  | closed =>
      rw [hberth] at hfits
      simp [hempty hfits.1] at hvalue
  | serving progress =>
      rw [hberth] at hfits
      obtain ⟨old, l, hlanes, hold, hserves⟩ := hfits
      rw [hserves.settled.values] at hvalue
      obtain ⟨tx, htx, hif⟩ := Option.bind_eq_some_iff.mp hvalue
      obtain ⟨⟨-, hsettled⟩, hresult⟩ := Option.ite_none_right_eq_some.mp hif
      cases hresult
      refine ⟨Block.index_of_getElem? hp.length_le htx, l, by simp [hlanes, hold.length_eq], ?_⟩
      exact hserves.announced.mem_sent (List.mem_of_getElem? htx)
        fun hannounced => hsettled (hp.traffic.mem_settled hannounced)

/-- What was replayed had been found in a cell. -/
theorem During.replayed_subset (hp : p.During calm handlers past work phase)
    (hs : p.stations[h]? = some s) (hl : s.lanes[past.length]? = some l) :
    l.ordered.sent ⊆ l.completions.sent := by
  rcases hp.serves_or_done hs hl with ⟨progress, hserves⟩ | ⟨-, hdone⟩
  · rcases hserves.aggregates.untouched_or_reads with huntouched | ⟨reader, hreads⟩
    · rw [huntouched.ordered]
      exact List.nil_subset _
    · exact fun r hr => hreads.replayed r hr
  · obtain ⟨a, hreads⟩ := hdone.reads
    exact fun r hr => hreads.replayed r hr

theorem During.backed (hp : p.During calm handlers past work phase) (hs : p.stations[h]? = some s)
    (hl : s.lanes[past.length]? = some l) : s.Backed l := by
  have hannounced {i : Nat} {r : TxResult F.Output} (hvalue : valueAt s.results i = some r) :
      r.index = i ∧ r ∈ l.completions.sent := by
    obtain ⟨hindex, l', hl', hmem⟩ := hp.exists_announced hs hvalue
    rw [hl] at hl'
    cases hl'
    exact ⟨hindex, hmem⟩
  have hat {i : Nat} (hi : i < s.results.length) : valueAt s.results i = s.results[i].value := by
    rw [valueAt, List.getElem?_eq_getElem hi, Option.bind_some]
  -- no result is in two cells, for each has a position of its own
  have hnodup : (s.results.filterMap (·.value)).Nodup := by
    rw [List.Nodup, List.pairwise_filterMap, List.pairwise_iff_getElem]
    intro i j hi hj hij r hr r' hr' heq
    have hindex := (hannounced ((hat hi).trans hr)).1
    have hindex' := (hannounced ((hat hj).trans hr')).1
    rw [← heq] at hindex'
    omega
  have hcells : (s.results.filterMap (·.value)).Subperm l.completions.sent := by
    refine List.subperm_of_subset hnodup fun r hr => ?_
    obtain ⟨cell, hcell, hvalue⟩ := List.mem_filterMap.mp hr
    obtain ⟨i, hi, rfl⟩ := List.mem_iff_getElem.mp hcell
    exact (hannounced ((hat hi).trans hvalue)).2
  refine ⟨hcells, ?_, ?_⟩
  · rw [← List.length_filterMap_eq_countP]
    exact hcells.length_le
  · exact List.subperm_of_subset
      ((Work.nodup_resultsOf hp.length_le).sublist (hp.covers hs hl).replayed.sublist)
      (hp.replayed_subset hs hl)

/-! ## A reader of all that was replayed -/

/-- When all results were read from the ordered stream, the completion stream carries all of them
and is closed. -/
theorem During.completed_of_read (hp : p.During calm handlers past work phase)
    (hs : p.stations[h]? = some s) (hl : s.lanes[past.length]? = some l) {source : Nat}
    {reader : Reader (TxResult F.Output) F.Aggregate}
    (hreading : l.aggregation = .reading source reader)
    (hall : l.ordered.read = work.block.length) :
    source = past.length ∧ l.ordered.queued = [] ∧
      l.completions.sent.Perm (work.resultsOf handlers h) ∧ s.sender = none ∧
      l.completions.read + l.completions.queued.length = work.block.length := by
  have hcovers := hp.covers hs hl
  have hresults := Work.length_resultsOf handlers work h
  have hsubperm := (hp.backed hs hl).ordered.length_le
  have hreplayed := hcovers.replayed.length_le
  obtain ⟨hsource, hread_le, hread⟩ : source = past.length ∧
      l.ordered.read ≤ l.ordered.sent.length ∧
      l.completions.read ≤ l.completions.sent.length := by
    rcases hp.serves_or_done hs hl with ⟨progress, hserves⟩ | ⟨-, hdone⟩
    · have haggregates := hserves.aggregates
      rw [hreading] at haggregates
      cases haggregates with
      | reading _ _ _ _ _ _ hreads =>
          obtain ⟨_, _, _, _, -, -, -, -, hj, -⟩ := hreads.follows
          exact ⟨rfl, hreads.read_le, hj ▸ Nat.min_le_right _ _⟩
    · rw [hdone.aggregation] at hreading
      cases hreading
  have hsent : l.completions.sent.length = work.block.length := by
    have := hcovers.sent_le
    omega
  have hzero : s.remaining = 0 := by rw [hcovers.remaining_eq, hresults, hsent, Nat.sub_self]
  refine ⟨hsource, ?_, hcovers.perm_of_remaining hzero, ?_, ?_⟩
  · exact List.drop_eq_nil_iff.mpr (by omega)
  · rw [hcovers.sender_eq, hzero]
    rfl
  · rw [Stream.queued, List.length_drop]
    omega

/-! ## Reading on -/

section ReadsOn

variable {reader next : Reader (TxResult F.Output) F.Aggregate} {m : Nat}

theorem getElem?_setStation_self (hs : p.stations[h]? = some s) (t : Station F) :
    (p.setStation h t).stations[h]? = some t := by
  rw [getElem?_setStation hs, if_pos rfl]

theorem readsOn_zero (hs : p.stations[h]? = some s) (hl : s.lanes[p.lastLane]? = some l)
    (hreading : l.aggregation = .reading p.lastLane reader) : p.ReadsOn h 0 reader :=
  ⟨p, s, rfl, hs, by rw [Station.aggregation?, hl, Option.map_some, hreading]⟩

theorem ReadsOn.succ {t : Station F} (hs : p.stations[h]? = some s)
    (hl : s.lanes[p.lastLane]? = some l)
    (hreading : l.aggregation = .reading p.lastLane reader)
    (hstep : s.stepReader? p.lastLane p.lastLane l l reader = some t)
    (hrest : (p.setStation h t).ReadsOn h m next) : p.ReadsOn h (m + 1) next := by
  obtain ⟨q, s', hrun, hs', hat⟩ := hrest
  refine ⟨q, s', ?_, hs', hat⟩
  have hmove : p.move? (.act (.aggregation h p.lastLane)) = some (p.setStation h t) := by
    change p.stepStation? h _ = _
    simp only [stepStation?, hs, Option.bind_eq_bind, Option.bind_some, Station.stepAggregation?,
      hl, hreading, hstep]
  have hclean : p.isClean (.act (.aggregation h p.lastLane)) = true := by
    simp [isClean, raises, hs, Station.aggregateRaises, Station.aggregation?, hl, hreading]
  rw [List.replicate_succ, cleanRun?, if_pos hclean, hmove]
  exact hrun

theorem getElem?_updateLane (f : Lane F → Lane F) (hl : s.lanes[lane]? = some l) :
    (s.updateLane lane f).lanes[lane]? = some (f l) := by
  rw [Station.updateLane, List.getElem?_modify_eq, hl]
  rfl

/-- A request to a completion stream that is closed is answered at once. -/
theorem exists_stepReader? (k : Option (TxResult F.Output) → Reader (TxResult F.Output) F.Aggregate)
    (hl : s.lanes[lane]? = some l) (hclosed : s.sender ≠ some lane) :
    ∃ t l', s.stepReader? lane lane l l (.nextByCompletion k) = some t ∧ t.sender = s.sender ∧
      t.lanes[lane]? = some l' ∧
      l'.aggregation = .reading lane (k l.completions.queued.head?) ∧
      l'.completions.queued = l.completions.queued.tail := by
  rw [Stream.queued, List.head?_drop, List.tail_drop]
  cases hnext : l.completions.sent[l.completions.read]? with
  | some r =>
      simp only [Station.stepReader?, Stream.next?, hnext]
      exact ⟨_, _, rfl, rfl, getElem?_updateLane _ (getElem?_updateLane _ hl), rfl, rfl⟩
  | none =>
      have hle := List.getElem?_eq_none_iff.mp hnext
      simp only [Station.stepReader?, Stream.next?, hnext, if_neg hclosed]
      refine ⟨_, _, rfl, rfl, getElem?_updateLane _ hl, rfl, ?_⟩
      rw [Stream.queued, List.drop_eq_nil_of_le hle, List.drop_eq_nil_of_le (by omega)]

theorem readsOn_next {k : Option (TxResult F.Output) → Reader (TxResult F.Output) F.Aggregate}
    (hs : p.stations[h]? = some s) (hl : s.lanes[p.lastLane]? = some l)
    (hclosed : s.sender ≠ some p.lastLane)
    (hreading : l.aggregation = .reading p.lastLane (.nextByCompletion k)) :
    p.ReadsOn h 1 (k l.completions.queued.head?) := by
  obtain ⟨t, l', hstep, -, hl', hreading', -⟩ := exists_stepReader? k hl hclosed
  exact .succ hs hl hreading hstep (readsOn_zero (getElem?_setStation_self hs t) hl' hreading')

/-- A drain of the completion stream gets what is queued, in as many moves as it makes requests. -/
theorem readsOn_drain {k : Option (List (TxResult F.Output)) →
      Reader (TxResult F.Output) F.Aggregate} (queued got : List (TxResult F.Output))
    (hs : p.stations[h]? = some s) (hl : s.lanes[p.lastLane]? = some l)
    (hclosed : s.sender ≠ some p.lastLane) (hqueued : l.completions.queued = queued)
    (hreading : l.aggregation =
      .reading p.lastLane (Reader.drainByCompletion k (queued.length + 1) got)) :
    p.ReadsOn h (queued.length + 1) (k (some (got ++ queued))) := by
  induction queued generalizing p s l got with
  | nil =>
      have hnext := readsOn_next hs hl hclosed hreading
      rw [hqueued] at hnext
      rwa [List.append_nil]
  | cons r rest ih =>
      obtain ⟨t, l', hstep, hsender, hl', hreading', hqueued'⟩ := exists_stepReader?
        (fun
          | some r => Reader.drainByCompletion k (rest.length + 1) (got ++ [r])
          | none => k (some got)) hl hclosed
      rw [hqueued] at hreading' hqueued'
      have hrest := ih (got ++ [r]) (getElem?_setStation_self hs t) hl' (hsender ▸ hclosed) hqueued'
        hreading'
      rw [List.append_assoc] at hrest
      exact .succ hs hl hreading hstep hrest

theorem readsOn_backlog {k : Nat → Nat → Reader (TxResult F.Output) F.Aggregate}
    (hs : p.stations[h]? = some s) (hl : s.lanes[p.lastLane]? = some l)
    (hreading : l.aggregation = .reading p.lastLane (.backlog k)) :
    p.ReadsOn h 1 (k l.ordered.queued.length l.completions.queued.length) :=
  .succ hs hl hreading rfl
    (readsOn_zero (getElem?_setStation_self hs _) (getElem?_updateLane _ hl) rfl)

end ReadsOn

/-! ## In a run -/

variable {config : Config} {registry : Registry F} {moves : List (Move F)}

/-- Nothing is taken back of what was announced. -/
theorem prefix_announcedIn_of_run? (hrun : p.run? moves = some q) {s' : Station F}
    (hs : p.stations[h]? = some s) (hs' : q.stations[h]? = some s') (lane : Nat) :
    s.announcedIn lane <+: s'.announcedIn lane := by
  obtain ⟨before, hbefore, hprefix⟩ : ∃ before, p.stations[h]? = some before ∧
      before.announcedIn lane <+: s'.announcedIn lane := by
    clear hs
    induction moves generalizing p with
    | nil =>
        cases hrun
        exact ⟨s', hs', List.prefix_rfl⟩
    | cons move rest ih =>
        obtain ⟨next, hmove, hrest⟩ := Option.bind_eq_some_iff.mp hrun
        obtain ⟨middle, hmiddle, hprefix⟩ := ih hrest
        cases move with
        | call task =>
            cases hmove
            exact ⟨middle, hmiddle, hprefix⟩
        | act actor =>
            obtain ⟨before, hbefore, hturns⟩ := exists_turned_station hmove hmiddle
            exact ⟨before, hbefore, (hturns.prefix_announcedIn lane).trans hprefix⟩
        | deny c reason =>
            obtain ⟨_, _, _, _, rfl⟩ := eq_of_deny? (show p.deny? c reason = some next from hmove)
            exact ⟨middle, hmiddle, hprefix⟩
  obtain rfl : before = s := Option.some.inj (hbefore.symm.trans hs)
  exact hprefix

/-- Whatever can be read of a result at station `h`, which is `s`, was announced for the block that
came into work last, and stays announced. -/
structure Announces (q : Pipeline F) (h : Nat) (s : Station F) : Prop where
  cells : ∀ (i : Nat) r, (s.results[i]?).bind (·.value) = some r →
    r.index = i ∧ r ∈ s.announcedIn q.lastLane
  result : ∀ i r, q.result? h i = .ok (some r) → r.index = i ∧ r ∈ s.announcedIn q.lastLane
  kept : ∀ more q' s', q.cleanRun? more = some q' → q'.stations[h]? = some s' →
    s.announcedIn q.lastLane <+: s'.announcedIn q.lastLane

/-- Nothing is left on the ordered stream of lane `l`, which serves station `h`, and all that
`reader` has not read of the other stream is queued there. It reads that without waiting for
anybody. -/
structure ReadsRest (q : Pipeline F) (h : Nat) (l : Lane F) (results : List (TxResult F.Output))
    (reader : Reader (TxResult F.Output) F.Aggregate) : Prop where
  ordered : l.ordered.queued = []
  completed : l.completions.sent.Perm results
  count : l.completions.read + l.completions.queued.length = results.length
  backlog : ∀ k, reader = .backlog k → q.ReadsOn h 1 (k 0 l.completions.queued.length)
  next : ∀ k, reader = .nextByCompletion k → q.ReadsOn h 1 (k l.completions.queued.head?)
  drain : ∀ k got, reader = .drainByCompletion k (l.completions.queued.length + 1) got →
    q.ReadsOn h (l.completions.queued.length + 1) (k (some (got ++ l.completions.queued)))

/-- Whatever can be read of a block was announced before, and stays announced. When `postProcess`
has read all results from the ordered stream, all that it has not read of the completion stream is
queued there, and it reads that without waiting for anybody. Before that it reads one result after
the other, and afterwards it finds that all were announced. -/
theorem visible_results_announced (hcreate : create config registry = .ok p)
    (hrun : p.cleanRun? moves = some q) (htask : (tasks moves)[c]? = some work.task)
    (hwork : q.InWork c) (hs : q.stations[h]? = some s) :
    q.Announces h s ∧ ∀ l, s.lanes[q.lastLane]? = some l → s.Backed l ∧
      (∀ source reader, l.aggregation = .reading source reader →
        l.ordered.read = work.block.length →
        q.ReadsRest h l (work.resultsOf registry.handlers h) reader) ∧
      ∀ common k reader, s.handler.beforeBlock work.store work.rules work.block = .ok common →
        s.handler.postProcess common work.block.length =
          .drainByIndex k (work.block.length + 1) [] → s.Reaches l reader →
        (∃ i ≤ work.block.length, reader = .drainByIndex k (work.block.length - i + 1)
          ((work.resultsOf registry.handlers h).take i)) ∨
        ∃ completed j, l.completions.sent <+: completed ∧
          completed.Perm (work.resultsOf registry.handlers h) ∧
          Reader.Finds completed (k (some (work.resultsOf registry.handlers h))) reader j := by
  obtain ⟨past, phase, hq, -⟩ := exists_phase work hcreate hrun htask hwork
  have hlane := hq.lastLane_eq
  have hresults := Work.length_resultsOf registry.handlers work h
  have hcells (i : Nat) (r : TxResult F.Output)
      (hvalue : (s.results[i]?).bind (·.value) = some r) :
      r.index = i ∧ r ∈ s.announcedIn q.lastLane := by
    obtain ⟨hindex, l, hl, hmem⟩ := hq.exists_announced hs hvalue
    exact ⟨hindex, by rwa [hlane, Station.announcedIn_eq hl]⟩
  refine ⟨⟨hcells, fun i r hresult => ?_, fun more q' s' hmore hs' => ?_⟩, fun l hl =>
    ⟨hq.backed hs (hlane ▸ hl), fun source reader hreading hall => ?_,
      fun common k reader hcommon hdrains hreaches => ?_⟩⟩
  · simp only [Pipeline.result?, hs, Station.result?] at hresult
    split at hresult
    · exact hcells i r (Except.ok.inj hresult)
    · cases hresult
  · exact prefix_announcedIn_of_run? (run?_of_cleanRun? hmore) hs hs' _
  · obtain ⟨rfl, hqueued, hperm, hclosed, hcount⟩ :=
      hq.completed_of_read hs (hlane ▸ hl) hreading hall
    rw [← hlane] at hreading
    have hclosed : s.sender ≠ some q.lastLane := by simp [hclosed]
    refine ⟨hqueued, hperm, hcount.trans hresults.symm, ?_, ?_, ?_⟩
    · rintro k rfl
      have hfinds := readsOn_backlog hs hl hreading
      rwa [hqueued] at hfinds
    · rintro k rfl
      exact readsOn_next hs hl hclosed hreading
    · rintro k got rfl
      exact readsOn_drain _ got hs hl hclosed rfl hreading
  · obtain ⟨common', completed, i, j, hcommon', hprefix, hperm, hfollows⟩ :=
      hq.follows hs (hlane ▸ hl) hreaches
    rw [hcommon] at hcommon'
    cases hcommon'
    rw [hdrains] at hfollows
    rcases hfollows.finds hresults (hperm.length_eq.trans hresults) with ⟨hi, -, hreader⟩ |
      ⟨-, hfinds⟩
    · exact .inl ⟨i, hi, hreader⟩
    · exact .inr ⟨completed, j, hprefix, hperm, hfinds⟩

end Pipeline

namespace Sample

open Pipeline

/-- The handler `adder`, but its aggregate tells what waited on the two streams when the ordered one
was over, and how many completions were read then. -/
def inspecting : Handler flow :=
  { adder with
    postProcess := fun _ n =>
      .drainByIndex
        (fun _ => .backlog fun byIndex byCompletion =>
          .drainByCompletion
            (fun got => .done (.ok (100 * byIndex + 10 * byCompletion + (got.getD []).length)))
            (n + 1) [])
        (n + 1) [] }

def inspectors : Registry flow := ⟨[inspecting]⟩

/-- The run `started`, and then everything is replayed and read from the ordered stream. -/
def replayed : List (Move flow) :=
  started ++ [.replay 0 0, .replay 0 0, .replay 0 0, .replay 0 0, .aggregation 0 0,
    .aggregation 0 0, .aggregation 0 0].map .act

/-- Whether the reader of a lane is about to ask how many results wait. -/
def isInspecting (l : Lane flow) : Bool :=
  match l.aggregation with
  | .reading _ (.backlog _) => true
  | _ => false

theorem exists_backlog {l : Lane flow} (hl : isInspecting l = true) :
    ∃ source k, l.aggregation = .reading source (.backlog k) := by
  unfold isInspecting at hl
  split at hl
  · exact ⟨_, _, ‹_›⟩
  · cases hl

end Sample

namespace Pipeline

open Sample in
/-- Both results of `pair` wait on the completion stream when the ordered stream was read. -/
theorem visible_results_announced_replayed : ∃ q s l source k,
    (ofConfig oneEach inspectors).cleanRun? replayed = some q ∧ q.InWork 0 ∧
    q.stations[0]? = some s ∧ s.lanes[q.lastLane]? = some l ∧
    l.aggregation = .reading source (.backlog k) ∧ l.ordered.read = 2 ∧ l.completions.read = 0 ∧
    q.ReadsOn 0 1 (k 0 2) := by
  obtain ⟨q, hrun, hwork, s, hs, l, hl, hinspecting, hread, hnone⟩ : ∃ q,
      (ofConfig oneEach inspectors).cleanRun? replayed = some q ∧ q.InWork 0 ∧
        ∃ s, q.stations[0]? = some s ∧ ∃ l, s.lanes[q.lastLane]? = some l ∧
          isInspecting l = true ∧ l.ordered.read = 2 ∧ l.completions.read = 0 := by
    decide +kernel
  obtain ⟨source, k, hreading⟩ := exists_backlog hinspecting
  have htask : (tasks replayed)[0]? = some (Work.task ⟨(3 : Nat), .latest, pair⟩) := rfl
  obtain ⟨-, hlanes⟩ := visible_results_announced
    (show create oneEach inspectors = .ok _ from rfl) hrun htask hwork hs
  have hrest := (hlanes l hl).2.1 _ _ hreading hread
  have hqueued : l.completions.queued.length = 2 := by
    have hcount := hrest.count
    rwa [hnone, Nat.zero_add, Work.length_resultsOf] at hcount
  refine ⟨q, s, l, source, k, hrun, hwork, hs, hl, hreading, hread, hnone, ?_⟩
  rw [← hqueued]
  exact hrest.backlog k rfl

end Pipeline

end TxPipeline
