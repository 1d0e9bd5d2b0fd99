import TxPipeline.Proofs.Service.Threads

/-!
# The aggregation of a lane

The reader of a lane is answered with the results of the block, in the order of transactions on one
stream and in the order of completion on the other, and told that a stream is over only when it has
read every result.
-/

namespace TxPipeline

variable {F : Flow} {calm : Prop} {handlers : List (Handler F)} {past : List (Work F)}
  {work : Work F} {h : Nat} {due : Checkpoint → Multiset Job} {progress : Progress}
  {lane : Nat} {s s' : Station F} {l : Lane F}

theorem Stream.eq_of_next? {α : Type} {stream next : Stream α} {a : α}
    (hn : stream.next? = some (a, next)) :
    stream.sent[stream.read]? = some a ∧ next = { stream with read := stream.read + 1 } := by
  unfold Stream.next? at hn
  split at hn
  · rename_i b hb
    cases hn
    exact ⟨hb, rfl⟩
  · cases hn

theorem Stream.length_le_of_next? {α : Type} {stream : Stream α} (hn : stream.next? = none) :
    stream.sent.length ≤ stream.read := by
  rw [Stream.next?_eq_none_iff] at hn
  simpa [Stream.queued] using hn

theorem Prepares.eq_commonOf {common : Option F.Common} {preparation : Preparation F}
    (hp : Prepares calm handlers work h progress common preparation) (hsome : common.isSome) :
    common = work.commonOf handlers h := by
  cases hp with
  | idle _ _ hcommon => simp [hcommon] at hsome
  | ready _ _ hcommon => simp [hcommon] at hsome
  | ended _ _ hcommon => exact hcommon
  | dead _ _ _ _ hcommon _ => simp [hcommon] at hsome

theorem Station.Fits.commonOf (hs : s.Fits calm handlers past work h due (.serving progress))
    {common : F.Common} (hvalue : s.common.value = some common) :
    work.commonOf handlers h = some common := by
  obtain ⟨old, l, hlanes, hold, hserves⟩ := hs
  rw [← hvalue]
  exact (hserves.prepares.eq_commonOf (by rw [hvalue]; rfl)).symm

theorem Replays.isPrefix {results : List (TxResult F.Output)}
    {replay : Replay (TxResult F.Output)} (hr : Replays results l replay) :
    l.ordered.sent <+: results := by
  cases hr with
  | reading i hi hsent =>
      rw [hsent]
      exact List.take_prefix _ _
  | sending i r hget hmem hsent =>
      rw [hsent]
      exact List.take_prefix _ _
  | ended hsent hall => exact hsent

/-- What a replay has sent does not depend on how much of it was read. -/
theorem Replays.of_sent {results : List (TxResult F.Output)} {l l' : Lane F}
    {replay : Replay (TxResult F.Output)} (hr : Replays results l replay)
    (hsent : l'.ordered.sent = l.ordered.sent)
    (hheld : l'.ordered.held = true → l.ordered.held = true)
    (hcompletions : l'.completions.sent = l.completions.sent) : Replays results l' replay := by
  cases hr with
  | reading i hi htake => exact .reading i hi (hsent.trans htake)
  | sending i r hget hmem htake =>
      refine .sending i r hget ?_ (hsent.trans htake)
      rwa [hcompletions]
  | ended hprefix hall =>
      refine .ended ?_ fun hh => hsent.trans (hall (hheld hh))
      rwa [hsent]

namespace Lane.Reads

variable {k : Option (TxResult F.Output) → Reader (TxResult F.Output) F.Aggregate}
  {r : TxResult F.Output} {stream : Stream (TxResult F.Output)}

theorem length_ordered_le {reader : Reader (TxResult F.Output) F.Aggregate}
    (hr : l.Reads handlers work h reader) : l.ordered.sent.length ≤ work.block.length := by
  rw [← Work.length_resultsOf handlers work h]
  exact hr.replays.isPrefix.length_le

theorem length_ordered_le_completions {reader : Reader (TxResult F.Output) F.Aggregate}
    (hlen : work.block.length ≤ 2 ^ 32) (hr : l.Reads handlers work h reader) :
    l.ordered.sent.length ≤ l.completions.sent.length :=
  ((Work.nodup_resultsOf hlen).sublist hr.replays.isPrefix.sublist).length_le_of_subset hr.replayed

theorem answerByIndex (hr : l.Reads handlers work h (.nextByIndex k))
    (hn : l.ordered.next? = some (r, stream)) :
    Lane.Reads handlers work h { l with ordered := stream } (k (some r)) := by
  obtain ⟨hget, rfl⟩ := Stream.eq_of_next? hn
  have hread : l.ordered.read < l.ordered.sent.length := (List.getElem?_eq_some_iff.mp hget).1
  have hle := hr.length_ordered_le
  refine ⟨hr.length_eq, hr.replays.of_sent rfl id rfl, hr.replayed, hread, ?_⟩
  obtain ⟨handler, common, i, j, hhandler, hcommon, hfollows, hi, hj, hcompleted⟩ := hr.follows
  have hi' : i = l.ordered.read := by omega
  have hresult : (work.resultsOf handlers h)[i]? = some r := by
    obtain ⟨rest, hrest⟩ := hr.replays.isPrefix
    rw [← hrest, hi', List.getElem?_append_left hread, hget]
  refine ⟨handler, common, i + 1, j, hhandler, hcommon, ?_, ?_, hj, hcompleted⟩
  · rw [← hresult]
    exact .byIndex hfollows
  · change l.ordered.read + 1 = _
    omega

theorem endByIndex (hr : l.Reads handlers work h (.nextByIndex k)) (hheld : l.ordered.held = true)
    (hn : l.ordered.next? = none) (hended : l.replay.isEnded = true) :
    l.Reads handlers work h (k none) := by
  refine ⟨hr.length_eq, hr.replays, hr.replayed, hr.read_le, ?_⟩
  have hle := Stream.length_le_of_next? hn
  have hall : l.ordered.sent.length = work.block.length := by
    have hrep := hr.replays
    cases hreplay : l.replay with
    | ended =>
        rw [hreplay] at hrep
        cases hrep with
        | ended _ hall => rw [hall hheld, Work.length_resultsOf]
    | idle => simp [hreplay, Replay.isEnded] at hended
    | reading i => simp [hreplay, Replay.isEnded] at hended
    | sending i r => simp [hreplay, Replay.isEnded] at hended
  obtain ⟨handler, common, i, j, hhandler, hcommon, hfollows, hi, hj, hcompleted⟩ := hr.follows
  have hresult : (work.resultsOf handlers h)[i]? = none := by
    rw [List.getElem?_eq_none_iff, Work.length_resultsOf]
    omega
  refine ⟨handler, common, i + 1, j, hhandler, hcommon, ?_, ?_, hj, hcompleted⟩
  · rw [← hresult]
    exact .byIndex hfollows
  · omega

theorem answerByCompletion (hr : l.Reads handlers work h (.nextByCompletion k))
    (hn : l.completions.next? = some (r, stream)) :
    Lane.Reads handlers work h { l with completions := stream } (k (some r)) := by
  obtain ⟨hget, rfl⟩ := Stream.eq_of_next? hn
  have hread : l.completions.read < l.completions.sent.length :=
    (List.getElem?_eq_some_iff.mp hget).1
  refine ⟨hr.length_eq, hr.replays.of_sent rfl id rfl, hr.replayed, hr.read_le, ?_⟩
  obtain ⟨handler, common, i, j, hhandler, hcommon, hfollows, hi, hj, hcompleted⟩ := hr.follows
  have hj' : j = l.completions.read := by omega
  refine ⟨handler, common, i, j + 1, hhandler, hcommon, ?_, hi, ?_, .inl ?_⟩
  · rw [← hget, ← hj']
    exact .byCompletion hfollows
  · change l.completions.read + 1 = min (j + 1) l.completions.sent.length
    omega
  · change j + 1 ≤ l.completions.sent.length
    omega

theorem endByCompletion (hr : l.Reads handlers work h (.nextByCompletion k))
    (hn : l.completions.next? = none)
    (hall : l.completions.sent.length = work.block.length) :
    l.Reads handlers work h (k none) := by
  refine ⟨hr.length_eq, hr.replays, hr.replayed, hr.read_le, ?_⟩
  have hle := Stream.length_le_of_next? hn
  obtain ⟨handler, common, i, j, hhandler, hcommon, hfollows, hi, hj, hcompleted⟩ := hr.follows
  have hnone : l.completions.sent[j]? = none := by
    rw [List.getElem?_eq_none_iff]
    omega
  refine ⟨handler, common, i, j + 1, hhandler, hcommon, ?_, hi, ?_, .inr hall⟩
  · rw [← hnone]
    exact .byCompletion hfollows
  · omega

theorem answerBacklog {kb : Nat → Nat → Reader (TxResult F.Output) F.Aggregate}
    (hlen : work.block.length ≤ 2 ^ 32) (hr : l.Reads handlers work h (.backlog kb))
    (hsent : l.completions.sent.length ≤ work.block.length) :
    l.Reads handlers work h
      (kb l.ordered.queued.length l.completions.queued.length) := by
  refine ⟨hr.length_eq, hr.replays, hr.replayed, hr.read_le, ?_⟩
  have hle := hr.length_ordered_le_completions hlen
  have hread := hr.read_le
  obtain ⟨handler, common, i, j, hhandler, hcommon, hfollows, hi, hj, hcompleted⟩ := hr.follows
  refine ⟨handler, common, i, j, hhandler, hcommon, .backlog hfollows ?_ ?_, hi, hj, hcompleted⟩
  · simp only [Stream.queued, List.length_drop, Work.length_resultsOf]
    omega
  · simp only [Stream.queued, List.length_drop, Work.length_resultsOf]
    omega

theorem release {reader : Reader (TxResult F.Output) F.Aggregate}
    (hr : l.Reads handlers work h reader) :
    Lane.Reads handlers work h
      { l with ordered := l.ordered.release, completions := l.completions.release } reader :=
  ⟨hr.length_eq, hr.replays.of_sent rfl (fun hh => by cases hh) rfl, hr.replayed, hr.read_le,
    hr.follows⟩

/-- A reader begins when the replay does, on streams from which nothing was read. -/
theorem begin {handler : Handler F} {common : F.Common} (hhandler : handlers[h]? = some handler)
    (hcommon : work.commonOf handlers h = some common) (hu : l.Untouched) :
    Lane.Reads handlers work h
      { l with length := work.block.length, replay := .at 0 work.block.length }
      (handler.postProcess common work.block.length) := by
  refine ⟨rfl, ?_, ?_, ?_, ?_⟩
  · rw [Replay.at]
    split
    · rename_i hlt
      refine .reading 0 (by rwa [Work.length_resultsOf]) ?_
      simp [hu.ordered, Stream.fresh]
    · rename_i hge
      have hnil : work.resultsOf handlers h = [] := by
        rw [← List.length_eq_zero_iff, Work.length_resultsOf]
        omega
      rw [hnil]
      exact .ended (by simp [hu.ordered, Stream.fresh]) fun _ => by simp [hu.ordered, Stream.fresh]
  · simp [hu.ordered, Stream.fresh]
  · simp [hu.ordered, Stream.fresh]
  · refine ⟨handler, common, 0, 0, hhandler, hcommon, .start, ?_, ?_, .inl (Nat.zero_le _)⟩
    · simp [hu.ordered, Stream.fresh]
    · simp [hu.read]

end Lane.Reads

/-- A reader reads the completions of its own lane. -/
theorem Aggregates.of_reading {receiver : Option Nat} {aggregated : Option F.Aggregate}
    {source : Nat} {reader : Reader (TxResult F.Output) F.Aggregate}
    (ha : Aggregates calm handlers work h progress lane receiver aggregated l
      (.reading source reader)) : source = lane ∧ l.Reads handlers work h reader := by
  cases ha with
  | reading _ _ _ _ _ _ hreads => exact ⟨rfl, hreads⟩

theorem Station.Serves.readerMove {old : List (Lane F)}
    {reader : Reader (TxResult F.Output) F.Aggregate} (hlanes : s.lanes = old ++ [l])
    (hold : List.Forall₂ (Lane.Done handlers h) past old)
    (hserves : s.Serves calm handlers work h due progress past.length l)
    (hlen : work.block.length ≤ 2 ^ 32)
    (haggregation : l.aggregation = .reading past.length reader)
    (hmove : s.ReaderMove past.length past.length l l reader s') :
    s'.handler = s.handler ∧ s'.Fits calm handlers past work h due (.serving progress) := by
  have hlast := hold.length_eq
  have hlength := hserves.announced.length
  have haggregates := hserves.aggregates
  rw [haggregation] at haggregates
  cases haggregates with
  | reading _ hd ho hreceiver hnone hheld hreads =>
      cases hmove with
      | done outcome =>
          refine ⟨rfl, old, _, Station.lanes_updateLane
            (Station.lanes_updateLane hlanes hlast _) hlast _, hold, { hserves with
              aggregates := .joining outcome hd ho hreceiver hnone ?_ }⟩
          exact hreads.release.of_eq rfl rfl rfl rfl
      | byIndex k r stream hnext =>
          obtain ⟨hget, rfl⟩ := Stream.eq_of_next? hnext
          refine ⟨rfl, old, _, Station.lanes_updateLane hlanes hlast _, hold, { hserves with
            aggregates := .reading _ hd ho hreceiver hnone hheld ?_ }⟩
          exact (hreads.answerByIndex hnext).of_eq rfl rfl rfl rfl
      | endByIndex k hnext hended =>
          refine ⟨rfl, old, _, Station.lanes_updateLane hlanes hlast _, hold, { hserves with
            aggregates := .reading _ hd ho hreceiver hnone hheld ?_ }⟩
          exact (hreads.endByIndex hheld hnext hended).of_eq rfl rfl rfl rfl
      | byCompletion k r stream hnext =>
          obtain ⟨hget, rfl⟩ := Stream.eq_of_next? hnext
          refine ⟨rfl, old, _, Station.lanes_updateLane
            (Station.lanes_updateLane hlanes hlast _) hlast _, hold, { hserves with
              aggregates := .reading _ hd ho hreceiver hnone hheld ?_ }⟩
          exact (hreads.answerByCompletion hnext).of_eq rfl rfl rfl rfl
      | endByCompletion k hnext hsender =>
          have hremaining : s.remaining = 0 := by
            by_contra hne
            exact hsender (by rw [hserves.announced.sender_eq, if_neg hne])
          refine ⟨rfl, old, _, Station.lanes_updateLane hlanes hlast _, hold, { hserves with
            aggregates := .reading _ hd ho hreceiver hnone hheld ?_ }⟩
          exact (hreads.endByCompletion hnext (by omega)).of_eq rfl rfl rfl rfl
      | backlog k =>
          refine ⟨rfl, old, _, Station.lanes_updateLane hlanes hlast _, hold, { hserves with
            aggregates := .reading _ hd ho hreceiver hnone hheld ?_ }⟩
          exact (hreads.answerBacklog hlen (by omega)).of_eq rfl rfl rfl rfl

theorem Replay.eq_ended {α : Type} {replay : Replay α} (h : replay.isEnded = true) :
    replay = .ended := by
  cases replay <;> simp_all [Replay.isEnded]

theorem Station.Fits.stepAggregation?
    (hs : s.Fits calm handlers past work h due (.serving progress))
    (hlen : work.block.length ≤ 2 ^ 32) (hhandler : handlers[h]? = some s.handler)
    (hstep : s.stepAggregation? lane = some s')
    (hcalm : calm → s.aggregateRaises lane = false) :
    s'.handler = s.handler ∧ s'.Fits calm handlers past work h due (.serving progress) := by
  obtain ⟨old, l, hlanes, hold, hserves⟩ := hs
  have hlast := hold.length_eq
  have haggregates := hserves.aggregates
  have hlane {moved : Lane F} (hl : s.lanes[lane]? = some moved)
      (hne : moved.aggregation ≠ .ended) : lane = past.length ∧ moved = l :=
    Station.Fits.lane_eq hlanes hold hl fun _ hdone => hne hdone.aggregation
  cases aggregationMove_of_stepAggregation? hstep with
  | streamMissing moved hl hclaiming hmissing =>
      obtain ⟨rfl, rfl⟩ := hlane hl (by simp [hclaiming])
      rw [hclaiming] at haggregates
      cases haggregates with
      | claiming hd ho hreceiver hnone hu =>
          rw [hreceiver] at hmissing
          cases hmissing
  | claim moved source hl hclaiming hclaimed =>
      obtain ⟨rfl, rfl⟩ := hlane hl (by simp [hclaiming])
      rw [hclaiming] at haggregates
      cases haggregates with
      | claiming hd ho hreceiver hnone hu =>
          rw [hreceiver] at hclaimed
          cases hclaimed
          refine ⟨rfl, old, _, Station.lanes_updateLane hlanes hlast _, hold, { hserves with
            aggregates := .gathering hd ho rfl hnone
              ⟨hu.replay, hu.ordered, hu.read, hu.held⟩ }⟩
  | gather moved source common hl hgathering hvalue =>
      obtain ⟨rfl, rfl⟩ := hlane hl (by simp [hgathering])
      have hcommon : work.commonOf handlers h = some common := by
        rw [← hvalue]
        exact (hserves.prepares.eq_commonOf (by rw [hvalue]; rfl)).symm
      rw [hgathering] at haggregates
      cases haggregates with
      | gathering hd ho hreceiver hnone hu =>
          refine ⟨rfl, old, _, Station.lanes_updateLane hlanes hlast _, hold, { hserves with
            aggregates := .reading _ hd ho hreceiver hnone ?_ ?_ }⟩
          · simp [hu.ordered, Stream.fresh]
          · rw [hserves.length_eq]
            exact (Lane.Reads.begin hhandler hcommon hu).of_eq rfl rfl rfl rfl
  | read moved feed source reader hl hreading hfeed hmove =>
      obtain ⟨rfl, rfl⟩ := hlane hl (by simp [hreading])
      rw [hreading] at haggregates
      obtain ⟨rfl, -⟩ := haggregates.of_reading
      obtain rfl := Option.some.inj (hl.symm.trans hfeed)
      exact hserves.readerMove hlanes hold hlen hreading hmove
  | joinFault moved fault hl hjoining hended =>
      obtain ⟨rfl, rfl⟩ := hlane hl (by simp [hjoining])
      have hraises : s.aggregateRaises past.length = true := by
        simp [Station.aggregateRaises, Station.aggregation?, hl, hjoining]
      rw [hjoining] at haggregates
      cases haggregates with
      | joining _ hd ho hreceiver hnone hreads =>
          refine ⟨rfl, old, _, Station.lanes_updateLane hlanes hlast _, hold, { hserves with
            aggregates := .dead fault ?_ hd ho hreceiver hnone (Replay.eq_ended hended)
              (hreads.of_eq rfl rfl rfl rfl) }⟩
          intro hc
          rw [hcalm hc] at hraises
          cases hraises
  | alreadySet moved a hl hjoining hended hset =>
      obtain ⟨rfl, rfl⟩ := hlane hl (by simp [hjoining])
      rw [hjoining] at haggregates
      cases haggregates with
      | joining _ hd ho hreceiver hnone hreads =>
          obtain ⟨cell, hcell, -⟩ := Cell.set?_of_none hnone a
          rw [hcell] at hset
          cases hset
  | write moved a cell hl hjoining hended hset =>
      obtain ⟨rfl, rfl⟩ := hlane hl (by simp [hjoining])
      rw [hjoining] at haggregates
      cases haggregates with
      | joining _ hd ho hreceiver hnone hreads =>
          refine ⟨rfl, old, _, Station.lanes_updateLane hlanes hlast _, hold, { hserves with
            aggregates :=
              .ended a hd hreceiver ?_ (Replay.eq_ended hended) (hreads.of_eq rfl rfl rfl rfl) }⟩
          rw [(Cell.value_of_set? hset).2, if_neg (by simp [Progress.concluded_of_isOpen ho])]

/-! ## What a reader comes to -/

/-- `a` can be the aggregate of handler `h`: with the results completed in some order, the reader
of the handler comes to it. -/
def Work.Aggregates (handlers : List (Handler F)) (work : Work F) (h : Nat) (a : F.Aggregate) :
    Prop :=
  ∃ handler common completed i j, handlers[h]? = some handler ∧
    work.commonOf handlers h = some common ∧ completed.Perm (work.resultsOf handlers h) ∧
    Reader.Follows (work.resultsOf handlers h) completed
      (handler.postProcess common work.block.length) (.done (.ok a)) i j

theorem Announced.exists_perm {dueNow : Multiset Job} {sent : List (TxResult F.Output)}
    {remaining : Nat} {sender : Option Nat}
    (ha : Announced handlers work h dueNow lane sent remaining sender) :
    ∃ rest, (sent ++ rest).Perm (work.resultsOf handlers h) := by
  obtain ⟨jobs, hjobs⟩ : ∃ jobs : List Job, (jobs : Multiset Job) = dueNow.filter (·.handler = h) :=
    Quot.exists_rep _
  have hsent : sent.map (fun r => work.resultOf handlers h r.tx) = sent := by
    conv_rhs => rw [← List.map_id sent]
    exact List.map_congr_left fun r hr => (ha.results r hr).symm
  have hsplit := congrArg (Multiset.map fun job : Job => work.resultOf handlers h job.tx) ha.split
  rw [← hjobs, Multiset.map_add] at hsplit
  refine ⟨jobs.map fun job => work.resultOf handlers h job.tx, Multiset.coe_eq_coe.mp ?_⟩
  rw [← Multiset.coe_add, ← hsent]
  simpa [Work.resultsOf, Function.comp_def] using hsplit

theorem Announced.perm_of_zero {dueNow : Multiset Job} {sent : List (TxResult F.Output)}
    {remaining : Nat} {sender : Option Nat}
    (ha : Announced handlers work h dueNow lane sent remaining sender)
    (hzero : dueNow.filter (·.handler = h) = 0) : sent.Perm (work.resultsOf handlers h) := by
  obtain ⟨rest, hperm⟩ := ha.exists_perm
  have hlength := hperm.length_eq
  have hsent := ha.length
  rw [ha.remaining_eq, hzero, Multiset.card_zero, add_zero] at hsent
  rw [List.length_append, hsent, Work.length_resultsOf] at hlength
  have hnil : rest = [] := List.eq_nil_of_length_eq_zero (by omega)
  rwa [hnil, List.append_nil] at hperm

/-- Whatever is announced after what the reader has seen, the reader follows it. -/
theorem Lane.Reads.follows_of_isPrefix {reader : Reader (TxResult F.Output) F.Aggregate}
    {completed : List (TxResult F.Output)} (hr : l.Reads handlers work h reader)
    (hbegins : l.completions.sent <+: completed) (hlength : completed.length = work.block.length) :
    ∃ handler common i j, handlers[h]? = some handler ∧
      work.commonOf handlers h = some common ∧
      Reader.Follows (work.resultsOf handlers h) completed
        (handler.postProcess common work.block.length) reader i j ∧
      l.ordered.read = min i work.block.length ∧
      l.completions.read = min j l.completions.sent.length := by
  obtain ⟨handler, common, i, j, hhandler, hcommon, hfollows, hi, hj, hcompleted⟩ := hr.follows
  refine ⟨handler, common, i, j, hhandler, hcommon, ?_, hi, hj⟩
  rcases hcompleted with hle | hall
  · obtain ⟨rest, rfl⟩ := hbegins
    exact hfollows.append_completed hle rest
  · rwa [← hbegins.eq_of_length (hall.trans hlength.symm)]

/-- A reader has come to where it is on a complete list of results. -/
theorem Lane.Reads.exists_follows {reader : Reader (TxResult F.Output) F.Aggregate}
    {dueNow : Multiset Job} {remaining : Nat} {sender : Option Nat}
    (hr : l.Reads handlers work h reader)
    (ha : Announced handlers work h dueNow lane l.completions.sent remaining sender) :
    ∃ handler common completed i j, handlers[h]? = some handler ∧
      work.commonOf handlers h = some common ∧ l.completions.sent <+: completed ∧
      completed.Perm (work.resultsOf handlers h) ∧
      Reader.Follows (work.resultsOf handlers h) completed
        (handler.postProcess common work.block.length) reader i j ∧
      l.ordered.read = min i work.block.length ∧
      l.completions.read = min j l.completions.sent.length := by
  obtain ⟨rest, hperm⟩ := ha.exists_perm
  have hprefix := List.prefix_append l.completions.sent rest
  obtain ⟨handler, common, i, j, hhandler, hcommon, hfollows, hi, hj⟩ :=
    hr.follows_of_isPrefix hprefix (hperm.length_eq.trans (Work.length_resultsOf _ _ _))
  exact ⟨handler, common, _, i, j, hhandler, hcommon, hprefix, hperm, hfollows, hi, hj⟩

end TxPipeline
