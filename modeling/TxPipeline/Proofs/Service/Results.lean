import TxPipeline.Proofs.Service.Basic

/-!
# Jobs that pass a checkpoint at their station

A job passes a checkpoint when something is written for it: a value to a data cell, a result to the
completion stream, a result to its cell. Each write finds its place, and leaves a station that
serves the block with one job less due.
-/

namespace TxPipeline

variable {F : Flow} {calm : Prop} {handlers : List (Handler F)} {past : List (Work F)}
  {work : Work F} {h : Nat} {due due' : Checkpoint → Multiset Job} {progress : Progress}
  {lane : Nat} {s : Station F} {l : Lane F} {tx : IndexedTx}

theorem valueAt_set {α : Type} {cells : List (Cell α)} {i : Nat} (hi : i < cells.length)
    (cell : Cell α) (j : Nat) :
    valueAt (cells.set i cell) j = if j = i then cell.value else valueAt cells j := by
  unfold valueAt
  rw [List.getElem?_set]
  by_cases hij : j = i
  · simp [hij, hi]
  · simp [hij, Ne.symm hij]

theorem Cell.set?_of_none {α : Type} {cell : Cell α} (h : cell.value = none) (a : α) :
    ∃ cell', cell.set? a = some cell' ∧ cell'.value = some a := by
  unfold Cell.set?
  rw [h]
  exact ⟨_, rfl, rfl⟩

theorem modify_append_length {α : Type} (old : List α) (l : α) (f : α → α) :
    (old ++ [l]).modify old.length f = old ++ [f l] := by
  rw [modify_eq_set (a := l) (by simp)]
  simp

theorem Work.getElem?_of_mem (hlen : work.block.length ≤ 2 ^ 32) (ht : tx ∈ work.block.indexed) :
    tx.index < work.block.length ∧ work.block.indexed[tx.index]? = some tx := by
  have hget := Block.getElem?_of_mem hlen ht
  refine ⟨?_, hget⟩
  rw [← Block.length_indexed]
  exact (List.getElem?_eq_some_iff.mp hget).1

@[simp] theorem Work.length_resultsOf (handlers : List (Handler F)) (work : Work F) (h : Nat) :
    (work.resultsOf handlers h).length = work.block.length := by
  rw [resultsOf, List.length_map, Block.length_indexed]

theorem Announced.length {dueNow : Multiset Job} {sent : List (TxResult F.Output)}
    {remaining : Nat} {sender : Option Nat}
    (ha : Announced handlers work h dueNow lane sent remaining sender) :
    sent.length + remaining = work.block.length := by
  have hcard := congrArg Multiset.card ha.split
  simpa [ha.remaining_eq, Block.length_indexed] using hcard

theorem Announced.send {dueNow dueNext : Multiset Job} {sent : List (TxResult F.Output)}
    {remaining : Nat} {sender : Option Nat}
    (ha : Announced handlers work h dueNow lane sent remaining sender)
    (hdue : dueNow = ⟨h, tx⟩ ::ₘ dueNext) :
    sender = some lane ∧ Announced handlers work h dueNext lane
      (sent ++ [work.resultOf handlers h tx]) (remaining - 1)
      (if remaining - 1 = 0 then none else sender) := by
  have hfilter : dueNow.filter (·.handler = h) = ⟨h, tx⟩ ::ₘ dueNext.filter (·.handler = h) := by
    rw [hdue]
    exact Multiset.filter_cons_of_pos _ rfl
  have hremaining : remaining = (dueNext.filter (·.handler = h)).card + 1 := by
    rw [ha.remaining_eq, hfilter, Multiset.card_cons]
  have hsender : sender = some lane := by rw [ha.sender_eq, if_neg (by omega)]
  refine ⟨hsender, ?_, by omega, by rw [hsender], ?_⟩
  · rw [← ha.split, hfilter, List.map_append, ← Multiset.coe_add, add_assoc]
    rfl
  · intro r hr
    rcases List.mem_append.mp hr with hr | hr
    · exact ha.results r hr
    · rw [List.mem_singleton.mp hr]
      rfl

theorem Announced.mem_sent {dueNow : Multiset Job} {sent : List (TxResult F.Output)}
    {remaining : Nat} {sender : Option Nat}
    (ha : Announced handlers work h dueNow lane sent remaining sender)
    (ht : tx ∈ work.block.indexed) (hdue : ⟨h, tx⟩ ∉ dueNow) :
    work.resultOf handlers h tx ∈ sent := by
  have hmem : Job.mk h tx ∈ ((work.block.indexed.map (Job.mk h) : List Job) : Multiset Job) :=
    Multiset.mem_coe.mpr (List.mem_map_of_mem ht)
  rw [← ha.split, Multiset.mem_add] at hmem
  rcases hmem with hmem | hmem
  · obtain ⟨r, hr, heq⟩ := List.mem_map.mp (Multiset.mem_coe.mp hmem)
    obtain rfl : r.tx = tx := congrArg Job.tx heq
    rwa [← ha.results r hr]
  · exact absurd (Multiset.mem_filter.mp hmem).1 hdue

theorem Announced.mem_indexed {dueNow : Multiset Job} {sent : List (TxResult F.Output)}
    {remaining : Nat} {sender : Option Nat}
    (ha : Announced handlers work h dueNow lane sent remaining sender)
    (hdue : ⟨h, tx⟩ ∈ dueNow) : tx ∈ work.block.indexed := by
  have hmem : Job.mk h tx ∈ ((work.block.indexed.map (Job.mk h) : List Job) : Multiset Job) := by
    rw [← ha.split]
    exact Multiset.mem_add.mpr (.inr (Multiset.mem_filter.mpr ⟨hdue, rfl⟩))
  obtain ⟨_, ht, heq⟩ := List.mem_map.mp (Multiset.mem_coe.mp hmem)
  rwa [← show _ = tx from congrArg Job.tx heq]

theorem Lane.Reads.send {reader : Reader (TxResult F.Output) F.Aggregate}
    (hr : l.Reads handlers work h reader) (hlt : l.completions.sent.length < work.block.length)
    (r : TxResult F.Output) :
    Lane.Reads handlers work h { l with completions := l.completions.send r } reader where
  length_eq := hr.length_eq
  replays := by
    cases hreplay : l.replay with
    | idle =>
        have hrep := hr.replays
        rw [hreplay] at hrep
        cases hrep
    | reading i =>
        have hrep := hr.replays
        rw [hreplay] at hrep
        cases hrep with
        | reading _ hi hsent => exact .reading i hi hsent
    | sending i r' =>
        have hrep := hr.replays
        rw [hreplay] at hrep
        cases hrep with
        | sending _ _ hget hmem hsent =>
            exact .sending i r' hget (List.mem_append_left _ hmem) hsent
    | ended =>
        have hrep := hr.replays
        rw [hreplay] at hrep
        cases hrep with
        | ended hsent hall => exact .ended hsent hall
  replayed := fun r' hr' => List.mem_append_left _ (hr.replayed r' hr')
  read_le := hr.read_le
  follows := by
    obtain ⟨handler, common, i, j, hhandler, hcommon, hfollows, hi, hj, hle⟩ := hr.follows
    have hle' : j ≤ l.completions.sent.length := hle.resolve_right (Nat.ne_of_lt hlt)
    refine ⟨handler, common, i, j, hhandler, hcommon,
      hfollows.append_completed hle' [r], hi, ?_, .inl ?_⟩
    · simp only [Stream.send, List.length_append, List.length_singleton]
      omega
    · simp only [Stream.send, List.length_append, List.length_singleton]
      omega

theorem Lane.Untouched.send (hu : l.Untouched) (r : TxResult F.Output) :
    Lane.Untouched { l with completions := l.completions.send r } :=
  ⟨hu.replay, hu.ordered, hu.read, hu.held⟩

theorem Aggregates.send {receiver : Option Nat} {aggregated : Option F.Aggregate}
    {aggregation : Aggregation F}
    (ha : Aggregates calm handlers work h progress lane receiver aggregated l aggregation)
    (hlt : l.completions.sent.length < work.block.length) (r : TxResult F.Output) :
    Aggregates calm handlers work h progress lane receiver aggregated
      { l with completions := l.completions.send r } aggregation := by
  cases ha with
  | idle hdispatched hopen hreceiver hnone huntouched =>
      exact .idle hdispatched hopen hreceiver hnone (huntouched.send r)
  | claiming hdispatched hopen hreceiver hnone huntouched =>
      exact .claiming hdispatched hopen hreceiver hnone (huntouched.send r)
  | gathering hdispatched hopen hreceiver hnone huntouched =>
      exact .gathering hdispatched hopen hreceiver hnone (huntouched.send r)
  | reading reader hdispatched hopen hreceiver hnone hheld hreads =>
      exact .reading reader hdispatched hopen hreceiver hnone hheld (hreads.send hlt r)
  | joining outcome hdispatched hopen hreceiver hnone hreads =>
      exact .joining outcome hdispatched hopen hreceiver hnone (hreads.send hlt r)
  | ended a hdispatched hreceiver hsome hreplay hreads =>
      exact .ended a hdispatched hreceiver hsome hreplay (hreads.send hlt r)
  | dead fault hcalm hdispatched hopen hreceiver hnone hreplay hreads =>
      exact .dead fault hcalm hdispatched hopen hreceiver hnone hreplay (hreads.send hlt r)

theorem Station.announce_of_sender {r : TxResult F.Output} (hlt : r.index < s.blockLength)
    (hsender : s.sender = some lane) :
    s.announce r = .ok { s.updateLane lane fun l =>
        { l with completions := l.completions.send r } with
      remaining := s.remaining - 1
      sender := if s.remaining - 1 = 0 then none else s.sender } := by
  rw [Station.announce, if_pos hlt, hsender]

/-- Announcing a result that is due succeeds. -/
theorem Station.Fits.announce (due' : Checkpoint → Multiset Job)
    (hs : s.Fits calm handlers past work h due (.serving progress))
    (hlen : work.block.length ≤ 2 ^ 32) (hdue : due .announced = ⟨h, tx⟩ ::ₘ due' .announced)
    (hother : ∀ c, c ≠ .announced → due' c = due c) :
    ∃ s', s.announce (work.resultOf handlers h tx) = .ok s' ∧ s'.handler = s.handler ∧
      s'.Fits calm handlers past work h due' (.serving progress) := by
  obtain ⟨old, l, hlanes, hold, hserves⟩ := hs
  have hmem : tx ∈ work.block.indexed := by
    apply hserves.announced.mem_indexed
    rw [hdue]
    exact Multiset.mem_cons_self _ _
  obtain ⟨hindex, _⟩ := Work.getElem?_of_mem hlen hmem
  obtain ⟨hsender, hannounced⟩ := hserves.announced.send hdue
  have hlt : l.completions.sent.length < work.block.length := by
    have hbefore := hserves.announced.length
    have hafter := hannounced.length
    simp only [List.length_append, List.length_singleton] at hafter
    omega
  have hmodify : s.lanes.modify past.length
      (fun l => { l with completions := l.completions.send (work.resultOf handlers h tx) }) =
        old ++ [{ l with completions := l.completions.send (work.resultOf handlers h tx) }] := by
    rw [hlanes, hold.length_eq, modify_append_length]
  have hlt' : (work.resultOf handlers h tx).index < s.blockLength := by
    rw [hserves.length_eq]
    exact hindex
  refine ⟨_, Station.announce_of_sender hlt' hsender, rfl, old, _, hmodify, hold, ?_⟩
  exact {
    length_eq := hserves.length_eq
    announced := hannounced
    settled := by
      rw [hother .settled (by decide)]
      exact hserves.settled
    supplied := by
      rw [hother .deposited (by decide)]
      exact hserves.supplied
    kept := by
      rw [hother .prefetched (by decide), hother .processed (by decide)]
      exact hserves.kept
    prepares := hserves.prepares
    aggregates := hserves.aggregates.send hlt _ }

theorem Station.Fits.settle (due' : Checkpoint → Multiset Job)
    (hs : s.Fits calm handlers past work h due (.serving progress))
    (hlen : work.block.length ≤ 2 ^ 32) (ht : tx ∈ work.block.indexed)
    (hdue : due .settled = ⟨h, tx⟩ ::ₘ due' .settled) (hnodup : (due .settled).Nodup)
    (hother : ∀ c, c ≠ .settled → due' c = due c) :
    ∃ s', s.settle (work.resultOf handlers h tx) = .ok s' ∧ s'.handler = s.handler ∧
      s'.Fits calm handlers past work h due' (.serving progress) := by
  obtain ⟨old, l, hlanes, hold, hserves⟩ := hs
  obtain ⟨hindex, hget⟩ := Work.getElem?_of_mem hlen ht
  obtain ⟨length_le, values, hdrained⟩ := hserves.settled
  have hnow : ⟨h, tx⟩ ∈ due .settled := by
    rw [hdue]
    exact Multiset.mem_cons_self _ _
  have hnext : ⟨h, tx⟩ ∉ due' .settled := by
    rw [hdue] at hnodup
    exact (Multiset.nodup_cons.mp hnodup).1
  have hlt : tx.index < s.results.length := Nat.lt_of_lt_of_le hindex length_le
  have hempty : s.results[tx.index].value = none := by
    have hvalue := values tx.index
    rw [hget] at hvalue
    simpa [valueAt, hlt, hnow] using hvalue
  obtain ⟨cell, hset, hcell⟩ := Cell.set?_of_none hempty (work.resultOf handlers h tx)
  refine ⟨{ s with results := s.results.set tx.index cell }, ?_, rfl, old, l, hlanes, hold, ?_⟩
  · have hat : s.results[(work.resultOf handlers h tx).index]? = some s.results[tx.index] :=
      List.getElem?_eq_getElem hlt
    rw [Station.settle, hat]
    dsimp only
    rw [hset]
    rfl
  refine { hserves with
    announced := ?_
    settled := ⟨by simpa using length_le, ?_, ?_⟩
    supplied := ?_
    kept := ?_ }
  · rw [hother .announced (by decide)]
    exact hserves.announced
  · intro i
    rw [valueAt_set hlt, values i, hcell]
    by_cases hi : i = tx.index
    · have hnot : ¬ tx.index < progress.drained := fun hlt => hdrained _ _ hlt hget hnow
      rw [if_pos hi, hi, hget]
      simp [hnext, Nat.le_of_not_lt hnot]
    · rw [if_neg hi]
      cases hother : work.block.indexed[i]? with
      | none => rfl
      | some other =>
          have hne : other ≠ tx := by
            rintro rfl
            exact hi (Block.index_of_getElem? hlen hother).symm
          simp [hdue, hne]
  · intro i other hi hother hmem
    apply hdrained i other hi hother
    rw [hdue]
    exact Multiset.mem_cons_of_mem hmem
  · rw [hother .deposited (by decide)]
    exact hserves.supplied
  · rw [hother .prefetched (by decide), hother .processed (by decide)]
    exact hserves.kept

theorem Station.Fits.deposit (due' : Checkpoint → Multiset Job)
    (hs : s.Fits calm handlers past work h due (.serving progress))
    (hlen : work.block.length ≤ 2 ^ 32) (hjob : ⟨h, tx⟩ ∈ work.jobs handlers)
    (hcommon : (work.commonOf handlers h).isSome)
    (hdue : due .deposited = ⟨h, tx⟩ ::ₘ due' .deposited) (hnodup : (due .deposited).Nodup)
    (hother : ∀ c, c ≠ .deposited → due' c = due c) :
    ∃ s', s.deposit tx.index (work.dataOf handlers h tx) = .ok s' ∧ s'.handler = s.handler ∧
      s'.Fits calm handlers past work h due' (.serving progress) := by
  obtain ⟨old, l, hlanes, hold, hserves⟩ := hs
  obtain ⟨hindex, hget⟩ := Work.getElem?_of_mem hlen (Work.mem_jobs.mp hjob).1
  obtain ⟨length_le, values, -⟩ := hserves.supplied
  have hnow : ⟨h, tx⟩ ∈ due .deposited := by
    rw [hdue]
    exact Multiset.mem_cons_self _ _
  have hnext : ⟨h, tx⟩ ∉ due' .deposited := by
    rw [hdue] at hnodup
    exact (Multiset.nodup_cons.mp hnodup).1
  have hlt : tx.index < s.data.length := Nat.lt_of_lt_of_le hindex length_le
  have hempty : s.data[tx.index].value = none := by
    have hvalue := values tx.index
    rw [hget] at hvalue
    simpa [valueAt, hlt, hnow] using hvalue
  obtain ⟨cell, hset, hcell⟩ := Cell.set?_of_none hempty (work.dataOf handlers h tx)
  refine ⟨{ s with data := s.data.set tx.index cell }, ?_, rfl, old, l, hlanes, hold, ?_⟩
  · rw [Station.deposit, List.getElem?_eq_getElem hlt]
    dsimp only
    rw [hset]
  refine { hserves with
    announced := ?_
    settled := ?_
    supplied := ⟨by simpa using length_le, ?_, fun _ _ _ => hcommon⟩
    kept := ?_ }
  · rw [hother .announced (by decide)]
    exact hserves.announced
  · rw [hother .settled (by decide)]
    exact hserves.settled
  · intro i
    rw [valueAt_set hlt, values i, hcell]
    by_cases hi : i = tx.index
    · rw [if_pos hi, hi, hget]
      simp [hnext, hjob]
    · rw [if_neg hi]
      cases hother : work.block.indexed[i]? with
      | none => rfl
      | some other =>
          have hne : other ≠ tx := by
            rintro rfl
            exact hi (Block.index_of_getElem? hlen hother).symm
          simp [hdue, hne]
  · rw [hother .prefetched (by decide), hother .processed (by decide)]
    exact hserves.kept

theorem Station.Fits.dataOf (hs : s.Fits calm handlers past work h due (.serving progress))
    (hlen : work.block.length ≤ 2 ^ 32) (hjob : ⟨h, tx⟩ ∈ work.jobs handlers) :
    ∃ cell, s.data[tx.index]? = some cell ∧ ∀ data, cell.value = some data →
      data = work.dataOf handlers h tx ∧ ⟨h, tx⟩ ∉ due .deposited := by
  obtain ⟨old, l, hlanes, hold, hserves⟩ := hs
  obtain ⟨hindex, hget⟩ := Work.getElem?_of_mem hlen (Work.mem_jobs.mp hjob).1
  have hlt : tx.index < s.data.length := Nat.lt_of_lt_of_le hindex hserves.supplied.length_le
  refine ⟨s.data[tx.index], List.getElem?_eq_getElem hlt, fun data hdata => ?_⟩
  have hvalue := hserves.supplied.values tx.index
  rw [hget] at hvalue
  simp only [valueAt, List.getElem?_eq_getElem hlt, Option.bind_some, hdata] at hvalue
  split at hvalue
  · rename_i hif
    cases hvalue
    exact ⟨rfl, hif.2⟩
  · cases hvalue

namespace Kept

variable {unprefetched unprocessed next : Multiset Job} {fault : Option Fault} {job : Job}

theorem pass_prefetched (hk : Kept handlers work h unprefetched unprocessed fault)
    (hdue : unprefetched = job ::ₘ next) (hnone : work.prefetchFault handlers job = none) :
    Kept handlers work h next unprocessed fault where
  raised := hk.raised
  missed := by
    intro hfault other hother hh
    obtain ⟨hprefetch, hprocess⟩ := hk.missed hfault other hother hh
    refine ⟨?_, hprocess⟩
    intro hnext
    by_cases heq : other = job
    · rw [heq, hnone]
    · apply hprefetch
      rw [hdue, Multiset.mem_cons]
      exact not_or.mpr ⟨heq, hnext⟩

theorem pass_processed (hk : Kept handlers work h unprefetched unprocessed fault)
    (hdue : unprocessed = job ::ₘ next) (hnone : work.processFault handlers job = none) :
    Kept handlers work h unprefetched next fault where
  raised := hk.raised
  missed := by
    intro hfault other hother hh
    obtain ⟨hprefetch, hprocess⟩ := hk.missed hfault other hother hh
    refine ⟨hprefetch, ?_⟩
    intro hnext
    by_cases heq : other = job
    · rw [heq, hnone]
    · apply hprocess
      rw [hdue, Multiset.mem_cons]
      exact not_or.mpr ⟨heq, hnext⟩

/-- Once a fault is kept, no later one can be missed. -/
theorem keep (hk : Kept handlers work h unprefetched unprocessed fault)
    (hjob : job ∈ work.jobs handlers) (hh : job.handler = h) {f : Fault}
    (hf : work.prefetchFault handlers job = some f ∨ work.processFault handlers job = some f)
    (unprefetched' unprocessed' : Multiset Job) :
    Kept handlers work h unprefetched' unprocessed' (fault <|> some f) where
  raised := by
    intro f' hf'
    cases hfault : fault with
    | none =>
        obtain rfl : f = f' := by simpa [hfault] using hf'
        exact ⟨job, hjob, hh, hf⟩
    | some f'' =>
        obtain rfl : f'' = f' := by simpa [hfault] using hf'
        exact hk.raised f'' hfault
  missed := by
    intro hnone
    cases fault <;> simp at hnone

end Kept

theorem Station.Fits.setFault (hs : s.Fits calm handlers past work h due (.serving progress))
    (hsame : ∀ c, c = .deposited ∨ c = .announced ∨ c = .settled → due' c = due c)
    {fault : Option Fault}
    (hkept : Kept handlers work h (due .prefetched) (due .processed) s.fault →
      Kept handlers work h (due' .prefetched) (due' .processed) fault) :
    Station.Fits calm handlers past work h due' { s with fault := fault } (.serving progress) := by
  obtain ⟨old, l, hlanes, hold, hserves⟩ := hs
  refine ⟨old, l, hlanes, hold, { hserves with
    announced := ?_
    settled := ?_
    supplied := ?_
    kept := hkept hserves.kept }⟩
  · rw [hsame .announced (by simp)]
    exact hserves.announced
  · rw [hsame .settled (by simp)]
    exact hserves.settled
  · rw [hsame .deposited (by simp)]
    exact hserves.supplied

end TxPipeline
