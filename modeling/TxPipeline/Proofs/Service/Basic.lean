import TxPipeline.Proofs.Jobs
import TxPipeline.Proofs.Load
import TxPipeline.Proofs.Reading

/-!
# A station that serves a block

What holds at the station of one handler from the moment it is opened for a block until it is
closed. It depends on the rest of the pipeline only through the jobs that are due: those of the
block that have not passed a checkpoint, wherever they are.
-/

namespace TxPipeline

variable {F : Flow}

/-- The value of the cell at a position, if there is a cell and it is set. -/
def valueAt {α : Type} (cells : List (Cell α)) (i : Nat) : Option α :=
  (cells[i]?).bind fun cell => cell.value

/-- How far the callers have come with a block at a station. -/
structure Progress where
  /-- The preparation has got its task. -/
  prepared : Bool
  /-- The aggregation has got its task. -/
  dispatched : Bool
  /-- The preparation was waited for. -/
  joined : Bool
  /-- The aggregation was waited for. -/
  awaited : Bool
  /-- The aggregate was taken. -/
  concluded : Bool
  /-- How many results were removed. -/
  drained : Nat

/-- Nobody has waited for the aggregation, nor taken its aggregate. -/
def Progress.isOpen (progress : Progress) : Bool := !progress.awaited && !progress.concluded

theorem Progress.concluded_of_isOpen {progress : Progress} (h : progress.isOpen = true) :
    progress.concluded = false := by
  simpa using (Bool.and_eq_true_iff.mp h).2

/-- The progress of a block that was just opened. -/
def Progress.opened : Progress := ⟨false, false, false, false, false, 0⟩

/-- The completion stream holds the results that are not due any more, in some order, and stays
open as long as one is due. -/
structure Announced (handlers : List (Handler F)) (work : Work F) (h : Nat) (due : Multiset Job)
    (lane : Nat) (sent : List (TxResult F.Output)) (remaining : Nat) (sender : Option Nat) :
    Prop where
  split : ((sent.map fun r => Job.mk h r.tx : List Job) : Multiset Job) +
    due.filter (·.handler = h) = (work.block.indexed.map (Job.mk h) : List Job)
  remaining_eq : remaining = (due.filter (·.handler = h)).card
  sender_eq : sender = if remaining = 0 then none else some lane
  results : ∀ r ∈ sent, r = work.resultOf handlers h r.tx

/-- The cells hold the results that are not due any more, apart from those that were removed. -/
structure Settled (handlers : List (Handler F)) (work : Work F) (h : Nat) (due : Multiset Job)
    (drained : Nat) (results : List (Cell (TxResult F.Output))) : Prop where
  length_le : work.block.length ≤ results.length
  values : ∀ i, valueAt results i = (work.block.indexed[i]?).bind fun tx =>
    if drained ≤ i ∧ ⟨h, tx⟩ ∉ due then some (work.resultOf handlers h tx) else none
  drained_not_due : ∀ i tx, i < drained → work.block.indexed[i]? = some tx → ⟨h, tx⟩ ∉ due

/-- The cells hold what `prefetch` made for the jobs that are not due any more. It ran after
`beforeBlock`. -/
structure Supplied (handlers : List (Handler F)) (work : Work F) (h : Nat) (due : Multiset Job)
    (data : List (Cell (Option F.Data))) : Prop where
  length_le : work.block.length ≤ data.length
  values : ∀ i, valueAt data i = (work.block.indexed[i]?).bind fun tx =>
    if ⟨h, tx⟩ ∈ work.jobs handlers ∧ ⟨h, tx⟩ ∉ due then some (work.dataOf handlers h tx) else none
  gathered : ∀ tx, ⟨h, tx⟩ ∈ work.jobs handlers → ⟨h, tx⟩ ∉ due →
    (work.commonOf handlers h).isSome

/-- The fault that is kept is one of this block, and none is kept only if none was raised. -/
structure Kept (handlers : List (Handler F)) (work : Work F) (h : Nat)
    (unprefetched unprocessed : Multiset Job) (fault : Option Fault) : Prop where
  raised : ∀ f, fault = some f → ∃ job ∈ work.jobs handlers, job.handler = h ∧
    (work.prefetchFault handlers job = some f ∨ work.processFault handlers job = some f)
  missed : fault = none → ∀ job ∈ work.jobs handlers, job.handler = h →
    (job ∉ unprefetched → work.prefetchFault handlers job = none) ∧
      (job ∉ unprocessed → work.processFault handlers job = none)

/-- Where the preparation is, and what it has made. -/
inductive Prepares (calm : Prop) (handlers : List (Handler F)) (work : Work F) (h : Nat)
    (progress : Progress) (common : Option F.Common) : Preparation F → Prop
  | idle (hprepared : progress.prepared = false) (hjoined : progress.joined = false)
      (hcommon : common = none) : Prepares calm handlers work h progress common .idle
  | ready (hprepared : progress.prepared = true) (hjoined : progress.joined = false)
      (hcommon : common = none) : Prepares calm handlers work h progress common
        (.ready work.store work.rules work.block)
  | ended (hprepared : progress.prepared = true) (hsome : common.isSome)
      (hcommon : common = work.commonOf handlers h) :
      Prepares calm handlers work h progress common .ended
  | dead (fault : Fault) (hcalm : ¬ calm) (hprepared : progress.prepared = true)
      (hjoined : progress.joined = false) (hcommon : common = none)
      (hfault : ∃ handler, handlers[h]? = some handler ∧
        handler.beforeBlock work.store work.rules work.block = .error fault) :
      Prepares calm handlers work h progress common (.dead fault)

/-- Nobody has read anything in the lane, and nothing was replayed. -/
structure Lane.Untouched (l : Lane F) : Prop where
  replay : l.replay = .idle
  ordered : l.ordered = .fresh
  read : l.completions.read = 0
  held : l.completions.held = true

/-- The replay sends the results in the order of transactions. -/
inductive Replays (results : List (TxResult F.Output)) (l : Lane F) :
    Replay (TxResult F.Output) → Prop
  | reading (i : Nat) (hi : i < results.length) (hsent : l.ordered.sent = results.take i) :
      Replays results l (.reading i)
  | sending (i : Nat) (r : TxResult F.Output) (hr : results[i]? = some r)
      (hmem : r ∈ l.completions.sent) (hsent : l.ordered.sent = results.take i) :
      Replays results l (.sending i r)
  | ended (hsent : l.ordered.sent <+: results)
      (hall : l.ordered.held = true → l.ordered.sent = results) : Replays results l .ended

/-- The reader of the lane has come to `reader`, on nothing but the results of the block. -/
structure Lane.Reads (handlers : List (Handler F)) (work : Work F) (h : Nat) (l : Lane F)
    (reader : Reader (TxResult F.Output) F.Aggregate) : Prop where
  length_eq : l.length = work.block.length
  replays : Replays (work.resultsOf handlers h) l l.replay
  replayed : ∀ r ∈ l.ordered.sent, r ∈ l.completions.sent
  read_le : l.ordered.read ≤ l.ordered.sent.length
  follows : ∃ handler common i j, handlers[h]? = some handler ∧
    work.commonOf handlers h = some common ∧
    Reader.Follows (work.resultsOf handlers h) l.completions.sent
      (handler.postProcess common work.block.length) reader i j ∧
    l.ordered.read = min i work.block.length ∧
    l.completions.read = min j l.completions.sent.length ∧
    (j ≤ l.completions.sent.length ∨ l.completions.sent.length = work.block.length)

/-- Where the aggregation is, and what it has made. -/
inductive Aggregates (calm : Prop) (handlers : List (Handler F)) (work : Work F) (h : Nat)
    (progress : Progress) (lane : Nat) (receiver : Option Nat) (aggregated : Option F.Aggregate)
    (l : Lane F) : Aggregation F → Prop
  | idle (hdispatched : progress.dispatched = false) (hopen : progress.isOpen = true)
      (hreceiver : receiver = some lane) (hnone : aggregated = none) (huntouched : l.Untouched) :
      Aggregates calm handlers work h progress lane receiver aggregated l .idle
  | claiming (hdispatched : progress.dispatched = true) (hopen : progress.isOpen = true)
      (hreceiver : receiver = some lane) (hnone : aggregated = none) (huntouched : l.Untouched) :
      Aggregates calm handlers work h progress lane receiver aggregated l .claiming
  | gathering (hdispatched : progress.dispatched = true) (hopen : progress.isOpen = true)
      (hreceiver : receiver = none) (hnone : aggregated = none) (huntouched : l.Untouched) :
      Aggregates calm handlers work h progress lane receiver aggregated l (.gathering lane)
  | reading (reader : Reader (TxResult F.Output) F.Aggregate)
      (hdispatched : progress.dispatched = true) (hopen : progress.isOpen = true)
      (hreceiver : receiver = none) (hnone : aggregated = none) (hheld : l.ordered.held = true)
      (hreads : l.Reads handlers work h reader) :
      Aggregates calm handlers work h progress lane receiver aggregated l (.reading lane reader)
  | joining (outcome : Except Fault F.Aggregate)
      (hdispatched : progress.dispatched = true) (hopen : progress.isOpen = true)
      (hreceiver : receiver = none) (hnone : aggregated = none)
      (hreads : l.Reads handlers work h (.done outcome)) :
      Aggregates calm handlers work h progress lane receiver aggregated l (.joining outcome)
  | ended (a : F.Aggregate) (hdispatched : progress.dispatched = true) (hreceiver : receiver = none)
      (hsome : aggregated = if progress.concluded then none else some a)
      (hreplay : l.replay = .ended) (hreads : l.Reads handlers work h (.done (.ok a))) :
      Aggregates calm handlers work h progress lane receiver aggregated l .ended
  | dead (fault : Fault) (hcalm : ¬ calm) (hdispatched : progress.dispatched = true)
      (hopen : progress.isOpen = true) (hreceiver : receiver = none) (hnone : aggregated = none)
      (hreplay : l.replay = .ended) (hreads : l.Reads handlers work h (.done (.error fault))) :
      Aggregates calm handlers work h progress lane receiver aggregated l (.dead fault)

namespace Station

/-- The station `h` serves `work` in its lane `l`, which is number `lane`. -/
structure Serves (calm : Prop) (handlers : List (Handler F)) (work : Work F) (h : Nat)
    (due : Checkpoint → Multiset Job) (progress : Progress) (lane : Nat) (s : Station F)
    (l : Lane F) : Prop where
  length_eq : s.blockLength = work.block.length
  announced : Announced handlers work h (due .announced) lane l.completions.sent s.remaining
    s.sender
  settled : Settled handlers work h (due .settled) progress.drained s.results
  supplied : Supplied handlers work h (due .deposited) s.data
  kept : Kept handlers work h (due .prefetched) (due .processed) s.fault
  prepares : Prepares calm handlers work h progress s.common.value l.preparation
  aggregates : Aggregates calm handlers work h progress lane s.receiver s.aggregated.value l
    l.aggregation

/-- The station serves no block, and nothing is left of an earlier one. -/
structure Clear (s : Station F) : Prop where
  blockLength : s.blockLength = 0
  sender : s.sender = none
  remaining : s.remaining = 0
  receiver : s.receiver = none
  fault : s.fault = none
  common : s.common.value = none
  aggregated : s.aggregated.value = none
  data : ∀ cell ∈ s.data, cell.value = none
  results : ∀ cell ∈ s.results, cell.value = none

end Station

/-- The block of a lane was served to its end. -/
structure Lane.Done (handlers : List (Handler F)) (h : Nat) (work : Work F) (l : Lane F) :
    Prop where
  preparation : l.preparation = .ended
  aggregation : l.aggregation = .ended
  replay : l.replay = .ended
  completions : l.completions.sent.Perm (work.resultsOf handlers h)
  reads : ∃ a, l.Reads handlers work h (.done (.ok a))

/-- Whether a station serves the current block. -/
inductive Berth
  | unopened
  | serving (progress : Progress)
  | closed

/-- The station `h` fits the blocks that came before and the current one. -/
def Station.Fits (calm : Prop) (handlers : List (Handler F)) (past : List (Work F)) (work : Work F)
    (h : Nat) (due : Checkpoint → Multiset Job) (s : Station F) : Berth → Prop
  | .unopened => s.Clear ∧ List.Forall₂ (Lane.Done handlers h) past s.lanes
  | .serving progress => ∃ old l, s.lanes = old ++ [l] ∧
      List.Forall₂ (Lane.Done handlers h) past old ∧
      s.Serves calm handlers work h due progress past.length l
  | .closed => s.Clear ∧ List.Forall₂ (Lane.Done handlers h) (past ++ [work]) s.lanes

section Agreement

variable {calm : Prop} {handlers : List (Handler F)} {work : Work F} {h : Nat}
  {due due' : Checkpoint → Multiset Job}

/-- The same jobs of handler `h` are due. -/
def Agree (h : Nat) (due due' : Checkpoint → Multiset Job) : Prop :=
  ∀ c, (due c).filter (·.handler = h) = (due' c).filter (·.handler = h)

theorem Agree.mem_iff (hagree : Agree h due due') (c : Checkpoint) (tx : IndexedTx) :
    ⟨h, tx⟩ ∈ due c ↔ ⟨h, tx⟩ ∈ due' c := by
  have hc := congrArg (Job.mk h tx ∈ ·) (hagree c)
  simpa [Multiset.mem_filter] using hc

theorem agree_of_cons {job : Job} (hne : job.handler ≠ h)
    (hdue : ∀ c, due c = due' c ∨ due c = job ::ₘ due' c) : Agree h due due' := by
  intro c
  rcases hdue c with hc | hc
  · rw [hc]
  · rw [hc]
    exact Multiset.filter_cons_of_neg _ hne

theorem Station.Serves.congr {progress : Progress} {lane : Nat} {s : Station F} {l : Lane F}
    (hs : s.Serves calm handlers work h due progress lane l) (hagree : Agree h due due') :
    s.Serves calm handlers work h due' progress lane l where
  length_eq := hs.length_eq
  announced := by
    obtain ⟨split, remaining_eq, sender_eq, results⟩ := hs.announced
    rw [hagree .announced] at split remaining_eq
    exact ⟨split, remaining_eq, sender_eq, results⟩
  settled := by
    obtain ⟨length_le, values, drained_not_due⟩ := hs.settled
    simp only [hagree.mem_iff] at values drained_not_due
    exact ⟨length_le, values, drained_not_due⟩
  supplied := by
    obtain ⟨length_le, values, gathered⟩ := hs.supplied
    simp only [hagree.mem_iff] at values gathered
    exact ⟨length_le, values, gathered⟩
  kept := by
    refine ⟨hs.kept.raised, ?_⟩
    intro hnone job hjob hh
    obtain ⟨hprefetch, hprocess⟩ := hs.kept.missed hnone job hjob hh
    obtain rfl := hh
    rw [hagree.mem_iff .prefetched job.tx] at hprefetch
    rw [hagree.mem_iff .processed job.tx] at hprocess
    exact ⟨hprefetch, hprocess⟩
  prepares := hs.prepares
  aggregates := hs.aggregates

theorem Station.Fits.berth_congr {past : List (Work F)} {s : Station F} {berth berth' : Berth}
    (hs : s.Fits calm handlers past work h due berth) (hberth : berth = berth') :
    s.Fits calm handlers past work h due berth' := hberth ▸ hs

theorem Station.Fits.congr {past : List (Work F)} {s : Station F} {berth : Berth}
    (hs : s.Fits calm handlers past work h due berth) (hagree : Agree h due due') :
    s.Fits calm handlers past work h due' berth := by
  cases berth with
  | unopened => exact hs
  | serving progress =>
      obtain ⟨old, l, hlanes, hold, hserves⟩ := hs
      exact ⟨old, l, hlanes, hold, hserves.congr hagree⟩
  | closed => exact hs

end Agreement

end TxPipeline
