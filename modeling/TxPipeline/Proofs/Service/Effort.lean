import Mathlib.Algebra.Order.BigOperators.Group.List
import Mathlib.Algebra.Order.Ring.Nat
import TxPipeline.Proofs.Service.Aggregation

/-!
# What is left to do at a station

Each move of a preparation, a replay or an aggregation takes away from a number. A reader comes to
an end whatever it is told; how many requests it makes is bounded because there are only so many
results it can be told of, and only so many that can wait for it.
-/

namespace TxPipeline

variable {F : Flow}

/-! ## Readers -/

namespace Reader

variable {α β : Type} {results : List α} {n : Nat} {reader reader' : Reader α β}

/-- A bound for the moves of a reader that reads nothing but `results`, of which at most `n` wait on
a stream at any time. -/
def cost (results : List α) (n : Nat) : Reader α β → Nat
  | .done _ => 1
  | .nextByIndex k =>
      (k none).cost results n + (results.map fun r => (k (some r)).cost results n).sum + 1
  | .nextByCompletion k =>
      (k none).cost results n + (results.map fun r => (k (some r)).cost results n).sum + 1
  | .backlog k =>
      ((List.range (n + 1)).map fun i =>
        ((List.range (n + 1)).map fun j => (k i j).cost results n).sum).sum + 1

/-- What the answer to a request makes of a reader. -/
inductive Turns (results : List α) (n : Nat) : Reader α β → Reader α β → Prop
  | byIndex (k : Option α → Reader α β) (answer : Option α)
      (h : ∀ r, answer = some r → r ∈ results) :
      Turns results n (.nextByIndex k) (k answer)
  | byCompletion (k : Option α → Reader α β) (answer : Option α)
      (h : ∀ r, answer = some r → r ∈ results) : Turns results n (.nextByCompletion k) (k answer)
  | backlog (k : Nat → Nat → Reader α β) (i j : Nat) (hi : i ≤ n) (hj : j ≤ n) :
      Turns results n (.backlog k) (k i j)

theorem cost_answer_lt (k : Option α → Reader α β) {answer : Option α}
    (h : ∀ r, answer = some r → r ∈ results) : (k answer).cost results n <
      (k none).cost results n + (results.map fun r => (k (some r)).cost results n).sum + 1 := by
  cases answer with
  | none => omega
  | some r =>
      have hle := List.le_sum_of_mem
        (List.mem_map_of_mem (f := fun r => (k (some r)).cost results n) (h r rfl))
      omega

theorem Turns.cost_lt (h : Turns results n reader reader') :
    reader'.cost results n < reader.cost results n := by
  cases h with
  | byIndex k answer h => exact cost_answer_lt k h
  | byCompletion k answer h => exact cost_answer_lt k h
  | backlog k i j hi hj =>
      have hinner := List.le_sum_of_mem (List.mem_map_of_mem (f := fun j => (k i j).cost results n)
        (List.mem_range.mpr (Nat.lt_add_one_of_le hj)))
      have houter := List.le_sum_of_mem (List.mem_map_of_mem
        (f := fun i => ((List.range (n + 1)).map fun j => (k i j).cost results n).sum)
        (List.mem_range.mpr (Nat.lt_add_one_of_le hi)))
      rw [cost]
      omega

end Reader

/-! ## Lanes -/

def Preparation.effort : Preparation F → Nat
  | .ready _ _ _ => 1
  | _ => 0

/-- The moves of a replay of `length` cells; of `n` cells if it has not begun. -/
def Replay.effort {α : Type} (n length : Nat) : Replay α → Nat
  | .idle => 2 * n + 3
  | .reading i => 2 * (length - i) + 2
  | .sending i _ => 2 * (length - i) + 1
  | .ended => 0

/-- The moves of an aggregation whose reader has a cost of `whole` before it begins. -/
def Aggregation.effort (results : List (TxResult F.Output)) (n whole : Nat) : Aggregation F → Nat
  | .claiming => whole + 3
  | .gathering _ => whole + 2
  | .reading _ reader => reader.cost results n + 1
  | .joining _ => 1
  | _ => 0

/-- The cost of the reader of handler `h`. -/
def Work.readerCost (handlers : List (Handler F)) (work : Work F) (h : Nat) : Nat :=
  match handlers[h]?, work.commonOf handlers h with
  | some handler, some common =>
      (handler.postProcess common work.block.length).cost (work.resultsOf handlers h)
        work.block.length
  | _, _ => 0

def Lane.effort (handlers : List (Handler F)) (work : Work F) (h : Nat) (l : Lane F) : Nat :=
  l.preparation.effort + l.replay.effort work.block.length l.length +
    l.aggregation.effort (work.resultsOf handlers h) work.block.length (work.readerCost handlers h)

/-- What the threads of station `h` have left to do. -/
def Station.effort (handlers : List (Handler F)) (work : Work F) (h : Nat) (s : Station F) : Nat :=
  (s.lanes.map (Lane.effort handlers work h)).sum

variable {calm : Prop} {handlers : List (Handler F)} {past : List (Work F)} {work : Work F}
  {h : Nat} {due : Checkpoint → Multiset Job} {progress : Progress} {lane : Nat}
  {s s' : Station F} {l l' : Lane F} {old : List (Lane F)}

namespace Station

theorem effort_lt_of_modify {f : Lane F → Lane F} (hl : s.lanes[lane]? = some l)
    (hlanes : s'.lanes = s.lanes.modify lane f)
    (hlt : (f l).effort handlers work h < l.effort handlers work h) :
    s'.effort handlers work h < s.effort handlers work h := by
  have hsum := sum_map_set (Lane.effort handlers work h) hl (f l)
  rw [effort, effort, hlanes, modify_eq_set hl]
  omega

theorem effort_lt_of_last (hlanes : s.lanes = old ++ [l]) (hlanes' : s'.lanes = old ++ [l'])
    (hlt : l'.effort handlers work h < l.effort handlers work h) :
    s'.effort handlers work h < s.effort handlers work h := by
  rw [effort, effort, hlanes, hlanes']
  simpa using hlt

/-! ## The preparation and the replay -/

theorem effort_stepPreparation? (hstep : s.stepPreparation? lane = some s') :
    s'.effort handlers work h < s.effort handlers work h := by
  have hlt {l : Lane F} {store : F.Store} {rules : Rules} {block : Block}
      (hready : l.preparation = .ready store rules block) (preparation : Preparation F)
      (hzero : preparation.effort = 0) :
      Lane.effort handlers work h { l with preparation } < l.effort handlers work h := by
    have hone : l.preparation.effort = 1 := by rw [hready, Preparation.effort]
    simp only [Lane.effort, hone, hzero]
    omega
  cases preparationMove_of_stepPreparation? hstep with
  | fault l store rules block fault hl hready => exact effort_lt_of_modify hl rfl (hlt hready _ rfl)
  | alreadySet l store rules block common hl hready =>
      exact effort_lt_of_modify hl rfl (hlt hready _ rfl)
  | write l store rules block common cell hl hready =>
      exact effort_lt_of_modify hl rfl (hlt hready _ rfl)

theorem effort_at_lt {α : Type} (n i length : Nat) (r : α) :
    (Replay.at (i + 1) length : Replay α).effort n length <
      (Replay.sending i r : Replay α).effort n length := by
  unfold Replay.at
  split <;> simp only [Replay.effort] <;> omega

theorem effort_stepReplay? (hstep : s.stepReplay? lane = some s') :
    s'.effort handlers work h < s.effort handlers work h := by
  cases replayMove_of_stepReplay? hstep with
  | find l i r hl hreading =>
      refine effort_lt_of_modify hl rfl ?_
      simp only [Lane.effort, hreading, Replay.effort]
      omega
  | send l i r hl hsending =>
      refine effort_lt_of_modify hl rfl ?_
      have hat := effort_at_lt work.block.length i l.length r
      simp only [Lane.effort, hsending]
      omega
  | giveUp l i r hl hsending =>
      refine effort_lt_of_modify hl rfl ?_
      simp only [Lane.effort, hsending, Replay.effort]
      omega

/-! ## The aggregation -/

theorem Serves.effort_readerMove {reader : Reader (TxResult F.Output) F.Aggregate}
    (hlanes : s.lanes = old ++ [l]) (hlast : past.length = old.length)
    (hserves : s.Serves calm handlers work h due progress past.length l)
    (haggregation : l.aggregation = .reading past.length reader)
    (hmove : s.ReaderMove past.length past.length l l reader s') :
    s'.effort handlers work h < s.effort handlers work h := by
  have haggregates := hserves.aggregates
  rw [haggregation] at haggregates
  obtain ⟨-, hreads⟩ := haggregates.of_reading
  have hmem {r : TxResult F.Output} (hr : r ∈ l.completions.sent) :
      r ∈ work.resultsOf handlers h := by
    obtain ⟨rest, hperm⟩ := hserves.announced.exists_perm
    exact hperm.mem_iff.mp (List.mem_append_left rest hr)
  -- every request leaves a lane whose reader has turned
  have hturn {l' : Lane F} {reader' : Reader (TxResult F.Output) F.Aggregate}
      (hlanes' : s'.lanes = old ++ [l']) (hpreparation : l'.preparation = l.preparation)
      (hreplay : l'.replay = l.replay) (hlength : l'.length = l.length)
      (hreading : l'.aggregation = .reading past.length reader')
      (hturns : Reader.Turns (work.resultsOf handlers h) work.block.length reader reader') :
      s'.effort handlers work h < s.effort handlers work h := by
    refine effort_lt_of_last hlanes hlanes' ?_
    have hcost := hturns.cost_lt
    simp only [Lane.effort, hpreparation, hreplay, hlength, hreading, haggregation,
      Aggregation.effort]
    omega
  cases hmove with
  | done outcome =>
      refine effort_lt_of_last hlanes
        (lanes_updateLane (lanes_updateLane hlanes hlast _) hlast _) ?_
      simp only [Lane.effort, haggregation, Aggregation.effort, Reader.cost]
      omega
  | byIndex k r stream hnext =>
      have hsent := List.mem_of_getElem? (Stream.eq_of_next? hnext).1
      refine hturn (lanes_updateLane hlanes hlast _) rfl rfl rfl rfl (.byIndex k (some r) ?_)
      rintro _ ⟨⟩
      exact hmem (hreads.replayed r hsent)
  | endByIndex k =>
      exact hturn (lanes_updateLane hlanes hlast _) rfl rfl rfl rfl
        (.byIndex k none fun _ h => by cases h)
  | byCompletion k r stream hnext =>
      have hsent := List.mem_of_getElem? (Stream.eq_of_next? hnext).1
      refine hturn (lanes_updateLane (lanes_updateLane hlanes hlast _) hlast _) rfl rfl rfl rfl
        (.byCompletion k (some r) ?_)
      rintro _ ⟨⟩
      exact hmem hsent
  | endByCompletion k =>
      exact hturn (lanes_updateLane hlanes hlast _) rfl rfl rfl rfl
        (.byCompletion k none fun _ h => by cases h)
  | backlog k =>
      have hordered := hreads.length_ordered_le
      have hcompletions := hserves.announced.length
      refine hturn (lanes_updateLane hlanes hlast _) rfl rfl rfl rfl (.backlog k _ _ ?_ ?_)
      · rw [Stream.queued, List.length_drop]
        omega
      · rw [Stream.queued, List.length_drop]
        omega

theorem effort_at_zero_lt {α : Type} (n : Nat) :
    (Replay.at 0 n : Replay α).effort n n < (Replay.idle : Replay α).effort n n := by
  unfold Replay.at
  split <;> simp only [Replay.effort] <;> omega

theorem Fits.effort_stepAggregation?
    (hs : s.Fits calm handlers past work h due (.serving progress))
    (hhandler : handlers[h]? = some s.handler) (hstep : s.stepAggregation? lane = some s') :
    s'.effort handlers work h < s.effort handlers work h := by
  obtain ⟨old, l, hlanes, hold, hserves⟩ := hs
  have haggregates := hserves.aggregates
  have hlane {moved : Lane F} (hl : s.lanes[lane]? = some moved)
      (hne : moved.aggregation ≠ .ended) : lane = past.length ∧ moved = l :=
    Station.Fits.lane_eq hlanes hold hl fun _ hdone => hne hdone.aggregation
  -- an aggregation that ends has nothing left to do
  have hlt {l : Lane F} {outcome : Except Fault F.Aggregate}
      (hjoining : l.aggregation = .joining outcome) (aggregation : Aggregation F)
      (hzero : aggregation.effort (work.resultsOf handlers h) work.block.length
        (work.readerCost handlers h) = 0) :
      Lane.effort handlers work h { l with aggregation } < l.effort handlers work h := by
    have hone : l.aggregation.effort (work.resultsOf handlers h) work.block.length
        (work.readerCost handlers h) = 1 := by rw [hjoining, Aggregation.effort]
    simp only [Lane.effort, hone, hzero]
    omega
  cases aggregationMove_of_stepAggregation? hstep with
  | streamMissing moved hl hclaiming =>
      refine effort_lt_of_modify hl rfl ?_
      simp only [Lane.effort, hclaiming, Aggregation.effort]
      omega
  | claim moved source hl hclaiming =>
      refine effort_lt_of_modify hl rfl ?_
      simp only [Lane.effort, hclaiming, Aggregation.effort]
      omega
  | gather moved source common hl hgathering hvalue =>
      obtain ⟨rfl, rfl⟩ := hlane hl (by simp [hgathering])
      have hcommon : work.commonOf handlers h = some common := by
        rw [← hvalue]
        exact (hserves.prepares.eq_commonOf (by rw [hvalue]; rfl)).symm
      rw [hgathering] at haggregates
      cases haggregates with
      | gathering hd ho hreceiver hnone hu =>
          refine effort_lt_of_modify hl rfl ?_
          have hat := effort_at_zero_lt (α := TxResult F.Output) work.block.length
          simp only [Lane.effort, hgathering, hu.replay, Aggregation.effort, Work.readerCost,
            hhandler, hcommon, hserves.length_eq, Replay.effort] at hat ⊢
          omega
  | read moved feed source reader hl hreading hfeed hmove =>
      obtain ⟨rfl, rfl⟩ := hlane hl (by simp [hreading])
      rw [hreading] at haggregates
      obtain ⟨rfl, -⟩ := haggregates.of_reading
      obtain rfl := Option.some.inj (hl.symm.trans hfeed)
      exact hserves.effort_readerMove hlanes hold.length_eq hreading hmove
  | joinFault moved fault hl hjoining => exact effort_lt_of_modify hl rfl (hlt hjoining _ rfl)
  | alreadySet moved a hl hjoining => exact effort_lt_of_modify hl rfl (hlt hjoining _ rfl)
  | write moved a cell hl hjoining => exact effort_lt_of_modify hl rfl (hlt hjoining _ rfl)

end Station

end TxPipeline
