import Mathlib.Data.Multiset.Bind
import TxPipeline.Proofs.Activities
import TxPipeline.Proofs.Invariant.Advance

/-!
# Waiting in line

A call declines transactions before it dispatches jobs, a feeder passes jobs on in their order, and
the queue is first in, first out. So with one worker in the process pool everything whose result is
not announced yet stands in one line, and nobody leaves the line but at its head.
-/

namespace TxPipeline

variable {F : Flow} {calm : Prop} {handlers : List (Handler F)} {past : List (Work F)}
  {work : Work F} {phase phase' : Phase F} {p q : Pipeline F} {actor : Actor} {i v w lane : Nat}
  {stage : Stage} {worker : Worker F} {feeders : Feeders}

/-! ## The line -/

/-- The job whose result a worker is about to announce. -/
def Activity.inHand : Activity F → List Job
  | .processGather job => [job]
  | .processAwait job _ => [job]
  | .processRun job _ _ => [job]
  | .processAnnounce r h => [⟨h, r.tx⟩]
  | _ => []

theorem Activity.coe_inHand (activity : Activity F) :
    (activity.inHand : Multiset Job) = activity.due .announced := by
  cases activity <;> rfl

theorem Activity.length_inHand_le (activity : Activity F) : activity.inHand.length ≤ 1 := by
  cases activity <;> simp [inHand]

theorem Activity.Turns.inHand_eq {activity activity' : Activity F} (h : activity.Turns activity') :
    activity'.inHand = activity.inHand ∨ activity'.inHand = [] := by
  cases h <;> first | exact .inl rfl | exact .inr rfl

/-- What a call still has to decline and to dispatch, in this order. -/
def Starting.ahead : Starting → List Job
  | .opening plan _ => plan.declined ++ plan.jobs
  | .distributing plan _ => plan.declined ++ plan.jobs
  | .preparing plan => plan.declined ++ plan.jobs
  | .declining plan rest => rest ++ plan.jobs
  | .settling plan _ rest => rest ++ plan.jobs
  | .dispatching plan => plan.jobs
  | _ => []

def Phase.ahead : Phase F → List Job
  | .starting _ next => next.ahead
  | _ => []

theorem Phase.coe_ahead (phase : Phase F) :
    (phase.ahead : Multiset Job) = phase.due .announced := by
  cases phase with
  | starting c next => cases next <;> rfl
  | _ => rfl

namespace Pipeline

/-- The jobs on the process side, those first that have come furthest. -/
def line (p : Pipeline F) : List Job :=
  p.workers.flatMap (·.activity.inHand) ++ (p.processQueue ++ p.feeders.flatMap (·.process))

theorem coe_line (p : Pipeline F) : (p.line : Multiset Job) = p.load .announced := by
  rw [line, ← Multiset.coe_add, ← Multiset.coe_add, ← Multiset.coe_bind, ← Multiset.coe_bind]
  simp only [Activity.coe_inHand]
  exact (add_comm _ _).trans (congrArg (· + _) (add_comm _ _))

theorem line_eq_nil (hload : p.load .announced = 0) : p.line = [] := by
  rwa [← coe_line, Multiset.coe_eq_zero] at hload

end Pipeline

/-- Everything whose result is not announced yet, in the order in which it will be. -/
def Phase.lineup (phase : Phase F) (p : Pipeline F) : List Job := phase.ahead ++ p.line

theorem Phase.coe_lineup (phase : Phase F) (p : Pipeline F) :
    (phase.lineup p : Multiset Job) = phase.outstanding p .announced := by
  rw [lineup, ← Multiset.coe_add, coe_ahead, Pipeline.coe_line, outstanding]

/-! ## One behind the other -/

theorem flatMap_of_sole {α β : Type} {f : α → List β} {l : List α} {i : Nat} {a : α}
    (ha : l[i]? = some a) (hsole : ∀ j b, l[j]? = some b → j ≠ i → f b = []) :
    l.flatMap f = f a := by
  induction l generalizing i with
  | nil => simp at ha
  | cons x xs ih =>
      rw [List.flatMap_cons]
      cases i with
      | zero =>
          obtain rfl : x = a := by simpa using ha
          have hnil : xs.flatMap f = [] := by
            rw [List.flatMap_eq_nil_iff]
            intro b hb
            obtain ⟨j, hj⟩ := List.mem_iff_getElem?.mp hb
            exact hsole (j + 1) b (by simpa using hj) (by simp)
          rw [hnil, List.append_nil]
      | succ i =>
          rw [hsole 0 x rfl (by simp), List.nil_append]
          apply ih (by simpa using ha)
          intro j b hb hne
          exact hsole (j + 1) b (by simpa using hb) (by simpa using hne)

namespace Pipeline

/-- No worker but `w` belongs to the process pool. -/
def Lone (p : Pipeline F) (w : Nat) : Prop :=
  ∀ i, (p.workers.map (·.stage))[i]? = some .process → i = w

/-- Jobs on the process side stand one behind the other: only worker `w` has one in hand, only the
feeder in `lane` has any left, and no more are queued than there is room for. -/
structure SingleFile (w lane : Nat) (p : Pipeline F) : Prop where
  hands : ∀ (i : Nat) worker, p.workers[i]? = some worker → i ≠ w → worker.activity.inHand = []
  feeders : ∀ (i : Nat) feeders, p.feeders[i]? = some feeders → i ≠ lane → feeders.process = []
  room : p.processQueue.length ≤ p.config.queueDepth

theorem map_stage_of_step? (hstep : p.step? actor = some q) :
    q.workers.map (·.stage) = p.workers.map (·.stage) := by
  obtain ⟨hlength, hturns⟩ := employs_of_step? hstep
  apply List.ext_getElem?
  intro i
  rw [List.getElem?_map, List.getElem?_map]
  cases hi : q.workers[i]? with
  | none =>
      rw [List.getElem?_eq_none_iff, hlength, ← List.getElem?_eq_none_iff] at hi
      rw [hi]
  | some worker' =>
      obtain ⟨worker, hworker, hturn⟩ := hturns i worker' hi
      rw [hworker, Option.map_some, Option.map_some]
      cases hturn <;> rfl

theorem lone_iff_of_step? (hstep : p.step? actor = some q) : q.Lone w ↔ p.Lone w := by
  rw [Lone, Lone, map_stage_of_step? hstep]

theorem Lone.eq (hp : p.Lone w) (hv : p.workers[v]? = some worker)
    (hstage : worker.stage = .process) : v = w := by
  apply hp
  rw [List.getElem?_map, hv, Option.map_some, hstage]

theorem SingleFile.of_unloaded (hload : ∀ c, p.load c = 0) : p.SingleFile w lane where
  hands := fun i worker hworker _ => by
    rcases idle_or_over_of_unloaded hload (List.mem_of_getElem? hworker) with hidle | hover
    · rw [hidle]
      rfl
    · cases hactivity : worker.activity <;> first | rfl | (rw [hactivity] at hover; cases hover)
  feeders := fun i feeders hf _ =>
    pending_eq_nil_of_unloaded hload (List.mem_of_getElem? hf) .process
  room := by
    rw [show p.processQueue = [] from queue_eq_nil_of_unloaded hload .process]
    exact Nat.zero_le _

theorem setActivity_eq (hv : p.workers[v]? = some worker) (activity : Activity F) :
    p.setActivity v activity = { p with workers := p.workers.set v { worker with activity } } := by
  rw [setActivity, modify_eq_set hv]

/-! ## Moves of threads -/

/-- What becomes of the line: at most its head leaves. -/
structure Files (w lane : Nat) (p q : Pipeline F) : Prop where
  file : q.SingleFile w lane
  leaves : ∃ gone : List Job, gone.length ≤ 1 ∧ p.line = gone ++ q.line

namespace SingleFile

variable (hp : p.SingleFile w lane)

include hp

theorem hands_set {worker' : Worker F} (hnew : v ≠ w → worker'.activity.inHand = []) :
    ∀ (i : Nat) other, (p.workers.set v worker')[i]? = some other → i ≠ w →
      other.activity.inHand = [] := by
  intro i other hother hne
  rw [List.getElem?_set] at hother
  split at hother
  · rename_i heq
    split at hother <;> cases hother
    exact hnew (heq ▸ hne)
  · exact hp.hands i other hother hne

theorem feeders_set {feeders' : Feeders} (hnew : v ≠ lane → feeders'.process = []) :
    ∀ (i : Nat) other, (p.feeders.set v feeders')[i]? = some other → i ≠ lane →
      other.process = [] := by
  intro i other hother hne
  rw [List.getElem?_set] at hother
  split at hother
  · rename_i heq
    split at hother <;> cases hother
    exact hnew (heq ▸ hne)
  · exact hp.feeders i other hother hne

/-- Everything in hand is what worker `w` has, also after it has turned to something else. -/
theorem flatMap_hands (hw : p.workers[w]? = some worker) (worker' : Worker F) :
    p.workers.flatMap (·.activity.inHand) = worker.activity.inHand ∧
      (p.workers.set w worker').flatMap (·.activity.inHand) = worker'.activity.inHand := by
  refine ⟨flatMap_of_sole hw hp.hands, flatMap_of_sole ?_ (hp.hands_set (absurd rfl))⟩
  exact List.getElem?_set_self (List.getElem?_eq_some_iff.mp hw).1

/-- Everything not queued yet is what the feeder in `lane` has, also after it has passed some on. -/
theorem flatMap_feeders (hf : p.feeders[lane]? = some feeders) (feeders' : Feeders) :
    p.feeders.flatMap (·.process) = feeders.process ∧
      (p.feeders.set lane feeders').flatMap (·.process) = feeders'.process := by
  refine ⟨flatMap_of_sole hf hp.feeders, flatMap_of_sole ?_ (hp.feeders_set (absurd rfl))⟩
  exact List.getElem?_set_self (List.getElem?_eq_some_iff.mp hf).1

theorem lane_eq (hf : p.feeders[v]? = some feeders) (hpending : feeders.process ≠ []) :
    v = lane := by
  by_contra hne
  exact hpending (hp.feeders v feeders hf hne)

/-- A move that changes nothing in hand, in the queue or at the feeders of the process side. -/
theorem files_of_same
    (hworkers : q.workers.map (·.activity.inHand) = p.workers.map (·.activity.inHand))
    (hqueue : q.processQueue = p.processQueue)
    (hfeeders : q.feeders.map (·.process) = p.feeders.map (·.process))
    (hconfig : q.config = p.config) : Files w lane p q where
  file := by
    refine ⟨fun i worker hworker hne => ?_, fun i feeders hf hne => ?_, ?_⟩
    · have hget := congrArg (·[i]?) hworkers
      simp only [List.getElem?_map, hworker, Option.map_some] at hget
      obtain ⟨old, hold, hsame⟩ := Option.map_eq_some_iff.mp hget.symm
      exact hsame ▸ hp.hands i old hold hne
    · have hget := congrArg (·[i]?) hfeeders
      simp only [List.getElem?_map, hf, Option.map_some] at hget
      obtain ⟨old, hold, hsame⟩ := Option.map_eq_some_iff.mp hget.symm
      exact hsame ▸ hp.feeders i old hold hne
    · rw [hqueue, hconfig]
      exact hp.room
  leaves := by
    refine ⟨[], Nat.zero_le 1, ?_⟩
    simp only [line, List.flatMap_def, hworkers, hqueue, hfeeders, List.nil_append]

theorem work? (hstep : p.work? v = some q) : Files w lane p q := by
  obtain ⟨worker, activity, hv, hturns, hworkers⟩ := exists_turns_of_work? hstep
  have hnew (hne : v ≠ w) : activity.inHand = [] := by
    rcases hturns.inHand_eq with hsame | hnil
    · rw [hsame]
      exact hp.hands v worker hv hne
    · exact hnil
  obtain ⟨stations, workers, log, rfl⟩ := eq_of_work? hstep
  obtain rfl : workers = _ := hworkers
  by_cases hvw : v = w
  · obtain rfl := hvw
    refine ⟨⟨hp.hands_set hnew, hp.feeders, hp.room⟩, ?_⟩
    obtain ⟨hold, hset⟩ := hp.flatMap_hands hv { worker with activity }
    simp only [line, hold, hset]
    rcases hturns.inHand_eq with hsame | hnil
    · exact ⟨[], Nat.zero_le 1, by rw [hsame]; rfl⟩
    · exact ⟨worker.activity.inHand, worker.activity.length_inHand_le, by rw [hnil]; rfl⟩
  · refine hp.files_of_same ?_ rfl rfl rfl
    apply map_set_of_eq hv
    exact (hnew hvw).trans (hp.hands v worker hv hvw).symm

end SingleFile

theorem room_of_feed? (hstep : p.feed? lane stage = some q)
    (hroom : p.processQueue.length ≤ p.config.queueDepth) :
    q.processQueue.length ≤ q.config.queueDepth := by
  cases feedMove_of_feed? hstep with
  | giveUp => exact hroom
  | enqueue feeders job rest hf hpending hreceiver hlt =>
      cases stage with
      | prefetch => exact hroom
      | process => exact List.length_append.trans_le hlt

theorem queueDepth_of_handOver? (hstep : p.handOver? lane w = some q) :
    p.config.queueDepth = 0 := by
  obtain ⟨feeders, worker, job, rest, hf, hw, hpending, hdepth, -⟩ :=
    handOverMove_of_handOver? hstep
  exact hdepth

namespace During

variable (hp : p.During calm handlers past work phase) (hfile : p.SingleFile w lane)
  (hlone : p.Lone w)

include hp hfile hlone

theorem files_receive? (hstep : p.receive? v = some q) : Files w lane p q := by
  obtain ⟨⟨stage, activity⟩, hv, hidle, ⟨job, rest, hqueue, rfl⟩ | ⟨-, -, rfl⟩⟩ :=
    hp.receive?_cases hstep
  · obtain rfl : activity = .idle := hidle
    rw [setActivity_eq ((workers_setQueue p rest stage).symm ▸ hv)]
    cases stage with
    | prefetch => exact hfile.files_of_same (map_set_of_eq hv rfl) rfl rfl rfl
    | process =>
        -- the head of the queue goes to the only hand, which is free
        change p.processQueue = job :: rest at hqueue
        obtain rfl := hlone.eq hv rfl
        obtain ⟨hold, hset⟩ := hfile.flatMap_hands hv ⟨.process, .processGather job⟩
        refine ⟨⟨hfile.hands_set (absurd rfl), hfile.feeders, ?_⟩, [], Nat.zero_le 1, ?_⟩
        · have hroom := hfile.room
          rw [hqueue] at hroom
          exact (Nat.le_succ _).trans hroom
        · change _ = (p.workers.set v ⟨.process, .processGather job⟩).flatMap _ ++ (rest ++ _)
          rw [hset, line, hold, hqueue]
          rfl
  · rw [setActivity_eq hv]
    refine hfile.files_of_same (map_set_of_eq hv ?_) rfl rfl rfl
    rw [hidle]
    rfl

omit hlone in
theorem files_feed? {l : Nat} (hstep : p.feed? l stage = some q) : Files w lane p q := by
  have hroom := room_of_feed? hstep hfile.room
  obtain ⟨feeders, job, rest, hf, hpending, rfl⟩ := hp.feed?_cases hstep
  cases stage with
  | prefetch => exact hfile.files_of_same rfl rfl (map_set_of_eq hf rfl) rfl
  | process =>
      -- the job that comes next goes to the end of the queue
      change feeders.process = job :: rest at hpending
      obtain rfl := hfile.lane_eq hf (by simp [hpending])
      obtain ⟨hold, hset⟩ := hfile.flatMap_feeders hf (feeders.setPending rest .process)
      refine ⟨⟨hfile.hands, hfile.feeders_set (absurd rfl), hroom⟩, [], Nat.zero_le 1, ?_⟩
      change _ = p.workers.flatMap _ ++ (p.processQueue ++ [job] ++
        (p.feeders.set l (feeders.setPending rest .process)).flatMap _)
      rw [hset, line, hold, hpending, List.append_assoc p.processQueue]
      rfl

theorem files_handOver? {l : Nat} (hstep : p.handOver? l v = some q) : Files w lane p q := by
  have hdepth := queueDepth_of_handOver? hstep
  obtain ⟨feeders, ⟨stage, activity⟩, job, rest, hf, hv, hidle, hpending, rfl⟩ :=
    hp.handOver?_cases hstep
  obtain rfl : activity = .idle := hidle
  rw [setActivity_eq
    (p := { p with feeders := p.feeders.set l (feeders.setPending rest stage) }) hv]
  cases stage with
  | prefetch => exact hfile.files_of_same (map_set_of_eq hv rfl) rfl (map_set_of_eq hf rfl) rfl
  | process =>
      -- nothing is queued, so the job goes from the feeder to the only hand
      change feeders.process = job :: rest at hpending
      obtain rfl := hlone.eq hv rfl
      obtain rfl := hfile.lane_eq hf (by simp [hpending])
      have hnil : p.processQueue = [] := by
        rw [← List.length_eq_zero_iff, ← Nat.le_zero, ← hdepth]
        exact hfile.room
      obtain ⟨hhands, hhandsSet⟩ := hfile.flatMap_hands hv ⟨.process, .processGather job⟩
      obtain ⟨hleft, hleftSet⟩ := hfile.flatMap_feeders hf (feeders.setPending rest .process)
      refine ⟨⟨hfile.hands_set (absurd rfl), hfile.feeders_set (absurd rfl), hfile.room⟩, [],
        Nat.zero_le 1, ?_⟩
      change _ = (p.workers.set v ⟨.process, .processGather job⟩).flatMap _ ++ (p.processQueue ++
        (p.feeders.set l (feeders.setPending rest .process)).flatMap _)
      rw [hhandsSet, hleftSet, line, hhands, hleft, hpending, hnil]
      rfl

theorem files_stepThread? (hactor : ∀ c, actor ≠ .caller c) (hstep : p.step? actor = some q) :
    Files w lane p q := by
  have hstation {h : Nat} {move : Station F → Option (Station F)}
      (hstep : p.stepStation? h move = some q) : Files w lane p q := by
    obtain ⟨s, s', -, -, rfl⟩ := eq_of_stepStation? hstep
    exact hfile.files_of_same rfl rfl rfl rfl
  cases actor with
  | caller c => exact absurd rfl (hactor c)
  | receiver v => exact hp.files_receive? hfile hlone hstep
  | worker v => exact hfile.work? hstep
  | feeder l stage => exact hp.files_feed? hfile hstep
  | handOver l v => exact hp.files_handOver? hfile hlone hstep
  | refresher v =>
      obtain ⟨relay, copies, rfl, -⟩ := eq_of_refresh? hstep
      exact hfile.files_of_same rfl rfl rfl rfl
  | preparation h l => exact hstation hstep
  | replay h l => exact hstation hstep
  | aggregation h l => exact hstation hstep

end During

/-! ## Moves of callers -/

theorem SingleFile.files_of_stepCall? (hp : p.SingleFile w lane) (hstep : p.stepCall? i = some q)
    (hdispatch : ∀ store rules block plan,
      p.calls[i]? ≠ some (.start store rules block (.dispatching plan))) : Files w lane p q := by
  cases callMove_of_stepCall? hstep with
  | start store rules block next hcall hstart =>
      cases startMove_of_stepStart? hstart with
      | dispatch plan => exact absurd hcall (hdispatch store rules block plan)
      | scan decisions ledger log hscan =>
          -- the feeders of the new block have nothing to pass on yet
          refine ⟨⟨hp.hands, fun l feeders hf hne => ?_, hp.room⟩, [], Nat.zero_le 1, ?_⟩
          · change (p.feeders ++ [⟨[], []⟩])[l]? = some feeders at hf
            rw [List.getElem?_append] at hf
            split at hf
            · exact hp.feeders l feeders hf hne
            · rw [List.getElem?_singleton] at hf
              split at hf <;> cases hf
              rfl
          · change p.line = p.workers.flatMap _ ++ (p.processQueue ++
              (p.feeders ++ [Feeders.mk [] []]).flatMap _)
            rw [line, List.flatMap_append]
            simp
      | _ => exact hp.files_of_same rfl rfl rfl rfl
  | finish store block receipts next hcall hfinish =>
      obtain ⟨_, _, _, _, _, rfl⟩ := eq_of_stepFinish? hfinish
      exact hp.files_of_same rfl rfl rfl rfl
  | close next hcall hclose =>
      obtain ⟨_, _, _, _, rfl⟩ := eq_of_stepClose? hclose
      exact hp.files_of_same rfl rfl rfl rfl

/-! ## From phase to phase -/

/-- A call that is about to dispatch jobs has done so when it has moved. -/
theorem During.not_dispatching (hp : p.During calm handlers past work phase)
    (hq : q.During calm handlers past work phase') (hstep : p.stepCall? i = some q)
    (hphase : ∀ plan, phase = .starting i (.dispatching plan) → phase' = phase) (store : F.Store)
    (rules : Rules) (block : Block) (plan : Plan) :
    p.calls[i]? ≠ some (.start store rules block (.dispatching plan)) := by
  intro hcall
  obtain ⟨rfl, -⟩ := hp.eq_starting hcall (by simp)
  obtain rfl := hphase plan rfl
  have hnext := hq.call_eq
  rw [stepCall?, hcall] at hstep
  cases hstep
  rw [getElem?_of_set_calls hcall rfl] at hnext
  cases hnext

/-- Nothing is dispatched as long as a call has something ahead. -/
theorem During.ahead_or_line (hp : p.During calm handlers past work phase) :
    phase.ahead = [] ∨ p.line = [] := by
  cases phase with
  | starting c next =>
      by_cases hnext : ∀ plan, next ≠ .activating plan
      · exact .inr (line_eq_nil (hp.load_eq_zero hnext _))
      · push Not at hnext
        obtain ⟨plan, rfl⟩ := hnext
        exact .inl rfl
  | _ => exact .inl rfl

theorem Files.lineup (h : Files w lane p q) (hp : p.During calm handlers past work phase)
    (hahead : phase'.ahead = phase.ahead) :
    ∃ gone : List Job, gone.length ≤ 1 ∧ phase.lineup p = gone ++ phase'.lineup q := by
  obtain ⟨gone, hgone, hline⟩ := h.leaves
  rw [Phase.lineup, Phase.lineup, hahead]
  rcases hp.ahead_or_line with hnil | hnil
  · exact ⟨gone, hgone, by rw [hnil, hline]; rfl⟩
  · rw [hnil, List.nil_eq, List.append_eq_nil_iff] at hline
    exact ⟨[], Nat.zero_le 1, by rw [hnil, hline.2]; rfl⟩

/-- Jobs that are dispatched line up in the feeder of their lane. -/
theorem During.line_dispatchAll {c : Nat} {plan : Plan}
    (hp : p.During calm handlers past work (.starting c (.dispatching plan)))
    (hfile : p.SingleFile w past.length) :
    (p.dispatchAll plan).SingleFile w past.length ∧ (p.dispatchAll plan).line = plan.jobs := by
  obtain rfl : plan = work.plan handlers past.length := hp.valid
  have hline : p.line = [] := line_eq_nil (hp.load_eq_zero (by simp) _)
  have hlane : past.length < p.feeders.length := by
    rw [hp.feeders]
    exact Nat.lt_succ_self _
  refine ⟨⟨hfile.hands, hfile.feeders_set (absurd rfl), hfile.room⟩, ?_⟩
  rw [line, List.append_eq_nil_iff, List.append_eq_nil_iff] at hline
  obtain ⟨hhands, hqueue, -⟩ := hline
  obtain ⟨-, hset⟩ := hfile.flatMap_feeders (List.getElem?_eq_getElem hlane)
    ⟨work.jobs handlers, work.jobs handlers⟩
  change p.workers.flatMap _ ++ (p.processQueue ++ (p.feeders.set past.length _).flatMap _) = _
  rw [hhands, hqueue]
  exact hset

/-- A call that starts the block gets through with what it has ahead one by one, as long as it does
not dispatch the rest. -/
theorem During.ahead_of_startMove {c : Nat} {next next' : Starting}
    (hp : p.During calm handlers past work (.starting c next))
    (hmove : p.StartMove c work.store work.rules work.block next q)
    (hnext : q.calls[c]? = some (.start work.store work.rules work.block next')) :
    (∃ plan, next = .dispatching plan ∧ next' = .activating plan ∧
      q = (p.dispatchAll plan).setCall c
        (.start work.store work.rules work.block (.activating plan))) ∨
      (∀ plan, next ≠ .dispatching plan) ∧ (∀ plan, next ≠ .activating plan) ∧
        (∀ plan, next' ≠ .activating plan) ∧
        ∃ gone : List Job, gone.length ≤ 1 ∧ next.ahead = gone ++ next'.ahead := by
  have hvalid := hp.valid
  have heq {call : Call F} (hcalls : q.calls = p.calls.set c call) :
      call = .start work.store work.rules work.block next' :=
    eq_of_set_calls hp.call_eq hcalls hnext
  cases hmove with
  | refuse | acquire | enter | closed | scanFault | scanError | scan => exact hvalid.elim
  | activate | announceFault | settleFault => cases heq rfl
  | dispatch plan =>
      cases heq rfl
      exact .inl ⟨plan, rfl, rfl, rfl⟩
  | openStation | opened | distribute | distributed | prepare | declined | skipSettle | settle =>
      cases heq rfl
      exact .inr ⟨by simp, by simp, by simp, [], Nat.zero_le 1, rfl⟩
  | skipAnnounce plan job | announce plan job =>
      -- the results of declined transactions are announced one after the other
      cases heq rfl
      exact .inr ⟨by simp, by simp, by simp, [job], Nat.le_refl 1, rfl⟩

/-- With one worker in the process pool, nobody leaves the lineup but at its head, one at a time. -/
theorem Advance.lineup (hadvance : Advance work past.length p actor q phase phase')
    (hp : p.During calm handlers past work phase) (hq : q.During calm handlers past work phase')
    (hstep : p.step? actor = some q) (hfile : p.SingleFile w past.length) (hlone : p.Lone w) :
    q.SingleFile w past.length ∧
      ∃ gone : List Job, gone.length ≤ 1 ∧ phase.lineup p = gone ++ phase'.lineup q := by
  have hcaller {i : Nat} (hactor : actor = .caller i)
      (hphase : ∀ plan, phase = .starting i (.dispatching plan) → phase' = phase) :
      Files w past.length p q := by
    subst hactor
    exact hfile.files_of_stepCall? hstep (hp.not_dispatching hq hstep hphase)
  cases hadvance with
  | thread _ hactor =>
      have hfiles := hp.files_stepThread? hfile hlone hactor hstep
      exact ⟨hfiles.file, hfiles.lineup hp rfl⟩
  | aside _ haside =>
      obtain ⟨i, hactor⟩ := haside.exists_caller
      have hfiles := hcaller hactor fun _ _ => rfl
      exact ⟨hfiles.file, hfiles.lineup hp rfl⟩
  | activate _ plan haside _ =>
      obtain ⟨i, hactor⟩ := haside.exists_caller
      have hfiles := hcaller hactor fun _ h => by cases h
      exact ⟨hfiles.file, hfiles.lineup hp rfl⟩
  | take _ _ _ _ haside =>
      obtain ⟨i, hactor⟩ := haside.exists_caller
      have hfiles := hcaller hactor fun _ h => by cases h
      exact ⟨hfiles.file, hfiles.lineup hp rfl⟩
  | finish _ _ _ _ _ _ _ _ hactor =>
      have hfiles := hcaller hactor fun _ h => by cases h
      exact ⟨hfiles.file, hfiles.lineup hp rfl⟩
  | start c next next' hactor hmove hnext =>
      rcases hp.ahead_of_startMove hmove hnext with
        ⟨plan, rfl, rfl, rfl⟩ | ⟨hdispatch, hnow, hlater, gone, hgone, hahead⟩
      · obtain ⟨⟨hhands, hfeeders, hroom⟩, hline⟩ := hp.line_dispatchAll hfile
        refine ⟨⟨hhands, hfeeders, hroom⟩, [], Nat.zero_le 1, ?_⟩
        rw [Phase.lineup, line_eq_nil (hp.load_eq_zero (by simp) _), List.append_nil]
        exact hline.symm
      · have hfiles := hcaller hactor fun plan h => by
          cases h
          exact absurd rfl (hdispatch plan)
        refine ⟨hfiles.file, gone, hgone, ?_⟩
        rw [Phase.lineup, Phase.lineup, line_eq_nil (hp.load_eq_zero hnow _),
          line_eq_nil (hq.load_eq_zero hlater _), List.append_nil, List.append_nil]
        exact hahead

end Pipeline

end TxPipeline
