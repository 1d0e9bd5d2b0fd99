import TxPipeline.Proofs.Copies
import TxPipeline.Proofs.Results
import TxPipeline.Proofs.Stations

/-!
# One block at a time

Workers take jobs from a queue that does not say of which block they are, and work on them with the
last copy of the store that they took. So it is up to the calls that no job is left when the next
store is distributed. In a spaced run a block is set up only when all jobs of the blocks before are
done, and then every job is worked on with a copy of the store that its own block was started with.
Every steady run is spaced. After a call that was cut short a job can be overtaken by the next
block.
-/

namespace TxPipeline

variable {F : Flow}

namespace Pipeline

/-- Whether no job that was dispatched is left. -/
def isSpent (p : Pipeline F) : Bool := decide (p.load .deposited = 0 ∧ p.load .settled = 0)

/-- Whether something can happen in a spaced run: a block comes into work only if no job of another
one is left. -/
def isSpaced (p : Pipeline F) : Move F → Bool
  | .act (.caller c) =>
      match p.calls[c]? with
      | some (.start _ _ _ .scan) => p.isSpent
      | _ => true
  | _ => true

/-- The pipeline after a run, if all of it can happen and it is spaced. -/
def spacedRun? (p : Pipeline F) (moves : List (Move F)) : Option (Pipeline F) :=
  p.runWhile? isSpaced moves

/-- After these moves from `origin`, call `c` is the last that has brought a block into work, and
when it did no job of another block was left. -/
def BroughtLast (origin : Pipeline F) (moves : List (Move F)) (p : Pipeline F) (c : Nat)
    (work : Work F) : Prop :=
  ∃ (first rest : List (Move F)) (r : Pipeline F), moves = first ++ .act (.caller c) :: rest ∧
    origin.run? first = some r ∧
    r.calls[c]? = some (.start work.store work.rules work.block .scan) ∧ r.isSpent = true ∧
    ∀ i, p.Accepted i → i = c ∨ r.Accepted i

end Pipeline

/-- The plan of a call that has brought its block into work. -/
def Starting.plan? : Starting → Option Plan
  | .opening plan _ => some plan
  | .distributing plan _ => some plan
  | .preparing plan => some plan
  | .declining plan _ => some plan
  | .settling plan _ _ => some plan
  | .dispatching plan => some plan
  | .activating plan => some plan
  | _ => none

theorem Starting.isAccepted_of_plan? {next : Starting} {plan : Plan}
    (h : next.plan? = some plan) : next.isAccepted = true := by
  cases next <;> first | rfl | cases h

theorem Starting.holdsLock_of_isAccepted {next : Starting} (h : next.isAccepted = true) :
    next.holdsLock = true := by
  cases next <;> first | rfl | cases h

namespace Pipeline

variable {config : Config} {registry : Registry F} {handlers : List (Handler F)}
  {origin p q r : Pipeline F} {c d w h : Nat} {stage : Stage} {actor : Actor} {move : Move F}
  {moves : List (Move F)} {work : Work F} {store : F.Store} {rules : Rules} {block : Block}
  {next : Starting}

theorem isSpent_iff : p.isSpent = true ↔ ∀ c, p.load c = 0 := by
  simp only [isSpent, decide_eq_true_eq]
  refine ⟨fun ⟨hdeposited, hsettled⟩ c => ?_, fun h => ⟨h _, h _⟩⟩
  apply Multiset.eq_zero_of_forall_notMem
  intro job hj
  cases hstage : c.stage with
  | prefetch => exact absurd (hdeposited ▸ mem_load_deposited hstage hj) (Multiset.notMem_zero _)
  | process => exact absurd (hsettled ▸ mem_load_settled hstage hj) (Multiset.notMem_zero _)

/-! ## Whose jobs there are -/

theorem BroughtLast.append (h : BroughtLast origin moves p c work)
    (haccepted : ∀ i, q.Accepted i → i = c ∨ p.Accepted i) :
    BroughtLast origin (moves ++ [move]) q c work := by
  obtain ⟨first, rest, r, rfl, hrun, hcall, hspent, hlast⟩ := h
  refine ⟨first, rest ++ [move], r, by simp, hrun, hcall, hspent, fun i hi => ?_⟩
  rcases haccepted i hi with rfl | hi
  · exact .inl rfl
  · exact hlast i hi

/-- No call is setting up a block. -/
def Unset (p : Pipeline F) : Prop :=
  ∀ (i : Nat) (store : F.Store) (rules : Rules) (block : Block) (next : Starting),
    p.calls[i]? = some (.start store rules block next) → next.isAccepted = false

/-- All jobs that are left after these moves from `origin` are of one block, and every worker has a
copy of the store that this block was started with before the first of them is dispatched. -/
inductive Sources (handlers : List (Handler F)) (origin : Pipeline F) (moves : List (Move F))
    (p : Pipeline F) : Prop
  | spent (hload : ∀ c, p.load c = 0) (hunset : p.Unset)
  | setting (c : Nat) (work : Work F) (next : Starting) (plan : Plan)
      (hlast : BroughtLast origin moves p c work)
      (hcall : p.calls[c]? = some (.start work.store work.rules work.block next))
      (hplan : next.plan? = some plan) (hjobs : plan.jobs = work.jobs handlers)
      (hload : ∀ c, ∀ job ∈ p.load c, next = .activating plan ∧ job ∈ work.jobs handlers)
  | started (c : Nat) (work : Work F) (hlast : BroughtLast origin moves p c work)
      (hcall : p.calls[c]? = some (.returned (.started (.ok ()))))
      (hunset : p.Unset) (hrests : p.relay.Rests (some work.store))
      (hload : ∀ c, ∀ job ∈ p.load c, job ∈ work.jobs handlers)

namespace Sources

/-- What neither brings a block into work nor goes on with one that is there. -/
theorem other (h : Sources handlers origin moves p)
    (hcalls : ∀ (i : Nat) (call : Call F), call.isAccepted = true →
      (q.calls[i]? = some call ↔ p.calls[i]? = some call))
    (hrests : ∀ copy, p.relay.Rests copy → q.relay.Rests copy)
    (hload : ∀ c, q.load c ≤ p.load c) : Sources handlers origin (moves ++ [move]) q := by
  have haccepted {c : Nat} (i : Nat) (hi : q.Accepted i) : i = c ∨ p.Accepted i := by
    obtain ⟨call, hcall, hi⟩ := hi
    exact .inr ⟨call, (hcalls i call hi).mp hcall, hi⟩
  have hunset (hp : p.Unset) : q.Unset := by
    intro i store rules block next hcall
    by_contra hnext
    rw [Bool.not_eq_false] at hnext
    have hnot := hp i store rules block next
      ((hcalls i (.start store rules block next) hnext).mp hcall)
    rw [hnext] at hnot
    cases hnot
  cases h with
  | spent hzero hnone =>
      exact .spent (fun c => Multiset.le_zero.mp ((hload c).trans (hzero c).le)) (hunset hnone)
  | setting c work next plan hlast hcall hplan hjobs hmem =>
      exact .setting c work next plan (hlast.append haccepted)
        ((hcalls c (.start _ _ _ next) (Starting.isAccepted_of_plan? hplan)).mpr hcall) hplan hjobs
        fun c' job hj => hmem c' job (Multiset.mem_of_le (hload c') hj)
  | started c work hlast hcall hnone hr hmem =>
      exact .started c work (hlast.append haccepted) ((hcalls c _ rfl).mpr hcall) (hunset hnone)
        (hrests _ hr) fun c' job hj => hmem c' job (Multiset.mem_of_le (hload c') hj)

theorem invoke (h : Sources handlers origin moves p) (task : Task F) :
    Sources handlers origin (moves ++ [.call task]) (p.invoke task) := by
  refine h.other (fun i call hcall => ⟨fun hi => ?_, fun hi => getElem?_append_calls hi rfl⟩)
    (fun _ hr => hr) fun _ => le_rfl
  rcases getElem?_of_invoke hi with hi | ⟨-, rfl⟩
  · exact hi
  · cases task <;> cases hcall

/-- A call that has nothing to do with a block in work goes on. -/
theorem set_other {call next : Call F} (h : Sources handlers origin moves p)
    (hcall : p.calls[d]? = some call) (hold : call.isAccepted = false)
    (hnew : next.isAccepted = false) (hcalls : q.calls = p.calls.set d next)
    (hrelay : q.relay = p.relay) (hload : ∀ c, q.load c = p.load c) :
    Sources handlers origin (moves ++ [move]) q := by
  refine h.other (fun i other hother => ?_) (fun _ hr => hrelay ▸ hr) fun c => (hload c).le
  rw [hcalls, getElem?_set_calls hcall]
  split
  · rename_i hi
    constructor
    · intro heq
      cases heq
      rw [hnew] at hother
      cases hother
    · intro heq
      rw [hi, hcall] at heq
      cases heq
      rw [hold] at hother
      cases hother
  · exact Iff.rfl

/-! ### A call that starts a block -/

section Start

variable (hcall : p.calls[c]? = some (.start store rules block next))

include hcall

theorem unset_of_others (hgrants : p.Grants) (hnext : next.isAccepted = true)
    {answer : Answer F} (hcalls : q.calls = p.calls.set c (.returned answer)) : q.Unset := by
  obtain ⟨-, -, hothers⟩ :=
    hgrants.governs.relays hcall (Starting.holdsLock_of_isAccepted hnext)
  intro i store' rules' block' next' hi
  rw [hcalls, getElem?_set_calls hcall] at hi
  split at hi
  · cases hi
  · rename_i hne
    have hfree := hothers i _ hi hne
    cases next' <;> first | rfl | cases hfree

/-- The call that goes on with a block in work is the one whose block is being set up. -/
theorem exists_setting (h : Sources handlers origin moves p) (hgrants : p.Grants)
    (hnext : next.isAccepted = true) : ∃ work plan, BroughtLast origin moves p c work ∧
      store = work.store ∧ rules = work.rules ∧ block = work.block ∧ next.plan? = some plan ∧
      plan.jobs = work.jobs handlers ∧
      ∀ c, ∀ job ∈ p.load c, next = .activating plan ∧ job ∈ work.jobs handlers := by
  cases h with
  | spent hload hunset => simp [hunset c _ _ _ _ hcall] at hnext
  | started d work hlast hcall' hunset hrests hload => simp [hunset c _ _ _ _ hcall] at hnext
  | setting d work next' plan hlast hcall' hplan hjobs hload =>
      obtain rfl : c = d := by
        by_contra hne
        have hothers := (hgrants.governs.relays hcall'
          (Starting.holdsLock_of_isAccepted (Starting.isAccepted_of_plan? hplan))).2.2
        have hnot : next.holdsLock = false := hothers c _ hcall hne
        rw [Starting.holdsLock_of_isAccepted hnext] at hnot
        cases hnot
      rw [hcall] at hcall'
      cases hcall'
      exact ⟨work, plan, hlast, rfl, rfl, rfl, hplan, hjobs, hload⟩

omit hcall in
/-- Where no job is left, all that a dispatch brings are those of its plan. -/
theorem mem_jobs_of_dispatchAll {plan : Plan} {check : Checkpoint} {job : Job}
    (hempty : ∀ c, p.load c = 0) (hj : job ∈ (p.dispatchAll plan).load check) :
    job ∈ plan.jobs := by
  have hnone : job ∉ p.load check := hempty check ▸ Multiset.notMem_zero job
  rcases Multiset.mem_add.mp hj with hj | hj
  · rcases Multiset.mem_add.mp hj with hj | hj
    · obtain ⟨feeders, hf, hj⟩ := mem_sum_map.mp hj
      rcases List.mem_or_eq_of_mem_set hf with hf | rfl
      · exact absurd (mem_load_of_pending hf hj) hnone
      · cases hstage : check.stage <;> rw [hstage] at hj <;> exact hj
    · exact absurd (mem_load_of_queue (p := p) hj) hnone
  · exact absurd (Multiset.mem_add.mpr (.inr hj)) hnone

/-- A call that has brought its block into work goes on with it, and returns only when the block is
set up or before anything is dispatched. -/
theorem stepStart? (h : Sources handlers origin moves p) (hgrants : p.Grants)
    (hnext : next.isAccepted = true)
    (hstep : p.stepStart? c store rules block next = some q) :
    Sources handlers origin (moves ++ [move]) q := by
  have hrelays := (hgrants.governs.relays hcall (Starting.holdsLock_of_isAccepted hnext)).2.1
  obtain ⟨work, plan, hlast, rfl, rfl, rfl, hplan, hjobs, hload⟩ :=
    h.exists_setting hcall hgrants hnext
  have haccepted {call : Call F} (hcalls : q.calls = p.calls.set c call) (i : Nat)
      (hi : q.Accepted i) : i = c ∨ p.Accepted i := by
    obtain ⟨other, hother, hi⟩ := hi
    rw [hcalls, getElem?_set_calls hcall] at hother
    split at hother
    · exact .inl ‹_›
    · exact .inr ⟨other, hother, hi⟩
  have hset {next' : Starting}
      (hcalls : q.calls = p.calls.set c (.start work.store work.rules work.block next'))
      (hplan' : next'.plan? = some plan)
      (hload' : ∀ c, ∀ job ∈ q.load c, next' = .activating plan ∧ job ∈ work.jobs handlers) :
      Sources handlers origin (moves ++ [move]) q :=
    .setting c work next' plan (hlast.append (haccepted hcalls))
      (getElem?_of_set_calls hcall hcalls) hplan' hjobs hload'
  have hempty (hnot : next ≠ .activating plan) (c : Checkpoint) : p.load c = 0 :=
    Multiset.eq_zero_of_forall_notMem fun job hj => hnot (hload c job hj).1
  have hturn {next' : Starting} (hnot : next ≠ .activating plan)
      (hcalls : q.calls = p.calls.set c (.start work.store work.rules work.block next'))
      (hplan' : next'.plan? = some plan) (hsame : ∀ c, q.load c = p.load c) :
      Sources handlers origin (moves ++ [move]) q := by
    refine hset hcalls hplan' fun c job hj => ?_
    rw [hsame, hempty hnot] at hj
    exact absurd hj (Multiset.notMem_zero job)
  have hfail {fault : Fault} (hnot : next ≠ .activating plan)
      (hcalls : q.calls = p.calls.set c (.returned (.started (.error (.fault fault)))))
      (hsame : ∀ c, q.load c = p.load c) : Sources handlers origin (moves ++ [move]) q :=
    .spent (fun c => (hsame c).trans (hempty hnot c))
      (unset_of_others hcall hgrants hnext hcalls)
  cases startMove_of_stepStart? hstep with
  | refuse | acquire | enter | closed | scanFault | scanError | scan => cases hnext
  | announceFault | settleFault => exact hfail (by simp) rfl fun _ => rfl
  | dispatch plan' =>
      cases hplan
      exact hset rfl rfl fun c' job hj =>
        ⟨rfl, hjobs ▸ mem_jobs_of_dispatchAll (hempty (by simp)) hj⟩
  | activate plan' =>
      cases hplan
      exact .started c work (hlast.append (haccepted rfl)) (getElem?_of_set_calls hcall rfl)
        (unset_of_others hcall hgrants hnext rfl) hrelays fun c' job hj => (hload c' job hj).2
  | _ =>
      cases hplan
      exact hturn (by simp) rfl rfl fun _ => rfl

end Start

/-- A call that finds all transactions of its block accepted brings it into work, and no job is
left then. -/
theorem scan (h : Sources handlers origin moves p)
    (hhandlers : p.stations.map (·.handler) = handlers)
    (hrun : origin.run? moves = some p)
    (hcall : p.calls[c]? = some (.start store rules block .scan)) (hspent : p.isSpent = true)
    (hstep : p.stepStart? c store rules block .scan = some q) :
    Sources handlers origin (moves ++ [.act (.caller c)]) q := by
  cases startMove_of_stepStart? hstep with
  | scanFault | scanError => exact h.set_other hcall rfl rfl rfl rfl fun _ => rfl
  | scan decisions ledger log hscan =>
      obtain ⟨-, rfl, -⟩ := scan_eq_ok hhandlers hscan
      have hzero := isSpent_iff.mp hspent
      refine .setting c ⟨store, rules, block⟩ _ _ ?_ (getElem?_of_set_calls hcall rfl) rfl rfl ?_
      · refine ⟨moves, [], p, rfl, hrun, hcall, hspent, fun i hi => ?_⟩
        obtain ⟨call, hi, haccepted⟩ := hi
        change (p.calls.set c _)[i]? = some call at hi
        rw [getElem?_set_calls hcall] at hi
        split at hi
        · exact .inl ‹_›
        · exact .inr ⟨call, hi, haccepted⟩
      · intro c' job hj
        change job ∈ ({ p with ledger := ledger, log := log } : Pipeline F).addFeeders.load c' at hj
        rw [load_addFeeders] at hj
        change job ∈ p.load c' at hj
        rw [hzero] at hj
        exact absurd hj (Multiset.notMem_zero job)

theorem stepCall? (h : Sources handlers origin moves p)
    (hhandlers : p.stations.map (·.handler) = handlers) (hgrants : p.Grants)
    (hrun : origin.run? moves = some p) (hspaced : p.isSpaced (.act (.caller c)) = true)
    (hstep : p.stepCall? c = some q) :
    Sources handlers origin (moves ++ [.act (.caller c)]) q := by
  unfold Pipeline.stepCall? at hstep
  split at hstep
  · rename_i store rules block next hcall
    by_cases hnext : next.isAccepted = true
    · exact h.stepStart? hcall hgrants hnext hstep
    by_cases hscan : next = .scan
    · subst hscan
      simp only [isSpaced, hcall] at hspaced
      exact h.scan hhandlers hrun hcall hspaced hstep
    · obtain ⟨call, -, hcalls, haccepted⟩ := turns_of_stepStart? hstep
      have hnew : call.isAccepted = false := by
        by_contra hnew
        rcases haccepted (by simpa using hnew) with hold | hold
        · exact hnext hold
        · exact hscan hold
      have hsame : q.relay = p.relay ∧ ∀ c, q.load c = p.load c := by
        cases startMove_of_stepStart? hstep with
        | refuse | acquire | enter | closed => exact ⟨rfl, fun _ => rfl⟩
        | scanFault | scanError | scan => exact absurd rfl hscan
        | _ => exact absurd rfl hnext
      have hold : (Call.start store rules block next : Call F).isAccepted = false :=
        Bool.eq_false_of_not_eq_true hnext
      exact h.set_other hcall hold hnew hcalls hsame.1 hsame.2
  · rename_i store block receipts next hcall
    obtain ⟨turned, hturns, hcalls⟩ := turns_of_stepFinish? hstep
    have hnew : turned.isAccepted = false := by cases hturns <;> rfl
    obtain ⟨_, _, _, _, _, rfl⟩ := eq_of_stepFinish? hstep
    exact h.set_other hcall rfl hnew hcalls rfl fun _ => rfl
  · rename_i next hcall
    obtain ⟨turned, hturns, hcalls⟩ := turns_of_stepClose? hstep
    have hnew : turned.isAccepted = false := by cases hturns <;> rfl
    obtain ⟨_, _, _, _, rfl⟩ := eq_of_stepClose? hstep
    exact h.set_other hcall rfl hnew hcalls rfl fun _ => rfl
  · cases hstep

theorem deny? {reason : String} (h : Sources handlers origin moves p)
    (hdeny : p.deny? c reason = some q) :
    Sources handlers origin (moves ++ [.deny c reason]) q := by
  cases denyMove_of_deny? hdeny with
  | deny store rules block decisions ledger log hcall hscan =>
      exact h.set_other hcall rfl rfl rfl rfl fun _ => rfl

theorem step? (h : Sources handlers origin moves p)
    (hhandlers : p.stations.map (·.handler) = handlers) (hgrants : p.Grants)
    (hrun : origin.run? moves = some p) (hspaced : p.isSpaced (.act actor) = true)
    (hstep : p.step? actor = some q) : Sources handlers origin (moves ++ [.act actor]) q := by
  cases actor with
  | caller c => exact h.stepCall? hhandlers hgrants hrun hspaced hstep
  | refresher w =>
      have hload := load_le_of_step? (by simp) hstep
      obtain ⟨relay, copies, rfl, hmove⟩ := eq_of_refresh? hstep
      refine h.other (fun _ _ _ => Iff.rfl) (fun copy hrests => ?_) hload
      simp [hrests.read?, hrests.adopt?] at hmove
  | _ =>
      have hload := load_le_of_step? (by simp) hstep
      have hframes := frames_of_stepThread? (by simp) hstep
      have hrelay := hframes.relay (by simp)
      exact h.other (fun _ _ _ => by rw [hframes.calls]) (fun _ hrests => hrelay ▸ hrests) hload

end Sources

theorem Sources.of_spacedRun? (hcreate : create config registry = .ok origin)
    (hrun : origin.spacedRun? moves = some q) :
    q.stations.map (·.handler) = registry.handlers ∧ Sources registry.handlers origin moves q := by
  obtain ⟨-, rfl⟩ := eq_ofConfig hcreate
  refine runWhile?_induction (P := fun moves q =>
    q.stations.map (·.handler) = registry.handlers ∧ Sources registry.handlers _ moves q) hrun
    ⟨by simp [ofConfig, Station.create, Function.comp_def],
      .spent (load_ofConfig config registry) fun i _ _ _ _ hi => by simp [ofConfig] at hi⟩
    (fun moves q task _ hq _ => ⟨hq.1, hq.2.invoke task⟩) ?_ ?_
  · intro moves q actor next hr hq hspaced hstep
    have hrun := run?_of_runWhile? hr
    exact ⟨(map_handler_of_step? hstep).trans hq.1,
      hq.2.step? hq.1 (.of_run? hcreate hrun) hrun hspaced hstep⟩
  · intro moves q c reason next hr hq hdeny
    refine ⟨?_, hq.2.deny? hdeny⟩
    obtain ⟨_, _, _, _, rfl⟩ := eq_of_deny? hdeny
    exact hq.1

/-- A worker with a job in its hands has a copy of the store that the block of the job was started
with. -/
theorem Sources.copy?_eq {worker : Worker F} {job : Job} (h : Sources handlers origin moves p)
    (hgrants : p.Grants) (hw : p.workers[w]? = some worker)
    (hjob : worker.activity.job? = some job) :
    ∃ c work, BroughtLast origin moves p c work ∧ p.Accepted c ∧ job ∈ work.jobs handlers ∧
      p.relay.copy? w = some work.store := by
  have hlt := hgrants.receivers ▸ (List.getElem?_eq_some_iff.mp hw).1
  obtain ⟨checkpoint, hj⟩ : ∃ checkpoint, job ∈ p.load checkpoint := by
    obtain ⟨checkpoint, hdue⟩ := exists_due_of_job? hjob
    exact ⟨checkpoint, mem_load_of_due hw hdue⟩
  cases h with
  | spent hload hunset =>
      rw [hload] at hj
      exact absurd hj (Multiset.notMem_zero job)
  | setting c work next plan hlast hcall hplan hjobs hload =>
      obtain ⟨rfl, hj⟩ := hload checkpoint job hj
      have hrests : p.relay.Rests (some work.store) := (hgrants.governs.relays hcall rfl).2.1
      exact ⟨c, work, hlast, ⟨_, hcall, rfl⟩, hj, hrests.copy? hlt⟩
  | started c work hlast hcall hunset hrests hload =>
      exact ⟨c, work, hlast, ⟨_, hcall, rfl⟩, hload checkpoint job hj, hrests.copy? hlt⟩

theorem BroughtLast.getElem?_tasks (hcreate : create config registry = .ok origin)
    (h : BroughtLast origin moves p c work) : (tasks moves)[c]? = some work.task := by
  obtain ⟨first, rest, r, rfl, hrun, hcall, -, -⟩ := h
  obtain ⟨task, htask, hturns⟩ := exists_task hcreate hrun hcall
  have heq : task = work.task := by
    cases task <;> cases hturns
    rfl
  exact getElem?_tasks_append (heq ▸ htask) _

/-! ## Steady runs -/

/-- As long as no call is cut short, all jobs of a block are done when the next one comes into
work. -/
theorem Chronicle.isSpent {calm : Prop} {ts : List (Task F)} (h : Chronicle calm handlers ts p)
    (hcall : p.calls[c]? = some (.start store rules block .scan)) : p.isSpent = true := by
  obtain ⟨past, hp⟩ := h.between_of_scan hcall
  exact isSpent_iff.mpr hp.load

theorem spacedRun?_of_steadyRun? (hcreate : create config registry = .ok p)
    (hrun : p.steadyRun? moves = some q) : p.spacedRun? moves = some q := by
  refine runWhile?_induction (P := fun moves q => p.spacedRun? moves = some q) hrun rfl ?_ ?_ ?_
  · intro moves q task _ hq _
    rw [spacedRun?, runWhile?_append, ← spacedRun?, hq]
    rfl
  · intro moves q actor next hr hq _ hstep
    have hspaced : q.isSpaced (.act actor) = true := by
      unfold isSpaced
      split
      · split
        · rename_i hcall
          exact (Chronicle.of_steadyRun? hcreate hr).isSpent hcall
        · rfl
      · rfl
    rw [spacedRun?, runWhile?_append, ← spacedRun?, hq, Option.bind_some, runWhile?, if_pos hspaced]
    exact Option.bind_eq_some_iff.mpr ⟨next, hstep, rfl⟩
  · intro moves q c reason next hr hq hdeny
    have hspaced : q.isSpaced (.deny c reason) = true := rfl
    rw [spacedRun?, runWhile?_append, ← spacedRun?, hq, Option.bind_some, runWhile?, if_pos hspaced]
    exact Option.bind_eq_some_iff.mpr ⟨next, hdeny, rfl⟩

end Pipeline

open Pipeline in
/-- Stores that are distributed reach everybody, in order and complete, whatever the order of the
moves. Hence no worker ever has to work without a copy, and in a spaced run the copy with which it
works on a job is of the store that the block of that job was started with. Every steady run is
spaced. -/
theorem snapshots_agree :
    (∀ (S : Type) (workers : Nat) (turns : List (Snapshot.Turn S)) (c : Snapshot.Circulation S),
      (Snapshot.Circulation.create workers).run? turns = some c → c.InStep workers) ∧
    ∀ (config : Config) (registry : Registry F) (p q : Pipeline F) (moves : List (Move F)),
      create config registry = .ok p →
      (p.run? moves = some q →
        (∀ worker ∈ q.workers, ∀ stage i, worker.activity ≠ .dead (.beforeSnapshot stage i)) ∧
        ∀ (w : Nat) (worker : Worker F) (job : Job), q.workers[w]? = some worker →
          worker.activity.job? = some job → (q.relay.copy? w).isSome = true) ∧
      (p.spacedRun? moves = some q →
        ∀ (w : Nat) (worker : Worker F) (job : Job), q.workers[w]? = some worker →
          worker.activity.job? = some job → ∃ c work,
            (tasks moves)[c]? = some (.start work.store work.rules work.block) ∧ q.Accepted c ∧
            p.BroughtLast moves q c work ∧ job ∈ work.jobs registry.handlers ∧
            q.relay.copy? w = some work.store) ∧
      (p.steadyRun? moves = some q → p.spacedRun? moves = some q) := by
  refine ⟨?_, ?_⟩
  · intro S workers turns c hrun
    exact ((Snapshot.Circulation.agrees_create workers).run? hrun).inStep
  · intro config registry p q moves hcreate
    refine ⟨fun hrun => ?_, fun hrun w worker job hw hjob => ?_, spacedRun?_of_steadyRun? hcreate⟩
    · have hgrants := Grants.of_run? hcreate hrun
      exact ⟨hgrants.alive, fun w worker job hw hjob => hgrants.copy?_isSome hw hjob⟩
    · obtain ⟨c, work, hlast, haccepted, hj, hcopy⟩ :=
        (Sources.of_spacedRun? hcreate hrun).2.copy?_eq
          (.of_run? hcreate (run?_of_runWhile? hrun)) hw hjob
      exact ⟨c, work, hlast.getElem?_tasks hcreate, haccepted, hlast, hj, hcopy⟩

/-! ## Runs -/

namespace Sample

open Pipeline Snapshot

/-- A receiver comes up and takes a copy of one store. -/
def circulated : List (Turn Nat) :=
  [.greet 0, .lead, .lead, .give 5, .lead, .lead, .read 0, .adopt 0, .lead, .lead, .lead]

/-- An adder that works on the second transaction of a block and gives up its results. -/
def breaker : Handler flow :=
  { adder with
    name := "breaker"
    gas := fun tx _ => .ok (if tx.index = 1 then some 7 else none)
    postProcess := fun _ _ => .done (.error (.raised "failed")) }

def breakers : Registry flow := ⟨[breaker]⟩

/-- A block is finished, which is cut short, and another one is started before the only job of the
first is taken. -/
def overtaken : List (Move flow) :=
  .call (.start (3 : Nat) .latest pair) ::
    (([.caller 0, .caller 0, .caller 0, .caller 0, .caller 0, .caller 0, .caller 0, .refresher 0,
        .refresher 1, .refresher 0, .refresher 1, .caller 0, .caller 0, .caller 0, .caller 0,
        .caller 0, .preparation 0 0, .caller 0, .caller 0, .caller 0, .caller 0, .caller 0,
        .feeder 0 .prefetch, .feeder 0 .process, .aggregation 0 0, .aggregation 0 0,
        .aggregation 0 0, .replay 0 0, .replay 0 0, .aggregation 0 0] : List Actor).map .act ++
      .call (.finish (3 : Nat) pair []) ::
        ([.caller 1, .caller 1, .caller 1, .caller 1, .caller 1].map .act ++
          .call (.start (5 : Nat) .latest ⟨⟨2, []⟩, []⟩) ::
            ([.caller 2, .caller 2, .caller 2, .caller 2, .caller 2, .caller 2, .caller 2,
              .refresher 0, .refresher 0, .receiver 0] : List Actor).map .act))

end Sample

open Pipeline Sample in
/-- A worker can work on the job of a block that was left undone with a copy of the store that the
next block was started with. -/
theorem copy?_of_overtaken : ∃ q worker job,
    (ofConfig oneEach breakers).run? overtaken = some q ∧ q.workers[0]? = some worker ∧
    worker.activity.job? = some job ∧
    (tasks overtaken)[0]? = some (.start (3 : Nat) .latest pair) ∧
    job ∈ Work.jobs breakers.handlers ⟨(3 : Nat), .latest, pair⟩ ∧
    ∀ (c : Nat) (store : Nat) (rules : Rules) (block : Block),
      (tasks overtaken)[c]? = some (.start store rules block) →
      job ∈ Work.jobs breakers.handlers ⟨store, rules, block⟩ → q.relay.copy? 0 ≠ some store := by
  obtain ⟨q, hrun, hcopy, worker, hw, hjob⟩ : ∃ q,
      (ofConfig oneEach breakers).run? overtaken = some q ∧ q.relay.copy? 0 = some (5 : Nat) ∧
        ∃ worker, q.workers[0]? = some worker ∧
          worker.activity.job? = some ⟨0, ⟨1, transaction 2⟩⟩ := by
    decide +kernel
  refine ⟨q, worker, _, hrun, hw, hjob, rfl, by decide +kernel, ?_⟩
  intro c store rules block htask hj heq
  rw [hcopy] at heq
  obtain rfl : (5 : Nat) = store := Option.some.inj heq
  have hmem : Task.start (5 : Nat) rules block ∈
      [.start (3 : Nat) .latest pair, .finish (3 : Nat) pair [],
        (.start (5 : Nat) .latest ⟨⟨2, []⟩, []⟩ : Task flow)] := List.mem_of_getElem? htask
  -- the block that was started with this store has no transactions, and so no jobs
  simp only [List.mem_cons, Task.start.injEq, Nat.reduceEqDiff, false_and, reduceCtorEq, true_and,
    List.not_mem_nil, or_false, false_or] at hmem
  obtain ⟨rfl, rfl⟩ := hmem
  revert hj
  decide +kernel

open Pipeline Sample Snapshot in
theorem snapshots_agree_started : ∃ c q worker,
    (Circulation.create 1).run? circulated = some c ∧ c.given = [5] ∧ c.InStep 1 ∧
    (ofConfig oneEach adders).steadyRun? (started.take 28) = some q ∧
    q.workers[0]? = some worker ∧ worker.activity.job? = some ⟨0, ⟨0, transaction 1⟩⟩ ∧
    (q.relay.copy? 0).isSome = true ∧
    ∃ (d : Nat) (work : Work flow),
      (tasks (started.take 28))[d]? = some (.start work.store work.rules work.block) ∧
      q.relay.copy? 0 = some work.store := by
  obtain ⟨c, hc, hgiven⟩ : ∃ c, (Circulation.create 1).run? circulated = some c ∧
      c.given = [5] := by
    decide +kernel
  obtain ⟨q, hrun, worker, hw, hjob⟩ : ∃ q,
      (ofConfig oneEach adders).steadyRun? (started.take 28) = some q ∧
        ∃ worker, q.workers[0]? = some worker ∧
          worker.activity.job? = some ⟨0, ⟨0, transaction 1⟩⟩ := by
    decide +kernel
  obtain ⟨hany, hspaced, hsteady⟩ := snapshots_agree.2 oneEach adders _ q (started.take 28)
    (show create oneEach adders = .ok _ from rfl)
  obtain ⟨d, work, htask, -, -, -, hcopy⟩ := hspaced (hsteady hrun) 0 worker _ hw hjob
  exact ⟨c, q, worker, hc, hgiven,
    (snapshots_agree (F := flow)).1 Nat 1 circulated c hc, hrun, hw, hjob,
    (hany (run?_of_runWhile? hrun)).2 0 worker _ hw hjob, d, work, htask, hcopy⟩

end TxPipeline
