import TxPipeline.Proofs.Activities
import TxPipeline.Proofs.Course
import TxPipeline.Proofs.Results

/-!
# What workers have run

Workers run `prefetch` and `process`, and go on whatever these raise. Read off a run, what they have
run for a block and how it has ended is what the reference says: each stage is run on those jobs
that come so far, and no fault is missed or made up.
-/

namespace TxPipeline

variable {F : Flow} {calm : Prop} {handlers : List (Handler F)} {past : List (Work F)}
  {work : Work F} {phase phase' : Phase F} {p q : Pipeline F} {actor : Actor} {w c : Nat}
  {stage : Stage} {job : Job} {fault : Fault}

/-- A stage was run on a job, and has raised this fault or none. -/
structure Deed where
  stage : Stage
  job : Job
  fault : Option Fault

/-- The fault that a handler stage has raised. -/
def raised? {α : Type} : Except Fault α → Option Fault
  | .error fault => some fault
  | .ok _ => none

/-- What the next move of an actor runs. -/
def Pipeline.deeds (p : Pipeline F) : Actor → List Deed
  | .worker w =>
      match p.workers[w]? with
      | some ⟨_, .prefetchRun job common⟩ =>
          match p.stations[job.handler]?, p.relay.copy? w with
          | some s, some store =>
              [⟨.prefetch, job, raised? (s.handler.prefetch store job.tx common)⟩]
          | _, _ => []
      | some ⟨_, .processRun job common data⟩ =>
          match p.stations[job.handler]?, p.relay.copy? w with
          | some s, some store =>
              [⟨.process, job, raised? (s.handler.process store job.tx common data)⟩]
          | _, _ => []
      | _ => []
  | _ => []

/-! ## In the reference -/

namespace Work

/-- A job comes so far that the stage is run on it. -/
def Reaches (handlers : List (Handler F)) (work : Work F) (job : Job) : Stage → Prop
  | .prefetch => (work.commonOf handlers job.handler).isSome
  | .process => (work.dataOf handlers job.handler job.tx).isSome

/-- The fault that the stage raises on a job. -/
def faultOf (handlers : List (Handler F)) (work : Work F) (job : Job) : Stage → Option Fault
  | .prefetch => work.prefetchFault handlers job
  | .process => work.processFault handlers job

theorem raises_iff : work.Raises handlers job fault ↔
    ∃ stage, work.faultOf handlers job stage = some fault := by
  constructor
  · rintro (hfault | hfault)
    · exact ⟨.prefetch, hfault⟩
    · exact ⟨.process, hfault⟩
  · rintro ⟨stage, hfault⟩
    cases stage with
    | prefetch => exact .inl hfault
    | process => exact .inr hfault

theorem reaches_of_faultOf (hfault : work.faultOf handlers job stage = some fault) :
    work.Reaches handlers job stage := by
  cases stage with
  | prefetch =>
      obtain ⟨handler, common, -, hcommon, -⟩ := exists_of_prefetchFault hfault
      simp [Reaches, hcommon]
  | process =>
      obtain ⟨handler, common, data, -, -, hdata, -⟩ := exists_of_processFault hfault
      simp [Reaches, hdata]

/-- What `prefetch` has failed on is not processed. -/
theorem not_reaches_process (hfault : work.faultOf handlers job .prefetch = some fault) :
    ¬ work.Reaches handlers job .process := by
  obtain ⟨handler, common, hhandler, hcommon, herror⟩ := exists_of_prefetchFault hfault
  simp [Reaches, dataOf, hhandler, hcommon, herror, Except.toOption]

end Work

/-- The checkpoint that a job passes when the stage is run on it. -/
def Checkpoint.after : Stage → Checkpoint
  | .prefetch => .prefetched
  | .process => .processed

/-- The deeds are those of the reference, on all jobs that have come so far. -/
structure Records (handlers : List (Handler F)) (work : Work F) (phase : Phase F) (p : Pipeline F)
    (deeds : List Deed) : Prop where
  sound : ∀ deed ∈ deeds, deed.job ∈ work.jobs handlers ∧
    work.Reaches handlers deed.job deed.stage ∧
    deed.fault = work.faultOf handlers deed.job deed.stage
  complete : ∀ stage, ∀ job ∈ work.jobs handlers, work.Reaches handlers job stage →
    job ∉ phase.outstanding p (.after stage) → ⟨stage, job, work.faultOf handlers job stage⟩ ∈ deeds

namespace Pipeline

namespace During

variable (hp : p.During calm handlers past work phase)

include hp

theorem deeds_prefetchRun {common : F.Common}
    (hw : p.workers[w]? = some ⟨stage, .prefetchRun job common⟩) :
    p.deeds (.worker w) = [⟨.prefetch, job, work.faultOf handlers job .prefetch⟩] ∧
      job ∈ work.jobs handlers ∧ work.Reaches handlers job .prefetch := by
  have hj : job ∈ p.load .prefetched := mem_load_of_due hw (Multiset.mem_singleton_self job)
  have hcommon : work.commonOf handlers job.handler = some common :=
    hp.activities _ (List.mem_of_getElem? hw)
  obtain ⟨s, -, hs, hhandler, -⟩ := hp.serving hj
  refine ⟨?_, hp.traffic.mem_jobs _ job hj, by simp [Work.Reaches, hcommon]⟩
  simp only [deeds, hw, hs, hp.copy?_eq hw hj, Work.faultOf, Work.prefetchFault, hhandler, hcommon]
  cases s.handler.prefetch work.store job.tx common <;> rfl

theorem deeds_processRun {common : F.Common} {data : F.Data}
    (hw : p.workers[w]? = some ⟨stage, .processRun job common data⟩) :
    p.deeds (.worker w) = [⟨.process, job, work.faultOf handlers job .process⟩] ∧
      job ∈ work.jobs handlers ∧ work.Reaches handlers job .process := by
  have hj : job ∈ p.load .processed := mem_load_of_due hw (Multiset.mem_singleton_self job)
  obtain ⟨hcommon, hdata⟩ : work.commonOf handlers job.handler = some common ∧
      work.dataOf handlers job.handler job.tx = some data :=
    hp.activities _ (List.mem_of_getElem? hw)
  obtain ⟨s, -, hs, hhandler, -⟩ := hp.serving hj
  refine ⟨?_, hp.traffic.mem_jobs _ job hj, by simp [Work.Reaches, hdata]⟩
  simp only [deeds, hw, hs, hp.copy?_eq hw hj, Work.faultOf, Work.processFault, hhandler, hcommon,
    hdata]
  cases s.handler.process work.store job.tx common data <;> rfl

/-- A job is not processed only if there is nothing to process it on. -/
theorem not_reaches_of_skip {common : F.Common}
    (hw : p.workers[w]? = some ⟨stage, .processAwait job common⟩) (hstep : p.work? w = some q)
    (hq : q.workers[w]? = some ⟨stage, .processAnnounce ⟨job.tx, none⟩ job.handler⟩) :
    ¬ work.Reaches handlers job .process := by
  have hj : job ∈ p.load .processed := mem_load_of_due hw (Multiset.mem_singleton_self job)
  obtain ⟨s, progress, hs, -, -, hfits⟩ := hp.serving hj
  obtain ⟨cell, hcell, hread⟩ := hfits.dataOf hp.length_le (hp.traffic.mem_jobs _ job hj)
  have hset (activity : Activity F) :
      (p.setActivity w activity).workers[w]? = some ⟨stage, activity⟩ := by
    simp [setActivity, hw]
  unfold Pipeline.work? at hstep
  simp only [hw, hs, hcell, Option.bind_eq_bind, Option.bind_some] at hstep
  obtain ⟨value, hvalue, hstep⟩ := Option.bind_eq_some_iff.mp hstep
  cases value with
  | none => simp [Work.Reaches, ← (hread none hvalue).1]
  | some data =>
      cases hstep
      rw [hset] at hq
      cases hq

end During

/-- What a worker does with the job in its hands: it runs a stage on it, or finds nothing to process
it on, or does neither. -/
inductive Handles (handlers : List (Handler F)) (work : Work F) (phase : Phase F) (p : Pipeline F)
    (w : Nat) (q : Pipeline F) : Prop
  | neither (hnone : p.deeds (.worker w) = [])
      (hsame : ∀ stage, phase.outstanding q (.after stage) = phase.outstanding p (.after stage))
  | skip (job : Job) (hnone : p.deeds (.worker w) = [])
      (hreaches : ¬ work.Reaches handlers job .process)
      (hpass : phase.outstanding p .processed = job ::ₘ phase.outstanding q .processed)
      (hsame : phase.outstanding q .prefetched = phase.outstanding p .prefetched)
  | run (stage : Stage) (job : Job) (hjob : job ∈ work.jobs handlers)
      (hreaches : work.Reaches handlers job stage)
      (hdeeds : p.deeds (.worker w) = [⟨stage, job, work.faultOf handlers job stage⟩])
      (hpass : phase.outstanding p (.after stage) = job ::ₘ phase.outstanding q (.after stage))
      (hsame : ∀ other, other ≠ stage →
        phase.outstanding q (.after other) = phase.outstanding p (.after other))

theorem During.handles (hp : p.During calm handlers past work phase)
    (hq : q.During calm handlers past work phase) (hstep : p.work? w = some q) :
    Handles handlers work phase p w q := by
  obtain ⟨⟨own, activity⟩, activity', hw, hturns, hworkers⟩ := exists_turns_of_work? hstep
  have hw' : q.workers[w]? = some ⟨own, activity'⟩ := by
    rw [hworkers, List.getElem?_set_self (List.getElem?_eq_some_iff.mp hw).1]
  have hload (check : Checkpoint) : q.load check = (p.setActivity w activity').load check := by
    obtain ⟨stations, workers, log, rfl⟩ := eq_of_work? hstep
    have hset : (p.setActivity w activity').workers = p.workers.set w ⟨own, activity'⟩ :=
      modify_eq_set hw _
    obtain rfl : workers = (p.setActivity w activity').workers := hworkers.trans hset.symm
    rfl
  have hsame {check : Checkpoint} (hdue : activity'.due check = activity.due check) :
      phase.outstanding q check = phase.outstanding p check := by
    rw [Phase.outstanding, hload, load_setActivity_of_eq hw hdue, Phase.outstanding]
  have hpass {check : Checkpoint} {job : Job} (hold : activity.due check = {job})
      (hnew : activity'.due check = 0) :
      phase.outstanding p check = job ::ₘ phase.outstanding q check := by
    refine Phase.outstanding_eq_cons ?_
    rw [hload]
    exact load_eq_cons hw hold hnew
  have hneither (hnone : p.deeds (.worker w) = [])
      (hdue : ∀ stage, activity'.due (.after stage) = activity.due (.after stage)) :
      Handles handlers work phase p w q := .neither hnone fun stage => hsame (hdue stage)
  cases hturns with
  | prefetchGather | prefetchDeposit | processGather | processAwait | processAnnounce
    | processSettle =>
      exact hneither (by simp [deeds, hw]) fun stage => by cases stage <;> rfl
  | prefetchRun job common data =>
      obtain ⟨hdeeds, hjob, hreaches⟩ := hp.deeds_prefetchRun hw
      refine .run .prefetch job hjob hreaches hdeeds (hpass rfl rfl) fun other hother => ?_
      cases other with
      | prefetch => exact absurd rfl hother
      | process => exact hsame rfl
  | processRun job common data output =>
      obtain ⟨hdeeds, hjob, hreaches⟩ := hp.deeds_processRun hw
      refine .run .process job hjob hreaches hdeeds (hpass rfl rfl) fun other hother => ?_
      cases other with
      | process => exact absurd rfl hother
      | prefetch => exact hsame rfl
  | processSkip job common =>
      exact .skip job (by simp [deeds, hw]) (hp.not_reaches_of_skip hw hstep hw') (hpass rfl rfl)
        (hsame rfl)
  | die job fault hjob hfault =>
      exact absurd rfl (hq.crew.alive _ (List.mem_of_getElem? hw') fault)

end Pipeline

/-! ## In a run -/

namespace Records

variable {deeds : List Deed}

theorem of_same (hr : Records handlers work phase p deeds)
    (hsame : ∀ stage, phase'.outstanding q (.after stage) = phase.outstanding p (.after stage)) :
    Records handlers work phase' q deeds where
  sound := hr.sound
  complete := fun stage job hjob hreaches hnot =>
    hr.complete stage job hjob hreaches (by rwa [← hsame])

theorem handle (hr : Records handlers work phase p deeds)
    (hhandles : p.Handles handlers work phase w q) :
    Records handlers work phase q (deeds ++ p.deeds (.worker w)) := by
  cases hhandles with
  | neither hnone hsame =>
      rw [hnone, List.append_nil]
      exact hr.of_same hsame
  | skip job hnone hreaches hpass hsame =>
      rw [hnone, List.append_nil]
      refine ⟨hr.sound, fun stage other hother hreaches' hnot => ?_⟩
      apply hr.complete stage other hother hreaches'
      cases stage with
      | prefetch => rwa [Checkpoint.after, ← hsame]
      | process =>
          rw [Checkpoint.after, hpass, Multiset.mem_cons]
          rintro (rfl | hmem)
          · exact hreaches hreaches'
          · exact hnot hmem
  | run stage job hjob hreaches hdeeds hpass hsame =>
      rw [hdeeds]
      refine ⟨fun deed hdeed => ?_, fun other job' hjob' hreaches' hnot => ?_⟩
      · rcases List.mem_append.mp hdeed with hdeed | hdeed
        · exact hr.sound deed hdeed
        · obtain rfl := List.mem_singleton.mp hdeed
          exact ⟨hjob, hreaches, rfl⟩
      · rw [List.mem_append, List.mem_singleton]
        by_cases hnew : other = stage ∧ job' = job
        · obtain ⟨rfl, rfl⟩ := hnew
          exact .inr rfl
        · refine .inl (hr.complete other job' hjob' hreaches' ?_)
          by_cases hother : other = stage
          · subst hother
            rw [hpass, Multiset.mem_cons, not_or]
            exact ⟨fun heq => hnew ⟨rfl, heq⟩, hnot⟩
          · rwa [← hsame other hother]

end Records

namespace Pipeline

theorem deeds_eq_nil (hactor : ∀ w, actor ≠ .worker w) : p.deeds actor = [] := by
  cases actor with
  | worker w => exact absurd rfl (hactor w)
  | _ => rfl

theorem Between.deeds_eq_nil (hp : p.Between calm handlers past) (hstep : p.step? actor = some q) :
    p.deeds actor = [] := by
  refine Pipeline.deeds_eq_nil ?_
  rintro w rfl
  change p.work? w = some q at hstep
  rw [hp.work?] at hstep
  cases hstep

/-- What workers have run since a block came into work is recorded. -/
theorem carries_records (calm : Prop) (handlers : List (Handler F)) (work : Work F) (c : Nat) :
    Carries calm handlers work c deeds fun _ phase p deeds =>
      Records handlers work phase p deeds where
  rest := fun hp _ hstep => hp.deeds_eq_nil hstep
  begin := by
    intro past p plan hp
    refine ⟨fun deed hdeed => absurd hdeed List.not_mem_nil, fun stage job hjob _ hnot => ?_⟩
    have hdue := hp.valid.mem_due (c := .after stage) (by simp) hjob
    exact absurd (Multiset.mem_add.mpr (.inl hdue)) hnot
  invoke := fun _ hr => ⟨hr.sound, hr.complete⟩
  advance := by
    intro past phase phase' p actor q deeds hp hq hgoes hstep hadvance hr
    by_cases hworker : ∀ w, actor ≠ .worker w
    · rw [deeds_eq_nil hworker, List.append_nil]
      refine hr.of_same fun stage => hadvance.outstanding_eq hp hstep hworker ?_ ?_
      · cases stage <;> simp [Checkpoint.after]
      · cases stage <;> simp [Checkpoint.after]
    · push Not at hworker
      obtain ⟨w, rfl⟩ := hworker
      cases hadvance with
      | thread => exact hr.handle (hp.handles hq hstep)
      | aside _ haside | activate _ _ haside | take _ _ _ _ haside =>
          obtain ⟨i, hi⟩ := haside.exists_caller
          cases hi
      | start _ _ _ hactor | finish _ _ _ _ _ _ _ _ hactor => cases hactor

/-- What workers have run since call `c` was made. -/
def deedsSince (p : Pipeline F) (c : Nat) (moves : List (Move F)) : List Deed :=
  p.since c deeds moves

/-- While the block that a call asks for is in work, what workers have run since is recorded. -/
theorem exists_records {config : Config} {registry : Registry F} {moves : List (Move F)}
    (work : Work F) (hcreate : create config registry = .ok p) (hrun : p.cleanRun? moves = some q)
    (htask : (tasks moves)[c]? = some work.task) (hwork : q.InWork c) :
    ∃ past phase, q.During True registry.handlers past work phase ∧ phase.isOn = true ∧
      Records registry.handlers work phase q (p.deedsSince c moves) :=
  (Course.since_cleanRun? hcreate (carries_records True registry.handlers work c) hrun
    htask).exists_reading hwork

end Pipeline

end TxPipeline
