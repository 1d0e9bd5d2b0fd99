import TxPipeline.Proofs.Admission.Refusals
import TxPipeline.Proofs.Closing.Retiring
import TxPipeline.Proofs.Containment

/-!
# Closing loses nothing

A pipeline can be closed at any time. The call that closes it returns only when the workers have
left, and these leave only when everything is worked off. The block in work comes to what it would
have come to, and nothing is started any more after it.
-/

namespace TxPipeline

variable {F : Flow} {calm : Prop} {handlers : List (Handler F)} {work : Work F} {job : Job}

/-- Whether the call closes the pipeline, or was refused because it is closed. -/
def Call.isShutOut : Call F → Bool
  | .returned (.started (.error (.error .closed))) => true
  | call => call.isClosing

theorem Call.isShutOut_iff {call : Call F} : call.isShutOut = true ↔
    call.isClosing = true ∨ call = .returned (.started (.error (.error .closed))) := by
  unfold isShutOut
  split
  · simp
  · rename_i hne
    exact ⟨.inl, fun h => h.resolve_right hne⟩

/-- Whether there would be no call `c` had nobody closed the pipeline, or it would not be
refused. -/
def Pipeline.shutOut (p : Pipeline F) (c : Nat) : Bool := (p.calls[c]?).any Call.isShutOut

/-- A job that `prefetch` has made something for is processed. -/
theorem Work.reaches_process (hcommon : (work.commonOf handlers job.handler).isSome = true)
    (hfault : work.faultOf handlers job .prefetch = none) : work.Reaches handlers job .process := by
  obtain ⟨common, hcommon⟩ := Option.isSome_iff_exists.mp hcommon
  cases hhandler : handlers[job.handler]? with
  | none => simp [commonOf, hhandler] at hcommon
  | some handler =>
      simp only [faultOf, prefetchFault, hhandler, hcommon] at hfault
      simp only [Reaches, dataOf, hhandler, hcommon, Option.bind_eq_bind, Option.bind_some]
      cases hdata : handler.prefetch work.store job.tx common with
      | error fault => simp [hdata] at hfault
      | ok data => rfl

namespace Pipeline

variable {config : Config} {registry : Registry F} {past : List (Work F)} {phase : Phase F}
  {p q r : Pipeline F} {c : Nat} {moves more : List (Move F)} {ts : List (Task F)}
  {deeds : List Deed} {actor : Actor} {outcome : Except Failure Unit}

/-! ## What the workers leave behind -/

/-- Every job of the block was prefetched and then processed, unless `prefetch` has raised a fault
on it. What has come of it can be read until a call resets the stations. -/
structure WorkedOff (handlers : List (Handler F)) (work : Work F) (deeds : List Deed)
    (p : Pipeline F) : Prop where
  prefetched : ∀ job ∈ work.jobs handlers,
    ⟨.prefetch, job, work.faultOf handlers job .prefetch⟩ ∈ deeds
  processed : ∀ job ∈ work.jobs handlers, work.faultOf handlers job .prefetch = none →
    ⟨.process, job, work.faultOf handlers job .process⟩ ∈ deeds
  results : p.HoldsResults handlers work ∨ p.IsResetting

/-- All workers have left, and the moves that have led from `p` to `q` have left nothing to them. -/
structure Drained (handlers : List (Handler F)) (p : Pipeline F) (moves : List (Move F))
    (q : Pipeline F) : Prop where
  workers : ∀ worker ∈ q.workers, worker.activity = .exited
  queues : ∀ stage, q.queue stage = []
  feeders : ∀ feeders ∈ q.feeders, feeders = ⟨[], []⟩
  block : ∀ (c : Nat) (work : Work F), (tasks moves)[c]? = some work.task → q.InWork c →
    WorkedOff handlers work (p.deedsSince c moves) q

namespace Crew

variable (hp : p.Crew handlers) (hover : ∀ worker ∈ p.workers, worker.activity.isOver = true)

include hp hover

theorem exited_of_stage (stage : Stage) : p.poolSenders = false ∧ p.queue stage = [] ∧
    ∀ feeders ∈ p.feeders, feeders.pending stage = [] := by
  obtain ⟨worker, hworker, rfl⟩ := List.mem_map.mp (hp.staffed stage)
  exact hp.exited worker hworker (hp.exited_of_isOver hworker (hover worker hworker))

theorem load_of_isOver (c : Checkpoint) : p.load c = 0 := by
  obtain ⟨-, hqueue, hpending⟩ := hp.exited_of_stage hover c.stage
  refine load_of_empty hqueue hpending fun worker hworker => ?_
  rw [hp.exited_of_isOver hworker (hover worker hworker), Activity.due]

end Crew

namespace During

variable (hp : p.During calm handlers past work phase)
  (hphase : ∀ d next, phase ≠ .starting d next) (hload : ∀ c, p.load c = 0)

include hp hphase hload

/-- A job that has passed its prefetch has found what `beforeBlock` made. -/
theorem commonOf_isSome (hjob : job ∈ work.jobs handlers) :
    (work.commonOf handlers job.handler).isSome = true := by
  obtain ⟨s, hs, -⟩ := hp.exists_station (Work.lt_of_mem_jobs hp.accepted hjob)
  obtain ⟨l, hl⟩ := hp.exists_lane hs hphase
  rcases hp.serves_or_done hs hl with ⟨progress, hserves⟩ | ⟨-, hdone⟩
  · refine hserves.supplied.gathered job.tx hjob ?_
    rw [Phase.outstanding_eq_load hphase, hload]
    exact Multiset.notMem_zero _
  · obtain ⟨a, hreads⟩ := hdone.reads
    obtain ⟨-, common, -, -, -, hcommon, -⟩ := hreads.follows
    rw [hcommon, Option.isSome_some]

theorem workedOff (hr : Records handlers work phase p deeds) : WorkedOff handlers work deeds p := by
  have hpassed {stage : Stage} {job : Job} : job ∉ phase.outstanding p (.after stage) := by
    rw [Phase.outstanding_eq_load hphase, hload]
    exact Multiset.notMem_zero _
  refine ⟨fun job hjob => ?_, fun job hjob hfault => ?_, hp.results_of_unloaded hphase hload⟩
  · exact hr.complete .prefetch job hjob (hp.commonOf_isSome hphase hload hjob) hpassed
  · exact hr.complete .process job hjob
      (Work.reaches_process (hp.commonOf_isSome hphase hload hjob) hfault) hpassed

end During

theorem drained_of_isOver (hcreate : create config registry = .ok p)
    (hrun : p.cleanRun? moves = some q)
    (hover : ∀ worker ∈ q.workers, worker.activity.isOver = true) :
    Drained registry.handlers p moves q := by
  have hcrew := (Chronicle.of_cleanRun? hcreate hrun).crew
  have hload := hcrew.load_of_isOver hover
  refine ⟨fun worker hworker => hcrew.exited_of_isOver hworker (hover worker hworker),
    queue_eq_nil_of_unloaded hload, fun feeders hf => ?_, fun c work htask hwork => ?_⟩
  · have hnil := pending_eq_nil_of_unloaded hload hf
    obtain ⟨prefetch, process⟩ := feeders
    exact congrArg₂ Feeders.mk (hnil .prefetch) (hnil .process)
  · obtain ⟨past, phase, hq, -, hr⟩ := exists_records work hcreate hrun htask hwork
    refine hq.workedOff ?_ hload hr
    -- no worker leaves while a call that starts a block needs it
    rintro d next rfl
    obtain ⟨-, -, -, -, hsenders, -⟩ := hq.calls
    rw [(hcrew.exited_of_stage hover .process).1] at hsenders
    cases hsenders

/-! ## The same run without closing -/

theorem droppable_shutOut (q : Pipeline F) : q.Droppable true q.shutOut where
  harmless := fun c call hdropped hcall => by
    rw [shutOut, hcall, Option.any_some, Call.isShutOut_iff] at hdropped
    rcases hdropped with hclosing | rfl
    · exact .inr ⟨rfl, hclosing⟩
    · exact .inl rfl
  closing := fun _ c call hcall h => by
    rw [shutOut, hcall, Option.any_some, Call.isShutOut_iff]
    exact h

/-- In the run `moves'` nobody closes `p`, and none of the calls is made that are refused over that
in the run `moves` to `q`. Everything else comes to the same. -/
structure Reopens (p : Pipeline F) (moves : List (Move F)) (q : Pipeline F)
    (moves' : List (Move F)) (locked : Bool) (ledger : Gas.Ledger) (log : List Event) : Prop where
  unasked : Task.close ∉ tasks moves'
  kept : tasks moves' = keep q.shutOut (tasks moves)
  run : p.cleanRun? moves' = some { q with
    workers := q.workers.map (Worker.revive true), isOpen := true, poolSenders := true
    calls := keep q.shutOut q.calls, locked, ledger, log }
  charges : ∀ hash, ledger.find? hash = q.ledger.find? hash
  locked_eq : locked = q.locked

theorem exists_reopens (hcreate : create config registry = .ok p)
    (hrun : p.cleanRun? moves = some q) :
    ∃ moves' locked ledger log, Reopens p moves q moves' locked ledger log := by
  obtain ⟨moves', q', -, htasks, hrun', herases⟩ :=
    replays_of_cleanRun? hcreate hrun q.droppable_shutOut
  refine ⟨moves', q'.locked, q'.ledger, q'.log, fun hmem => ?_, htasks, hrun'.trans ?_,
    herases.ledger, herases.locked_eq (Grants.of_run? hcreate (run?_of_cleanRun? hrun)).governs
      (Grants.of_run? hcreate (run?_of_cleanRun? hrun')).governs fun c call hcall hholds => ?_⟩
  · rw [htasks] at hmem
    obtain ⟨c, htask, hkept⟩ := exists_of_mem_keep hmem
    obtain ⟨call, hcall, hturns⟩ := exists_call hcreate (run?_of_cleanRun? hrun) htask
    rw [shutOut, hcall, Option.any_some] at hkept
    cases hturns <;> cases hkept
  · exact congrArg some herases.eq
  · rw [shutOut, hcall, Option.any_some]
    cases call with
    | start => rfl
    | _ => cases hholds

/-! ## Calls to start a block on a closed pipeline -/

theorem isQuiet_of_cleanRun? (hrun : q.cleanRun? (.call work.task :: more) = some r) :
    q.isQuiet = true := by
  rw [cleanRun?] at hrun
  split at hrun
  · rename_i hadmits
    exact (Bool.and_eq_true_iff.mp hadmits).1
  · cases hrun

/-- On a closed pipeline a call to start a block finds the one that is in work, if there is one, and
otherwise that the pipeline is closed. -/
theorem Answers.of_closed {origin : Pipeline F} (hanswers : Answers work origin c more p outcome)
    (hchronicle : Chronicle True handlers ts origin) (hquiet : origin.isQuiet = true)
    (hclosed : origin.isOpen = false) :
    (∀ (d : Nat) (other : Work F), ts[d]? = some other.task → origin.InWork d →
      outcome = .error (.error (.blockInProgress other.block.number))) ∧
    ((∀ d, ¬ origin.InWork d) → outcome = .error (.error .closed)) := by
  have hshut (hopen : origin.isOpen = true) : False := by
    rw [hopen] at hclosed
    cases hclosed
  constructor
  · intro d other htask hwork
    obtain ⟨past, phase, hq, -, hphase⟩ := hchronicle.exists_phase other htask hwork
    obtain rfl := hphase hquiet
    have hactive : origin.active = some (other.active past.length) := hq.calls.active_eq
    cases hanswers with
    | blocked active hfound =>
        obtain rfl := Option.some.inj (hfound.symm.trans hactive)
        rfl
    | closed hfound =>
        rw [hactive] at hfound
        cases hfound
    | refused _ _ _ hopen | denied _ _ hopen | started _ hopen => exact (hshut hopen).elim
  · intro hnone
    rcases active_of_quiet hchronicle hquiet with ⟨-, hactive⟩ | ⟨d, -, -, hwork, -⟩
    · cases hanswers with
      | blocked active hfound =>
          rw [hactive] at hfound
          cases hfound
      | closed => rfl
      | refused _ _ _ hopen | denied _ _ hopen | started _ hopen => exact (hshut hopen).elim
    · exact absurd hwork (hnone d)

/-- The pipeline is closed, no block is in work, and no call can bring one into work any more. -/
structure Ceased (p : Pipeline F) : Prop where
  closed : p.isOpen = false
  ended : ∀ c, p.Accepted c → p.Over c
  unscanned : ∀ (c : Nat) store rules block, p.calls[c]? ≠ some (.start store rules block .scan)

namespace Ceased

theorem of_quiet (hclosed : p.isOpen = false) (hquiet : p.isQuiet = true)
    (hnone : ∀ c, ¬ p.InWork c) : p.Ceased where
  closed := hclosed
  ended := fun c haccepted => by
    by_contra hover
    exact hnone c ⟨haccepted, hover⟩
  unscanned := fun c store rules block hcall => by cases isSettled_of_isQuiet hquiet hcall

theorem invoke (hp : p.Ceased) (task : Task F) : (p.invoke task).Ceased where
  closed := hp.closed
  ended := fun c haccepted => (hp.ended c (accepted_of_invoke haccepted)).invoke task
  unscanned := fun c store rules block hcall => by
    rcases getElem?_of_invoke hcall with hcall | ⟨-, heq⟩
    · exact hp.unscanned c store rules block hcall
    · cases task <;> cases heq

theorem step? (hp : p.Ceased) (hstep : p.step? actor = some q) : q.Ceased where
  closed := by
    by_contra hopen
    have hwas := isOpen_of_step? hstep (by simpa using hopen)
    rw [hp.closed] at hwas
    cases hwas
  ended := fun c haccepted => by
    rcases accepted_of_step? hstep haccepted with h | ⟨-, store, rules, block, hscan⟩
    · exact (hp.ended c h).step? hstep
    · exact absurd hscan (hp.unscanned c store rules block)
  unscanned := fun c store rules block hcall => by
    by_cases hactor : actor = .caller c
    · subst hactor
      obtain ⟨old, hold, hturns⟩ := exists_turned_of_step? hstep hcall
      cases hturns with
      | start _ _ _ next =>
          have hnot {other : Call F} (hcalls : q.calls = p.calls.set c other) :
              other = .start store rules block .scan :=
            Option.some.inj ((getElem?_of_set_calls hold hcalls).symm.trans hcall)
          rw [step?_of_start hold] at hstep
          cases startMove_of_stepStart? hstep with
          | enter hopen =>
              rw [hp.closed] at hopen
              cases hopen
          | _ => cases hnot rfl
    · rw [getElem?_calls_of_step? hstep hactor] at hcall
      exact hp.unscanned c store rules block hcall

theorem deny?_eq_none (hp : p.Ceased) (c : Nat) (reason : String) : p.deny? c reason = none :=
  Pipeline.deny?_eq_none (hp.unscanned c) reason

theorem run? (hp : p.Ceased) (hrun : p.run? moves = some q) : q.Ceased :=
  run?_induction hrun hp (fun _ task hp => hp.invoke task) (fun _ _ _ hp hstep => hp.step? hstep)
    fun _ c reason _ hp hdeny => by cases (hp.deny?_eq_none c reason).symm.trans hdeny

/-- Every call to start a block that is made from now on finds the pipeline closed. -/
theorem outcome_eq (hp : q.Ceased) (hcreate : create config registry = .ok p)
    (hrun : p.cleanRun? moves = some q) (hmore : q.cleanRun? more = some r)
    (hc : q.calls.length ≤ c) (hcall : r.calls[c]? = some (.returned (.started outcome))) :
    outcome = .error (.error .closed) := by
  have hwhole : p.cleanRun? (moves ++ more) = some r := by
    rw [cleanRun?_append, hrun]
    exact hmore
  have hlength := length_calls_eq hcreate (run?_of_cleanRun? hrun)
  obtain ⟨work, htask⟩ := exists_work hcreate (run?_of_cleanRun? hwhole) hcall
  rw [tasks_append, List.getElem?_append_right (hlength ▸ hc)] at htask
  obtain ⟨before, rest, rfl, hbefore⟩ := exists_split htask
  -- the state in which the call was made
  rw [cleanRun?_append] at hmore
  obtain ⟨b, hb, hrest⟩ := Option.bind_eq_some_iff.mp hmore
  have hnumber := length_calls_of_run? (run?_of_cleanRun? hb)
  obtain rfl : c = b.calls.length := by omega
  have hchronicle : Chronicle True registry.handlers (tasks (moves ++ before)) b := by
    refine Chronicle.of_cleanRun? hcreate ?_
    rw [cleanRun?_append, hrun]
    exact hb
  have hceased := hp.run? (run?_of_cleanRun? hb)
  have hanswers := (Begins.of_cleanRun? hchronicle hrest).answers hcall
  exact (hanswers.of_closed hchronicle (isQuiet_of_cleanRun? hrest) hceased.closed).2 fun d hwork =>
    hwork.2 (hceased.ended d hwork.1)

end Ceased

/-! ## Closing -/

/-- A call that closes the pipeline returns only when all workers have left, and every job of the
block in work was prefetched and processed. This is how things are from then on. -/
structure ClosesDrained (handlers : List (Handler F)) (p : Pipeline F) (moves : List (Move F))
    (q : Pipeline F) : Prop where
  returning : ∀ (c : Nat) (r : Pipeline F), q.HoldsPools c → q.step? (.caller c) = some r →
    r.calls[c]? = some (.returned .closed) → Drained handlers p (moves ++ [.act (.caller c)]) r
  returned : (∃ c : Nat, q.calls[c]? = some (.returned .closed)) → (∀ c, ¬ q.HoldsPools c) →
    Drained handlers p moves q

/-- As long as a block is in work, calls to start another one are refused over it. When it is
finished, every such call finds the pipeline closed, for ever. -/
structure RefusesStarts (handlers : List (Handler F)) (moves : List (Move F)) (q : Pipeline F) :
    Prop where
  refused : ∀ (work : Work F) (more : List (Move F)) (r : Pipeline F),
    q.cleanRun? (.call work.task :: more) = some r →
    (∃ outcome, r.calls[q.calls.length]? = some (.returned (.started outcome)) ∧
      (∀ (d : Nat) (other : Work F), (tasks moves)[d]? = some other.task → q.InWork d →
        outcome = .error (.error (.blockInProgress other.block.number))) ∧
      ((∀ d, ¬ q.InWork d) → outcome = .error (.error .closed))) ∨
    (∃ actor : Actor, actor.starts q.calls.length = true ∧ (r.step? actor).isSome = true) ∧
      more.countP (Move.starts q.calls.length) < work.startBound handlers q.workers.length
  ceased : q.isQuiet = true → (∀ c, ¬ q.InWork c) → ∀ (more : List (Move F)) (r : Pipeline F),
    q.cleanRun? more = some r → (∀ c, ¬ r.InWork c) ∧
      ∀ (c : Nat) outcome, q.calls.length ≤ c →
        r.calls[c]? = some (.returned (.started outcome)) → outcome = .error (.error .closed)

/-- The pipeline is closed for ever, and a further call that is to close it leaves a line in the log
and nothing else. -/
structure StaysClosed (q : Pipeline F) : Prop where
  closed : ∀ (more : List (Move F)) (r : Pipeline F), q.cleanRun? more = some r → r.isOpen = false
  again : ∀ c : Nat, q.calls[c]? = some (.close .take) → q.step? (.caller c) = some { q with
    calls := q.calls.set c (.returned .closed), log := q.log ++ [.alreadyClosed] }

/-- Whenever a pipeline is closed, nothing is lost. The call that takes the pools returns when
everything is worked off. A run without any closing, and without the calls that are refused because
of it, comes to the same: the stations are the same, with the results and the streams in them, and
so are the charges and what all other calls have answered, with the stores that they have made. The
pipeline is closed from the move on with which a call takes the pools, and nothing is started any
more. -/
theorem closing_loses_nothing (hcreate : create config registry = .ok p)
    (hrun : p.cleanRun? moves = some q) :
    ClosesDrained registry.handlers p moves q ∧
    (∃ moves' locked ledger log, Reopens p moves q moves' locked ledger log) ∧
    (q.isOpen = false → RefusesStarts registry.handlers moves q ∧ StaysClosed q) ∧
    (q.isOpen = false ↔ ∃ (c : Nat) (call : Call F), q.calls[c]? = some call ∧
      call.hasTaken = true) := by
  have hchronicle := Chronicle.of_cleanRun? hcreate hrun
  have hretires := Retires.of_run? hcreate (run?_of_cleanRun? hrun)
  refine ⟨⟨fun c r hholds hstep hreturned => ?_, fun ⟨c, hreturned⟩ hnone =>
    drained_of_isOver hcreate hrun (hretires.isOver hreturned hnone)⟩, exists_reopens hcreate hrun,
    fun hclosed => ⟨⟨fun work more r hr => ?_, fun hquiet hnone more r hr => ?_⟩,
      fun more r hr => ?_, fun c hcall => step?_of_taken hcall hclosed⟩,
    hretires.isOpen_eq_false_iff⟩
  · have hraises : q.raises (.caller c) = false := by
      obtain ⟨next, hcall, -⟩ := hholds
      simp [raises, callRaises, hcall]
    exact drained_of_isOver hcreate
      (cleanRun?_concat hrun (by simpa [isClean] using hraises) hstep)
      ((hretires.step? hstep).isOver hreturned (hretires.not_holdsPools hholds hstep hreturned))
  · refine (Begins.answers_or_moves hchronicle hr).imp_left ?_
    rintro ⟨outcome, hreturned, hanswers⟩
    exact ⟨outcome, hreturned, hanswers.of_closed hchronicle (isQuiet_of_cleanRun? hr) hclosed⟩
  · have hceased := Ceased.of_quiet hclosed hquiet hnone
    refine ⟨fun c hwork => hwork.2 ((hceased.run? (run?_of_cleanRun? hr)).ended c hwork.1),
      fun c outcome hc hcall => hceased.outcome_eq hcreate hrun hr hc hcall⟩
  · by_contra hopen
    rw [isOpen_of_run? (run?_of_cleanRun? hr) (by simpa using hopen)] at hclosed
    cases hclosed

end Pipeline

/-! ## A run -/

namespace Sample

open Pipeline

/-- The pools are taken while the feeders still have all jobs, and their ends of the queues are
dropped while the workers have them in their hands. -/
def closedAtWork : List (Move flow) :=
  started.take 22 ++ .call .close :: .act (.caller 1) :: (started.drop 22).take 8 ++
    .act (.caller 1) :: started.drop 30 ++
    [.receiver 0, .receiver 1, .caller 1, .caller 1, .caller 1].map .act

end Sample

open Pipeline Sample in
theorem closing_loses_nothing_at_work : ∃ (q q' : Pipeline flow) (moves' : List (Move flow)),
    (ofConfig oneEach adders).cleanRun? closedAtWork = some q ∧ q.InWork 0 ∧
    q.calls[1]? = some (.returned .closed) ∧
    Drained adders.handlers (ofConfig oneEach adders) closedAtWork q ∧ q.isOpen = false ∧
    (ofConfig oneEach adders).cleanRun? moves' = some q' ∧ Task.close ∉ tasks moves' ∧
    q'.isOpen = true ∧ q'.stations = q.stations ∧
    ∀ hash, q'.ledger.find? hash = q.ledger.find? hash := by
  obtain ⟨q, hrun, hwork, hreturned, _, hcall, rfl⟩ : ∃ q,
      (ofConfig oneEach adders).cleanRun? closedAtWork = some q ∧ q.InWork 0 ∧
        q.calls.all Call.isReturned = true ∧
        ∃ call, q.calls[1]? = some call ∧ call = .returned .closed := by
    decide +kernel
  have hnone (c : Nat) : ¬ q.HoldsPools c := by
    rintro ⟨next, hnext, -⟩
    cases List.all_eq_true.mp hreturned _ (List.mem_of_getElem? hnext)
  obtain ⟨hdrained, ⟨moves', locked, ledger, log, hreopens⟩, -, hopen⟩ :=
    closing_loses_nothing (show create oneEach adders = .ok _ from rfl) hrun
  exact ⟨q, _, moves', hrun, hwork, hcall, hdrained.returned ⟨1, hcall⟩ hnone,
    hopen.mpr ⟨1, _, hcall, rfl⟩, hreopens.run, hreopens.unasked, rfl, rfl, hreopens.charges⟩

end TxPipeline
