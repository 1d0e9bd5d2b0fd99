import TxPipeline.Proofs.Admission.Refusals
import TxPipeline.Proofs.Audience.Waiting
import TxPipeline.Proofs.Exclusion
import TxPipeline.Proofs.Quiescence
import TxPipeline.Proofs.Undrained

/-!
# Results can be read exactly for the started block

A call for a result fails if and only if the block that is started now has no such transaction,
however long the blocks before it were. As long as nobody asks to finish the block, any other call
returns, and what it returns is the result of that block.
-/

namespace TxPipeline

namespace Audience

open Pipeline

variable {F : Flow} {config : Config} {registry : Registry F} {handlers : List (Handler F)}
  {past : List (Work F)} {work : Work F} {p : Pipeline F} {a b : Audience F}
  {moves more : List (Move F)} {inquiry : Inquiry F} {c h k : Nat} {ts : List (Task F)}

/-! ## Calls return -/

/-- Call `k`, which is `inquiry` now, returns: as long as nobody asks anything of the pipeline, that
has at most `bound` moves to make and the call at most four, and when none of these can be made the
call was answered. If it was not answered before, it is answered with the result of `work`. -/
def Returns (handlers : List (Handler F)) (work : Work F) (a : Audience F) (k : Nat)
    (inquiry : Inquiry F) (bound : Nat) : Prop :=
  ∀ more b, (∀ task, .pipeline (.call task) ∉ more) → a.run? more = some b →
    (more.filterMap Move.actor?).length ≤ bound ∧ more.countP (Move.isPursuit k) ≤ 4 ∧
      (b.pipeline.Halted → b.move? (.pursue k) = none →
        ∃ r, b.inquiries[k]? = some { inquiry with state := .answered r } ∧
          (inquiry.state.isOver = false →
            (work.resultsOf handlers inquiry.handler)[inquiry.index]? = some r))

theorem returns_of_standing (hp : a.pipeline.Standing handlers past work)
    (horderly : a.pipeline.Orderly) (hlatched : ∀ s ∈ a.pipeline.stations, s.Latched)
    (hbefore : ∀ handler ∈ handlers, ∃ common,
      handler.beforeBlock work.store work.rules work.block = .ok common)
    (hh : inquiry.handler < handlers.length) (hi : inquiry.index < work.block.length)
    (hk : a.inquiries[k]? = some inquiry) (hnot : ∀ fault, inquiry.state ≠ .failed fault) :
    a.Returns handlers work k inquiry (a.pipeline.effort handlers work) := by
  intro more b hcalls hrun
  obtain ⟨s, hs, -⟩ := hp.during.exists_station hh
  have hlength : work.block.length ≤ s.results.length := by
    have hle := hp.during.blockLength_le hs
    rwa [hp.during.blockLength_eq hs, Waits.isShut_eq hp.during.calls,
      if_neg Bool.false_ne_true] at hle
  have hcell := List.getElem?_eq_getElem (hi.trans_le hlength)
  have ha : a.LooksAt k inquiry s.results[inquiry.index] := ⟨hk, s, hs, hcell⟩
  obtain ⟨hb, state, cell, hlooks, hlatched', hle⟩ := ha.effort_run? hp
    ((hlatched s (List.mem_of_getElem? hs)).results _ (List.mem_of_getElem? hcell)) hcalls hrun
  refine ⟨?_, ?_, fun hhalted hstays => ?_⟩
  · have hpipeline := pipeline_of_run? hrun
    rw [filterMap_pipeline? hp hcalls hrun] at hpipeline
    exact (Nat.le_add_right _ _).trans (hp.aftermath.length_le_effort hpipeline)
  · exact ((Nat.le_add_left _ _).trans hle).trans (inquiry.state.effort_le _)
  · -- all results are there, and the call has not missed its cell
    have hholds := hb.holdsResults (orderly_of_run? horderly (pipeline_of_run? hrun)) hbefore
      hhalted
    have hlt : inquiry.index < (work.resultsOf handlers inquiry.handler).length := by
      rwa [Work.length_resultsOf]
    have hresult := hholds _ _ _ hh (List.getElem?_eq_getElem hlt)
    obtain ⟨state', cell', hlooks', hnot'⟩ := ha.run? hnot hrun
    obtain rfl : state = state' := by
      have heq := hlooks.inquiry_eq.symm.trans hlooks'.inquiry_eq
      exact (Inquiry.mk.inj (Option.some.inj heq)).2.2
    obtain ⟨r, hr⟩ := hlooks.exists_answer hlatched' hnot' hresult hstays
    refine ⟨r, hr, fun hover => ?_⟩
    rcases (hears_self handlers work past.length a).run? hp hcalls hrun k _ _ r hr with
      hold | ⟨hvalue, -⟩
    · rw [hk] at hold
      rw [congrArg Inquiry.state (Option.some.inj hold)] at hover
      cases hover
    · exact hvalue

/-! ## The block that is started -/

/-- When no block is in work, every call fails. -/
theorem failsFrom_zero (hq : Chronicle True handlers ts a.pipeline)
    (hnone : ∀ c, ¬ a.pipeline.InWork c) (hh : h < handlers.length) : a.FailsFrom h 0 := by
  cases hq with
  | between past hq hover => exact failsFrom_of_between hq hh
  | starting past work c next hq htask hover hnot =>
      have haccepted : a.pipeline.Accepted c :=
        ⟨_, hq.call_eq, Starting.isAccepted_of_valid hq.valid⟩
      exact absurd ⟨haccepted, hnot⟩ (hnone c)
  | started past work phase c hq hphase htask hstarted hover hnot =>
      exact absurd ⟨⟨_, hstarted.returned, rfl⟩, hnot⟩ (hnone c)

/-- Results can be read exactly for the started block. In a clean run with calls for results at any
time and in any number, while no call of the pipeline is at work, a call for a result fails if and
only if its position is not below the length of the started block, and every call fails if no block
is started. While a call starts or finishes the block, that is so for each station from the move
that opens it to the move that closes it. All calls that are answered while the block is in work are
answered with the result of this block, which was announced for it. And once the block is started,
as long as nobody asks to finish it, every call for one of its results that has not failed
returns. -/
theorem results_readable (hcreate : Pipeline.create config registry = .ok p)
    (hrun : (of p).cleanRun? moves = some a) :
    (a.pipeline.isQuiet = true → a.pipeline.active = none →
      ∀ h < registry.handlers.length, a.FailsFrom h 0) ∧
    (a.pipeline.isQuiet = true → ∀ active, a.pipeline.active = some active →
      ∃ (c : Nat) (work : Work F),
      (tasks (moves.filterMap Move.pipeline?))[c]? = some work.task ∧ a.pipeline.InWork c ∧
      active.number = work.block.number ∧
      ∀ h < registry.handlers.length, a.FailsFrom h work.block.length) ∧
    ((∀ c, ¬ a.pipeline.InWork c) → ∀ h < registry.handlers.length, a.FailsFrom h 0) ∧
    ∀ (c : Nat) (work : Work F), (tasks (moves.filterMap Move.pipeline?))[c]? = some work.task →
      a.pipeline.InWork c →
      (∀ h < registry.handlers.length,
        a.FailsFrom h (if a.pipeline.isShut h then 0 else work.block.length)) ∧
      (∀ more b, a.cleanRun? more = some b → b.pipeline.InWork c →
        b.Hears registry.handlers work a.pipeline.lastLane a.inquiries) ∧
      (a.pipeline.calls[c]? = some (.returned (.started (.ok ()))) →
        (∀ call ∈ a.pipeline.calls, call.isFinishing = false) →
        (∀ handler ∈ registry.handlers, ∃ common,
          handler.beforeBlock work.store work.rules work.block = .ok common) →
        ∃ bound, ∀ k inquiry, a.inquiries[k]? = some inquiry →
          inquiry.handler < registry.handlers.length → inquiry.index < work.block.length →
          (∀ fault, inquiry.state ≠ .failed fault) →
          a.Returns registry.handlers work k inquiry bound) := by
  have hclean := pipeline_of_cleanRun? hrun
  have hq := Chronicle.of_cleanRun? hcreate hclean
  refine ⟨?_, ?_, fun hnone h hh => failsFrom_zero hq hnone hh, ?_⟩
  · intro hquiet hactive h hh
    rcases active_of_quiet hq hquiet with ⟨hnone, -⟩ | ⟨c, work, -, -, hsome⟩
    · exact failsFrom_zero hq hnone hh
    · rw [hactive] at hsome
      cases hsome
  · intro hquiet active hactive
    rcases active_of_quiet hq hquiet with ⟨-, hnone⟩ | ⟨c, work, htask, hwork, hsome⟩
    · rw [hactive] at hnone
      cases hnone
    · obtain rfl := Option.some.inj (hactive.symm.trans hsome)
      refine ⟨c, work, htask, hwork, rfl, fun h hh => ?_⟩
      obtain ⟨past, phase, hp, -⟩ := hq.exists_during htask hwork
      have hfails := failsFrom_of_during hp hh
      rwa [isShut_of_quiet hquiet h, if_neg Bool.false_ne_true] at hfails
  · intro c work htask hwork
    obtain ⟨past, phase, hp, hon⟩ := hq.exists_during htask hwork
    refine ⟨fun h hh => failsFrom_of_during hp hh, ?_, ?_⟩
    · intro more b hmore hstill
      rw [hp.lastLane_eq]
      exact (hears_self _ work _ a).cleanRun? hcreate hrun hp hon hwork.1 hmore hstill.2
    · intro hstarted hunasked hbefore
      have hsteady := Chronicle.of_steadyRun? hcreate (steadyRun?_of_cleanRun? hcreate hclean)
      obtain ⟨past, hstanding⟩ := hsteady.standing htask hstarted hwork.2 hunasked
      refine ⟨a.pipeline.effort registry.handlers work, fun k inquiry hk hh hi hnot => ?_⟩
      have hpipeline := pipeline_of_run? (run?_of_cleanRun? hrun)
      exact returns_of_standing hstanding (orderly_of_run? (orderly_create hcreate) hpipeline)
        (latched_of_run? hcreate hpipeline) hbefore hh hi hk hnot

end Audience

/-! ## A run -/

namespace Sample

open Audience

/-- `lone` is started on the store 9, as call 2. -/
def reopened : List (Pipeline.Move flow) :=
  .call (.start (9 : Nat) .latest lone) ::
    [.caller 2, .caller 2, .caller 2, .caller 2, .caller 2, .caller 2, .caller 2, .refresher 0,
      .refresher 0, .caller 2, .refresher 1, .refresher 1, .caller 2, .caller 2, .caller 2,
      .caller 2, .caller 2, .caller 2, .caller 2].map .act

/-- The job of `lone` is worked on. -/
def reworked : List (Pipeline.Move flow) :=
  [.feeder 1 .prefetch, .feeder 1 .process, .receiver 0, .receiver 1, .preparation 0 1, .worker 0,
    .worker 0, .worker 0, .worker 1, .worker 1, .worker 1, .worker 1, .worker 1].map .act

/-- The block of `finished` is over, and `lone` is started, which is shorter. Somebody asks for its
result before a worker has a job of it. -/
def asked : List (Move flow) := (finished ++ reopened).map .pipeline ++ [.ask 0 0, .pursue 0]

/-- The job is worked on, and then the call is woken and looks again. -/
def heard : List (Move flow) := reworked.map .pipeline ++ [.pursue 0, .pursue 0]

/-- Whether a call waits for the first result of the handler. -/
def isWaiting : Inquiry flow → Bool
  | ⟨0, 0, .parked _⟩ => true
  | _ => false

/-- Whether a call was answered with the output `n` of the first transaction. -/
def hasHeard (n : Nat) : Inquiry flow → Bool
  | ⟨0, 0, .answered r⟩ => r.output == some n
  | _ => false

theorem eq_parked {inquiry : Inquiry flow} (h : isWaiting inquiry = true) :
    ∃ latch, inquiry = ⟨0, 0, .parked latch⟩ := by
  unfold isWaiting at h
  split at h
  · exact ⟨_, rfl⟩
  · cases h

theorem eq_answered {inquiry : Inquiry flow} {n : Nat} (h : hasHeard n inquiry = true) :
    ∃ r, inquiry = ⟨0, 0, .answered r⟩ ∧ r.output = some n := by
  unfold hasHeard at h
  split at h
  · exact ⟨_, rfl, beq_iff_eq.mp h⟩
  · cases h

end Sample

open Pipeline Sample in
/-- Of the shorter block only one result can be asked for, although the block before it had two
transactions. Who has asked for it returns, and is answered with what was made of the second
store. -/
theorem Audience.results_readable_shorter : ∃ (a b : Audience flow) (latch bound : Nat)
    (r : TxResult Nat),
    (of (ofConfig oneEach adders)).cleanRun? asked = some a ∧ a.FailsFrom 0 1 ∧
    a.inquiries[0]? = some ⟨0, 0, .parked latch⟩ ∧
    a.Returns adders.handlers ⟨(9 : Nat), .latest, lone⟩ 0 ⟨0, 0, .parked latch⟩ bound ∧
    a.cleanRun? heard = some b ∧ b.inquiries[0]? = some ⟨0, 0, .answered r⟩ ∧
    r.output = some 18 ∧
    (Work.resultsOf adders.handlers ⟨(9 : Nat), .latest, lone⟩ 0)[0]? = some r := by
  obtain ⟨a, hrun, ⟨_, hcall, rfl⟩, hwork, hunasked, hopen, ⟨inquiry, hinquiry, hwaiting⟩,
      b, hb, hstill, answered, hanswer, hheard⟩ : ∃ a,
      (of (ofConfig oneEach adders)).cleanRun? asked = some a ∧
        (∃ call, a.pipeline.calls[2]? = some call ∧ call = .returned (.started (.ok ()))) ∧
        a.pipeline.InWork 2 ∧ (∀ call ∈ a.pipeline.calls, call.isFinishing = false) ∧
        a.pipeline.isShut 0 = false ∧
        (∃ inquiry, a.inquiries[0]? = some inquiry ∧ isWaiting inquiry = true) ∧
        ∃ b, a.cleanRun? heard = some b ∧ b.pipeline.InWork 2 ∧
          ∃ inquiry, b.inquiries[0]? = some inquiry ∧ hasHeard 18 inquiry = true := by
    decide +kernel
  obtain ⟨latch, rfl⟩ := eq_parked hwaiting
  obtain ⟨r, rfl, houtput⟩ := eq_answered hheard
  obtain ⟨-, -, -, hserves⟩ :=
    results_readable (show create oneEach adders = .ok _ from rfl) hrun
  obtain ⟨hfails, hhears, hreturns⟩ := hserves 2 ⟨(9 : Nat), .latest, lone⟩ rfl hwork
  obtain ⟨bound, hreturns⟩ := hreturns hcall hunasked
    (fun handler hmem => ⟨(9 : Nat), by rw [List.mem_singleton.mp hmem]; rfl⟩)
  refine ⟨a, b, latch, bound, r, hrun, ?_, hinquiry, ?_, hb, hanswer, houtput, ?_⟩
  · have hfails := hfails 0 (by decide)
    rwa [hopen] at hfails
  · exact hreturns 0 _ hinquiry Nat.zero_lt_one Nat.zero_lt_one (by simp)
  · rcases hhears heard b hb hstill 0 0 0 r hanswer with hold | ⟨hvalue, -⟩
    · rw [hinquiry] at hold
      cases hold
    · exact hvalue

end TxPipeline
