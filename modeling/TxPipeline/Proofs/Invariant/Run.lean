import TxPipeline.Proofs.Invariant.Advance

/-!
# Runs keep the invariant

A pipeline begins between two blocks. After a clean run or a steady one it is between two blocks
again, or has the block of one of its calls in work; which one can be read off the calls and their
answers.
-/

namespace TxPipeline.Pipeline

variable {F : Flow} {calm : Prop} {config : Config} {registry : Registry F}
  {handlers : List (Handler F)}
  {past : List (Work F)} {work : Work F} {phase : Phase F} {p q r : Pipeline F}
  {moves : List (Move F)} {c f : Nat}

/-! ## The beginning -/

theorem mem_crew {worker : Worker F} (h : worker ∈ crew config) : worker.activity = .idle := by
  rcases List.mem_append.mp h with h | h <;> rw [List.eq_of_mem_replicate h]

theorem stage_mem_crew (hvalid : config.validate = .ok ()) (stage : Stage) :
    stage ∈ (crew config : List (Worker F)).map (·.stage) := by
  unfold Config.validate at hvalid
  split at hvalid
  · cases hvalid
  split at hvalid
  · cases hvalid
  cases stage <;> simp [crew, *]

theorem load_ofConfig (config : Config) (registry : Registry F) (c : Checkpoint) :
    (ofConfig config registry).load c = 0 := by
  refine load_of_empty ?_ (fun _ hf => absurd hf List.not_mem_nil) fun worker hworker => ?_
  · cases c.stage <;> rfl
  · rw [mem_crew hworker, Activity.due]

theorem clear_create (handler : Handler F) : (Station.create handler).Clear where
  blockLength := rfl
  sender := rfl
  remaining := rfl
  receiver := rfl
  fault := rfl
  common := rfl
  aggregated := rfl
  data := fun _ h => absurd h List.not_mem_nil
  results := fun _ h => absurd h List.not_mem_nil

theorem eq_ofConfig (hcreate : create config registry = .ok p) :
    config.validate = .ok () ∧ p = ofConfig config registry := by
  unfold create at hcreate
  cases hvalid : config.validate with
  | error error => simp [hvalid, bind, Except.bind] at hcreate
  | ok _ =>
      simp only [hvalid, bind, Except.bind, pure, Except.pure, Except.ok.injEq] at hcreate
      exact ⟨rfl, hcreate.symm⟩

theorem between_create (hcreate : create config registry = .ok p) (calm : Prop) :
    p.Between calm registry.handlers [] := by
  obtain ⟨hvalid, rfl⟩ := eq_ofConfig hcreate
  exact {
    crew := {
      handlers_eq := by simp [ofConfig, Station.create, Function.comp_def]
      receivers := by simp [ofConfig, Snapshot.Relay.ready, crew]
      reports := by simp [ofConfig, Snapshot.Relay.ready, Snapshot.Distributor.create]
      staffed := stage_mem_crew hvalid
      alive := fun worker hworker fault => by simp [mem_crew hworker]
      exited := fun worker hworker hexit => by simp [mem_crew hworker] at hexit
      closed := fun h => by cases h
      checked := fun c h => by simp [ofConfig] at h }
    feeders := rfl
    calls := .inl ⟨rfl, rfl, 0, fun i call h => by simp [ofConfig] at h,
      fun call h => by simp [ofConfig] at h⟩
    relay := ⟨none, Snapshot.Relay.rests_ready _⟩
    load := load_ofConfig config registry
    stations := fun h s hs => by
      rw [show (ofConfig config registry).stations = registry.handlers.map Station.create from
        rfl, List.getElem?_map] at hs
      obtain ⟨handler, -, rfl⟩ := Option.map_eq_some_iff.mp hs
      exact ⟨clear_create handler, .nil⟩
    ledger := fun _ hash => by simp [ofConfig, Gas.Ledger.find?, Gas.Ledger.empty] }

theorem calls_create (hcreate : create config registry = .ok p) : p.calls = [] := by
  obtain ⟨-, rfl⟩ := eq_ofConfig hcreate
  rfl

theorem length_calls_eq (hcreate : create config registry = .ok p)
    (hrun : p.run? moves = some q) : q.calls.length = (tasks moves).length := by
  rw [length_calls_of_run? hrun, calls_create hcreate, List.length_nil, Nat.zero_add]

theorem exists_call {task : Task F} (hcreate : create config registry = .ok p)
    (hrun : p.run? moves = some q) (htask : (tasks moves)[c]? = some task) :
    ∃ call, q.calls[c]? = some call ∧ (Call.ofTask task).Turns call := by
  have hfirst : (p.calls ++ (tasks moves).map Call.ofTask)[c]? = some (Call.ofTask task) := by
    rw [calls_create hcreate, List.nil_append, List.getElem?_map, htask, Option.map_some]
  exact exists_turns_of_run? hrun hfirst

theorem exists_task {call : Call F} (hcreate : create config registry = .ok p)
    (hrun : p.run? moves = some q) (hcall : q.calls[c]? = some call) :
    ∃ task, (tasks moves)[c]? = some task ∧ (Call.ofTask task).Turns call := by
  have hlt := (List.getElem?_eq_some_iff.mp hcall).1
  rw [length_calls_eq hcreate hrun] at hlt
  have htask := List.getElem?_eq_getElem hlt
  obtain ⟨next, hnext, hturns⟩ := exists_call hcreate hrun htask
  obtain rfl : next = call := by simpa [hnext] using hcall
  exact ⟨_, htask, hturns⟩

/-- A call that has returned from a start was made to start a block. -/
theorem exists_work {outcome : Except Failure Unit} (hcreate : create config registry = .ok p)
    (hrun : p.run? moves = some q)
    (hcall : q.calls[c]? = some (.returned (.started outcome))) :
    ∃ work : Work F, (tasks moves)[c]? = some work.task := by
  obtain ⟨task, htask, hturns⟩ := exists_task hcreate hrun hcall
  cases task with
  | start store rules block => exact ⟨⟨store, rules, block⟩, htask⟩
  | finish | close => cases hturns

theorem During.eq_started (hp : p.During calm handlers past work phase)
    (hphase : phase.isAttended = true) (hquiet : p.isQuiet = true) : phase = .started := by
  cases phase with
  | started => rfl
  | starting d next => cases hphase
  | abandoned joined concluded => cases hphase
  | finishing d origin store block receipts next =>
      cases isSettled_of_isQuiet hquiet hp.finish_eq

theorem During.not_quiet {next : Starting}
    (hp : p.During calm handlers past work (.starting c next)) :
    p.isQuiet ≠ true := fun hquiet => by cases isSettled_of_isQuiet hquiet hp.call_eq

/-! ## The order of calls -/

/-- Since a call began that is still under way, nothing was asked for but to close the pipeline. -/
def Successive (p : Pipeline F) : Prop :=
  ∀ (c : Nat) (call : Call F) (f : Nat) (other : Call F), p.calls[c]? = some call →
    call.isSettled = false → c < f → p.calls[f]? = some other → other.isClosing = true

theorem successive_create (hcreate : create config registry = .ok p) : p.Successive := by
  intro c call f other hcall
  simp [calls_create hcreate] at hcall

namespace Successive

theorem invoke {task : Task F} (hp : p.Successive) (hadmits : p.admits task = true) :
    (p.invoke task).Successive := by
  intro c call f other hcall hunsettled hlt hother
  rcases getElem?_of_invoke hother with hother | ⟨rfl, rfl⟩
  · rw [getElem?_invoke_of_lt (hlt.trans (List.getElem?_eq_some_iff.mp hother).1)] at hcall
    exact hp c call f other hcall hunsettled hlt hother
  · -- a call that is not settled is in the way of all new ones but those that close
    rw [getElem?_invoke_of_lt hlt] at hcall
    cases task with
    | close => rfl
    | start store rules block =>
        have hquiet : p.isQuiet = true := (Bool.and_eq_true_iff.mp hadmits).1
        rw [isSettled_of_isQuiet hquiet hcall] at hunsettled
        cases hunsettled
    | finish store block receipts =>
        have hquiet : p.isQuiet = true := (Bool.and_eq_true_iff.mp hadmits).1
        rw [isSettled_of_isQuiet hquiet hcall] at hunsettled
        cases hunsettled

theorem of_continues (hp : p.Successive) (hgoes : p.Continues q) : q.Successive := by
  intro c call f other hcall hunsettled hlt hother
  obtain ⟨old, hold, hturns⟩ := hgoes.exists_turned hcall
  obtain ⟨old', hold', hturns'⟩ := hgoes.exists_turned hother
  refine hturns'.isClosing (hp c old f old' hold ?_ hlt hold')
  cases hsettled : old.isSettled with
  | false => rfl
  | true =>
      rw [hturns.isSettled hsettled] at hunsettled
      cases hunsettled

theorem not_over {call : Call F} (hp : p.Successive) (hcall : p.calls[c]? = some call)
    (hunsettled : call.isSettled = false) : ¬ p.Over c := by
  rintro ⟨f, fault, store, hlt, hf⟩
  cases hp c call f _ hcall hunsettled hlt hf

end Successive

/-! ## Chronicles -/

/-- Call `c` has started its block, and every call before it has ended. -/
structure Started (p : Pipeline F) (c : Nat) : Prop where
  returned : p.calls[c]? = some (.returned (.started (.ok ())))
  before : ∀ i call, p.calls[i]? = some call → i < c → call.isSettled = true

theorem Started.lt {call : Call F} (hp : p.Started c) (hcall : p.calls[f]? = some call)
    (hsettled : call.isSettled = false) : c < f := by
  by_contra hge
  rcases Nat.lt_or_eq_of_le (Nat.le_of_not_lt hge) with hlt | rfl
  · rw [hp.before f call hcall hlt] at hsettled
    cases hsettled
  · rw [hp.returned] at hcall
    cases hcall
    cases hsettled

theorem Started.invoke (hp : p.Started c) (task : Task F) : (p.invoke task).Started c where
  returned := getElem?_append_calls hp.returned rfl
  before := fun i call hcall hlt => by
    have hc := (List.getElem?_eq_some_iff.mp hp.returned).1
    rw [getElem?_invoke_of_lt (hlt.trans hc)] at hcall
    exact hp.before i call hcall hlt

theorem Started.step? {actor : Actor} (hp : p.Started c) (hstep : p.step? actor = some q) :
    q.Started c where
  returned := by
    obtain ⟨next, hnext, hturns⟩ := exists_turns_of_step? hstep hp.returned
    cases hturns
    exact hnext
  before := fun i call hcall hlt =>
    isSettled_of_step? hstep hcall fun old hold => hp.before i old hold hlt

/-- What a run with these tasks has come to. -/
inductive Chronicle (calm : Prop) (handlers : List (Handler F)) (ts : List (Task F))
    (p : Pipeline F) : Prop
  | between (past : List (Work F)) (hp : p.Between calm handlers past)
      (hover : ∀ i, p.Accepted i → p.Over i)
  | starting (past : List (Work F)) (work : Work F) (c : Nat) (next : Starting)
      (hp : p.During calm handlers past work (.starting c next)) (htask : ts[c]? = some work.task)
      (hover : ∀ i, p.Accepted i → i ≠ c → p.Over i) (hnot : ¬ p.Over c)
  | started (past : List (Work F)) (work : Work F) (phase : Phase F) (c : Nat)
      (hp : p.During calm handlers past work phase) (hphase : phase.isAttended = true)
      (htask : ts[c]? = some work.task) (hstarted : p.Started c)
      (hover : ∀ i, p.Accepted i → i ≠ c → p.Over i) (hnot : ¬ p.Over c)

/-- No call is over while its block goes on. -/
theorem During.not_over {actor : Actor} {past' : List (Work F)} {phase' : Phase F}
    (hp : p.During calm handlers past work phase) (hon : phase.isOn = true)
    (hgoes : p.Proceeds calm actor) (hstep : p.step? actor = some q) (hnot : ¬ p.Over c)
    (hq : q.During calm handlers past' work phase') (hon' : phase'.isOn = true) : ¬ q.Over c := by
  intro hover
  obtain ⟨joined, concluded, rfl⟩ := (hp.departs hon hgoes hstep hnot hover).1.not_during hq
  cases hon'

namespace Chronicle

variable {ts : List (Task F)}

theorem invoke {task : Task F} (hp : Chronicle calm handlers ts p)
    (hadmits : p.admits task = true) :
    Chronicle calm handlers (ts ++ [task]) (p.invoke task) := by
  have hstays {c : Nat} (hover : ∀ i, p.Accepted i → i ≠ c → p.Over i) (i : Nat)
      (h : (p.invoke task).Accepted i) (hne : i ≠ c) : (p.invoke task).Over i :=
    (hover i (accepted_of_invoke h) hne).invoke task
  have hkept {c : Nat} {old : Task F} (htask : ts[c]? = some old) :
      (ts ++ [task])[c]? = some old := by
    rw [List.getElem?_append_left (List.getElem?_eq_some_iff.mp htask).1, htask]
  cases hp with
  | between past hp hover =>
      exact .between past (hp.invoke hadmits) fun i h =>
        (hover i (accepted_of_invoke h)).invoke task
  | starting past work c next hp htask hover hnot =>
      exact .starting past work c next (hp.invoke hadmits) (hkept htask) (hstays hover)
        (mt over_of_invoke hnot)
  | started past work phase c hp hphase htask hstarted hover hnot =>
      exact .started past work phase c (hp.invoke hadmits) hphase (hkept htask)
        (hstarted.invoke task) (hstays hover) (mt over_of_invoke hnot)

theorem step? {actor : Actor} (hp : Chronicle calm handlers ts p)
    (hlink : ∀ (i : Nat) (call : Call F), p.calls[i]? = some call →
      ∃ task, ts[i]? = some task ∧ (Call.ofTask task).Turns call)
    (hsuccessive : p.Successive) (hgoes : p.Proceeds calm actor)
    (hstep : p.step? actor = some q) : Chronicle calm handlers ts q := by
  cases hp with
  | between past hp hover =>
      rcases hp.step? hgoes hstep with
        ⟨hq, haccepted⟩ | ⟨c, store, rules, block, plan, hcall, rfl, hq⟩
      · exact .between past hq fun i h => (hover i (haccepted i h)).step? hstep
      · -- call `c` was at its scan, and has brought its block into work
        obtain ⟨task, htask, hturns⟩ := hlink c _ hcall
        have htask' : ts[c]? = some (.start store rules block) := by
          cases task <;> cases hturns
          exact htask
        refine .starting past ⟨store, rules, block⟩ c _ hq htask' ?_
          ((hsuccessive.of_continues (continues_of_step? hstep)).not_over hq.call_eq rfl)
        intro i h hne
        rcases accepted_of_step? hstep h with h | ⟨heq, -⟩
        · exact (hover i h).step? hstep
        · cases heq
          exact absurd rfl hne
  | starting past work c next hp htask hover hnot =>
      have hover' (i : Nat) (h : q.Accepted i) (hne : i ≠ c) : q.Over i :=
        (hover i (hp.accepted_of_step? hstep h) hne).step? hstep
      rcases hp.step?_starting hgoes hstep with ⟨next', hq⟩ | ⟨hq, hreturned⟩
      · exact .starting past work c next' hq htask hover' (hp.not_over rfl hgoes hstep hnot hq rfl)
      · have hstarted : q.Started c := ⟨hreturned, fun i call hcall hlt =>
          isSettled_of_step? hstep hcall fun old hold => hp.call_minds i old hold hlt.ne⟩
        exact .started past work .started c hq rfl htask hstarted hover'
          (hp.not_over rfl hgoes hstep hnot hq rfl)
  | started past work phase c hp hphase htask hstarted hover hnot =>
      have hover' (i : Nat) (h : q.Accepted i) (hne : i ≠ c) : q.Over i :=
        (hover i (hp.accepted_of_step? hstep h) hne).step? hstep
      have hstarted' := hstarted.step? hstep
      cases phase with
      | starting d next => cases hphase
      | abandoned joined concluded => cases hphase
      | started =>
          rcases hp.step?_started hgoes hstep with hq | ⟨f, store, block, receipts, -, hq⟩
          · exact .started past work .started c hq rfl htask hstarted' hover'
              (hp.not_over rfl hgoes hstep hnot hq rfl)
          · exact .started past work _ c hq rfl htask hstarted' hover'
              (hp.not_over rfl hgoes hstep hnot hq rfl)
      | finishing f origin store block receipts next =>
          rcases hp.step?_finishing hgoes hstep with
            ⟨store', next', hq⟩ | ⟨hq, fault, store', hreturned, -⟩
          · exact .started past work _ c hq rfl htask hstarted' hover'
              (hp.not_over rfl hgoes hstep hnot hq rfl)
          · refine .between (past ++ [work]) hq ?_
            intro i h
            -- the call that has returned comes after the one that started the block
            by_cases hi : i = c
            · exact ⟨f, fault, store', hi ▸ hstarted.lt hp.finish_eq rfl, hreturned⟩
            · exact hover' i h hi

/-- A call is denied a thread before its block comes into work. -/
theorem deny? {reason : String} (hp : Chronicle calm handlers ts p)
    (hdeny : p.deny? c reason = some q) : Chronicle calm handlers ts q := by
  cases hp with
  | between past hp hover =>
      exact .between past (hp.deny? hdeny) fun i h =>
        (continues_of_deny? hdeny).over (hover i (accepted_of_deny? hdeny h))
  | starting past work d next hp => cases (hp.deny?_eq_none c reason).symm.trans hdeny
  | started past work phase d hp => cases (hp.deny?_eq_none c reason).symm.trans hdeny

theorem of_create (hcreate : create config registry = .ok p) (calm : Prop) :
    Chronicle calm registry.handlers [] p := by
  refine .between [] (between_create hcreate calm) ?_
  rintro i ⟨call, hcall, -⟩
  simp [calls_create hcreate] at hcall

/-- What holds of a run in which calls come one after the other and every move goes on. -/
theorem of_runWhile? {ok : Pipeline F → Move F → Bool}
    (hcall : ∀ p task, ok p (.call task) = true → p.admits task = true)
    (hact : ∀ p actor, ok p (.act actor) = true → p.Proceeds calm actor)
    (hcreate : create config registry = .ok p) (hrun : p.runWhile? ok moves = some q) :
    Chronicle calm registry.handlers (tasks moves) q ∧ q.Successive := by
  refine runWhile?_induction
    (P := fun moves q => Chronicle calm registry.handlers (tasks moves) q ∧ q.Successive) hrun
    ⟨of_create hcreate calm, successive_create hcreate⟩ ?_ ?_ ?_
  · rintro moves q task _ ⟨hq, hsuccessive⟩ hok
    rw [tasks_append]
    exact ⟨hq.invoke (hcall q task hok), hsuccessive.invoke (hcall q task hok)⟩
  · rintro moves q actor next hrun ⟨hq, hsuccessive⟩ hok hstep
    rw [tasks_append_act]
    exact ⟨hq.step? (fun i call => exists_task hcreate (run?_of_runWhile? hrun)) hsuccessive
      (hact q actor hok) hstep, hsuccessive.of_continues (continues_of_step? hstep)⟩
  · rintro moves q c reason next - ⟨hq, hsuccessive⟩ hdeny
    rw [tasks_append_deny]
    exact ⟨hq.deny? hdeny, hsuccessive.of_continues (continues_of_deny? hdeny)⟩

theorem of_cleanRun? (hcreate : create config registry = .ok p)
    (hrun : p.cleanRun? moves = some q) : Chronicle True registry.handlers (tasks moves) q := by
  rw [cleanRun?_eq] at hrun
  exact (of_runWhile? (fun _ _ h => h) (fun _ _ h => .of_clean (by simpa [isClean] using h)) hcreate
    hrun).1

theorem of_steadyRun? (hcreate : create config registry = .ok p)
    (hrun : p.steadyRun? moves = some q) : Chronicle False registry.handlers (tasks moves) q :=
  (of_runWhile? (fun _ _ h => h) (fun _ _ h => .of_steady h) hcreate hrun).1

theorem crew {ts : List (Task F)} (hp : Chronicle calm handlers ts p) : p.Crew handlers := by
  cases hp with
  | between past hp => exact hp.crew
  | starting past work c next hp => exact hp.crew
  | started past work phase c hp => exact hp.crew

/-- Only between two blocks does a call scan its block. -/
theorem between_of_scan {store : F.Store} {rules : Rules} {block : Block}
    (hp : Chronicle calm handlers ts p)
    (hcall : p.calls[c]? = some (.start store rules block .scan)) :
    ∃ past, p.Between calm handlers past := by
  cases hp with
  | between past hp => exact ⟨past, hp⟩
  | starting past work d next hp => exact (hp.eq_starting hcall (by simp)).2.elim
  | started past work phase d hp hphase => exact (hp.eq_starting hcall (by simp)).2.elim

/-- No block but that of call `d` is in work. -/
theorem eq_of_inWork {ts : List (Task F)} {work other : Work F} {d : Nat}
    (htask : ts[c]? = some work.task) (hwork : q.InWork c) (hother : ts[d]? = some other.task)
    (hover : ∀ i, q.Accepted i → i ≠ d → q.Over i) : d = c ∧ other = work := by
  obtain rfl : c = d := by
    by_contra hne
    exact hwork.2 (hover c hwork.1 hne)
  refine ⟨rfl, ?_⟩
  exact Work.task_injective (Option.some.inj (hother.symm.trans htask))

/-- A block that was started, and that no call has finished, is in work. -/
theorem exists_attended {ts : List (Task F)} {work : Work F} (hq : Chronicle calm handlers ts q)
    (htask : ts[c]? = some work.task)
    (hstarted : q.calls[c]? = some (.returned (.started (.ok ())))) (hover : ¬ q.Over c) :
    ∃ past phase, q.During calm handlers past work phase ∧ phase.isAttended = true := by
  have hwork : q.InWork c := ⟨⟨_, hstarted, rfl⟩, hover⟩
  cases hq with
  | between past hq hover => exact absurd (hover c hwork.1) hwork.2
  | starting past other d next hq hother hover =>
      obtain ⟨rfl, rfl⟩ := eq_of_inWork htask hwork hother hover
      have hcall := hq.call_eq
      rw [hstarted] at hcall
      cases hcall
  | started past other phase d hq hphase hother _ hover =>
      obtain ⟨-, rfl⟩ := eq_of_inWork htask hwork hother hover
      exact ⟨past, phase, hq, hphase⟩

/-- The block that a call has brought into work stays in work until it is finished. Only that call
can still be starting it, and while no call is at work on it, it is started. -/
theorem exists_phase {ts : List (Task F)} (work : Work F) (hq : Chronicle calm handlers ts q)
    (htask : ts[c]? = some work.task) (hwork : q.InWork c) :
    ∃ past phase, q.During calm handlers past work phase ∧
      (∀ d next, phase = .starting d next → d = c) ∧
      (q.isQuiet = true → phase = .started) := by
  cases hq with
  | between past hq hover => exact absurd (hover c hwork.1) hwork.2
  | starting past other d next hq hother hover =>
      obtain ⟨rfl, rfl⟩ := eq_of_inWork htask hwork hother hover
      exact ⟨past, _, hq, fun _ _ h => by cases h; rfl, fun hquiet => absurd hquiet hq.not_quiet⟩
  | started past other phase d hq hphase hother _ hover =>
      obtain ⟨-, rfl⟩ := eq_of_inWork htask hwork hother hover
      refine ⟨past, phase, hq, ?_, hq.eq_started hphase⟩
      rintro d next rfl
      cases hphase

end Chronicle

/-- In a clean run the phase of a block in work is known, and no fault but one over a transaction
was raised. -/
theorem exists_phase (work : Work F) (hcreate : create config registry = .ok p)
    (hrun : p.cleanRun? moves = some q)
    (htask : (tasks moves)[c]? = some work.task) (hwork : q.InWork c) :
    ∃ past phase, q.During True registry.handlers past work phase ∧
      (∀ d next, phase = .starting d next → d = c) ∧
      (q.isQuiet = true → phase = .started) :=
  (Chronicle.of_cleanRun? hcreate hrun).exists_phase work htask hwork

end TxPipeline.Pipeline
