import TxPipeline.Proofs.Activities
import TxPipeline.Proofs.Admission.Answers

/-!
# The call that closes a pipeline

One call takes the pools, and waits for one worker after the other until all of them have left.
Every other call that closes the pipeline finds the pools taken and returns at once.
-/

namespace TxPipeline

variable {F : Flow}

/-- Whether the call has taken the pools, or has found them taken. -/
def Call.hasTaken : Call F → Bool
  | .close .take => false
  | call => call.isClosing

theorem Call.hasTaken_close {next : Closing} (h : next ≠ .take) :
    (Call.close next : Call F).hasTaken = true := by
  cases next with
  | take => exact absurd rfl h
  | _ => rfl

theorem Activity.Turns.not_over {activity activity' : Activity F} (h : activity.Turns activity') :
    activity.isOver = false := by
  cases h with
  | die job fault hjob => cases activity <;> first | rfl | cases hjob
  | _ => rfl

/-- A worker that has ended does nothing any more. -/
theorem Worker.Turns.isOver {copy : Option F.Store} {worker worker' : Worker F}
    (h : worker.Turns copy worker') (hover : worker.activity.isOver = true) :
    worker'.activity.isOver = true := by
  cases h with
  | stay => exact hover
  | work stage h => simp [h.not_over] at hover
  | _ => cases hover

namespace Pipeline

variable {p q : Pipeline F} {c : Nat} {next next' : Closing} {actor : Actor}
  {moves : List (Move F)} {config : Config} {registry : Registry F}

/-- Call `c` has taken the pools, and has not returned. -/
def HoldsPools (p : Pipeline F) (c : Nat) : Prop :=
  ∃ next, p.calls[c]? = some (.close next) ∧ next ≠ .take

/-- How far the pipeline has come with being closed. -/
inductive Retires (p : Pipeline F) : Prop
  | opened (hopen : p.isOpen = true)
      (hnone : ∀ (i : Nat) call, p.calls[i]? = some call → call.hasTaken = false)
  | retiring (c : Nat) (next : Closing) (hclosed : p.isOpen = false)
      (hcall : p.calls[c]? = some (.close next)) (hnext : next ≠ .take)
      (hothers : ∀ (i : Nat) call, p.calls[i]? = some call → i ≠ c → call.hasTaken = true →
        call.isReturned = true)
      (hjoined : ∀ w, next = .join w → ∀ v < w, ∀ worker, p.workers[v]? = some worker →
        worker.activity.isOver = true)
  | retired (c : Nat) (hclosed : p.isOpen = false)
      (hcall : p.calls[c]? = some (.returned .closed))
      (hothers : ∀ (i : Nat) call, p.calls[i]? = some call → call.hasTaken = true →
        call.isReturned = true)
      (hover : ∀ worker ∈ p.workers, worker.activity.isOver = true)

namespace Retires

/-- Calls that have nothing to do with the pools leave everything as it is. -/
theorem keep (h : p.Retires) (hopen : q.isOpen = p.isOpen)
    (hcalls : ∀ (i : Nat) call, call.hasTaken = true →
      (q.calls[i]? = some call ↔ p.calls[i]? = some call))
    (hworkers : Employs p.relay p.workers q.workers) : q.Retires := by
  have hothers {i : Nat} {call : Call F} (hcall : q.calls[i]? = some call)
      (hold : p.calls[i]? = some call → call.hasTaken = true → call.isReturned = true)
      (htaken : call.hasTaken = true) : call.isReturned = true :=
    hold ((hcalls i call htaken).mp hcall) htaken
  cases h with
  | opened hwas hnone =>
      refine .opened (hopen.trans hwas) fun i call hcall => ?_
      by_contra htaken
      have htaken : call.hasTaken = true := by simpa using htaken
      rw [hnone i call ((hcalls i call htaken).mp hcall)] at htaken
      cases htaken
  | retiring c next hclosed hcall hnext hold hjoined =>
      refine .retiring c next (hopen.trans hclosed)
        ((hcalls c _ (Call.hasTaken_close hnext)).mpr hcall) hnext
        (fun i call hi hne => hothers hi fun hi => hold i call hi hne)
        fun w hw v hv worker' hworker' => ?_
      obtain ⟨worker, hworker, hturns⟩ := hworkers.2 v worker' hworker'
      exact hturns.isOver (hjoined w hw v hv worker hworker)
  | retired c hclosed hcall hold hover =>
      refine .retired c (hopen.trans hclosed) ((hcalls c _ rfl).mpr hcall)
        (fun i call hi => hothers hi (hold i call)) fun worker' hworker' => ?_
      obtain ⟨v, hv⟩ := List.mem_iff_getElem?.mp hworker'
      obtain ⟨worker, hworker, hturns⟩ := hworkers.2 v worker' hv
      exact hturns.isOver (hover worker (List.mem_of_getElem? hworker))

/-- There is one call that waits for the workers, and it knows of those for which it has waited. -/
theorem of_close (h : p.Retires) (hcall : p.calls[c]? = some (.close next)) (hnext : next ≠ .take) :
    p.isOpen = false ∧
      (∀ (i : Nat) call, p.calls[i]? = some call → i ≠ c → call.hasTaken = true →
        call.isReturned = true) ∧
      ∀ w, next = .join w → ∀ v < w, ∀ worker, p.workers[v]? = some worker →
        worker.activity.isOver = true := by
  have htaken : (Call.close next : Call F).hasTaken = true := Call.hasTaken_close hnext
  cases h with
  | opened hopen hnone =>
      rw [hnone c _ hcall] at htaken
      cases htaken
  | retiring d other hclosed hother hne hothers hjoined =>
      obtain rfl : c = d := by
        by_contra hcd
        cases hothers c _ hcall hcd htaken
      rw [hother] at hcall
      cases hcall
      exact ⟨hclosed, hothers, hjoined⟩
  | retired d hclosed hother hothers hover => cases hothers c _ hcall htaken

/-- The call that waits for the workers goes on to the next one. -/
theorem turn (h : p.Retires) (hcall : p.calls[c]? = some (.close next)) (hnext : next ≠ .take)
    (hcalls : q.calls = p.calls.set c (.close next')) (hnext' : next' ≠ .take)
    (hopen : q.isOpen = p.isOpen) (hworkers : q.workers = p.workers)
    (hjoined : ∀ w, next' = .join w → ∀ v < w, ∀ worker, p.workers[v]? = some worker →
      worker.activity.isOver = true) : q.Retires := by
  obtain ⟨hclosed, hothers, -⟩ := h.of_close hcall hnext
  refine .retiring c next' (hopen.trans hclosed) (getElem?_of_set_calls hcall hcalls) hnext'
    (fun i call hi hne => ?_) (hworkers ▸ hjoined)
  rw [hcalls, getElem?_set_calls hcall, if_neg hne] at hi
  exact hothers i call hi hne

/-- A call that finds the pools taken is out of the way. -/
theorem miss (h : p.Retires) (hcall : p.calls[c]? = some (.close .take))
    (hclosed : p.isOpen = false) (hcalls : q.calls = p.calls.set c (.returned .closed))
    (hopen : q.isOpen = p.isOpen) (hworkers : q.workers = p.workers) : q.Retires := by
  have hget {i : Nat} {call : Call F} (hne : i ≠ c) :
      q.calls[i]? = some call ↔ p.calls[i]? = some call := by
    rw [hcalls, getElem?_set_calls hcall, if_neg hne]
  have hothers {i : Nat} {call : Call F} (hi : q.calls[i]? = some call)
      (hold : p.calls[i]? = some call → call.isReturned = true) : call.isReturned = true := by
    by_cases hne : i = c
    · subst hne
      rw [getElem?_of_set_calls hcall hcalls] at hi
      cases hi
      rfl
    · exact hold ((hget hne).mp hi)
  cases h with
  | opened hwas hnone =>
      rw [hwas] at hclosed
      cases hclosed
  | retiring d next hclosed hother hnext hold hjoined =>
      have hne : d ≠ c := by
        rintro rfl
        rw [hcall] at hother
        cases hother
        exact hnext rfl
      exact .retiring d next (hopen.trans hclosed) ((hget hne).mpr hother) hnext
        (fun i call hi hne htaken => hothers hi fun hi => hold i call hi hne htaken)
        (hworkers ▸ hjoined)
  | retired d hclosed hother hold hover =>
      have hne : d ≠ c := by
        rintro rfl
        rw [hcall] at hother
        cases hother
      exact .retired d (hopen.trans hclosed) ((hget hne).mpr hother)
        (fun i call hi htaken => hothers hi fun hi => hold i call hi htaken) (hworkers ▸ hover)

/-- One more worker is waited for. -/
theorem joined_succ {w : Nat} {worker : Worker F} (h : p.Retires)
    (hcall : p.calls[c]? = some (.close (.join w))) (hw : p.workers[w]? = some worker)
    (hover : worker.activity.isOver = true) :
    ∀ w', Closing.join (w + 1) = .join w' → ∀ v < w', ∀ other, p.workers[v]? = some other →
      other.activity.isOver = true := by
  rintro _ ⟨⟩ v hv other hother
  obtain ⟨-, -, hjoined⟩ := h.of_close hcall (by simp)
  rcases Nat.lt_succ_iff_lt_or_eq.mp hv with hlt | rfl
  · exact hjoined w rfl v hlt other hother
  · rw [hw] at hother
    cases hother
    exact hover

theorem closeMove (h : p.Retires) (hcall : p.calls[c]? = some (.close next))
    (hmove : p.CloseMove c next q) : q.Retires := by
  have hset {call other : Call F} {i : Nat} (hi : (p.calls.set c other)[i]? = some call)
      (hne : i ≠ c) : p.calls[i]? = some call := by
    rwa [getElem?_set_calls hcall, if_neg hne] at hi
  cases hmove with
  | take hopen =>
      cases h with
      | opened hopen hnone =>
          refine .retiring c .check rfl (getElem?_of_set_calls hcall rfl) (by simp)
            (fun i call hi hne htaken => ?_) fun w hw => by cases hw
          rw [hnone i call (hset hi hne)] at htaken
          cases htaken
      | retiring d next hclosed | retired d hclosed =>
          rw [hopen] at hclosed
          cases hclosed
  | miss hclosed => exact h.miss hcall hclosed rfl rfl rfl
  | check log hunlocked =>
      refine h.turn hcall (by simp) rfl (by simp) rfl rfl fun w hw v hv => ?_
      cases hw
      exact absurd hv (Nat.not_lt_zero v)
  | closed w hw =>
      obtain ⟨hclosed, hothers, hjoined⟩ := h.of_close hcall (by simp)
      refine .retired c hclosed (getElem?_of_set_calls hcall rfl) (fun i call hi htaken => ?_) ?_
      · by_cases hne : i = c
        · rw [hne, getElem?_of_set_calls hcall rfl] at hi
          cases hi
          rfl
        · exact hothers i call (hset hi hne) hne htaken
      · -- it has waited for every worker that there is
        intro worker hworker
        obtain ⟨v, hv⟩ := List.mem_iff_getElem?.mp hworker
        have hlt := (List.getElem?_eq_some_iff.mp hv).1
        exact hjoined w rfl v (hlt.trans_le (List.getElem?_eq_none_iff.mp hw)) worker hv
  | join w worker hw hexited =>
      exact h.turn hcall (by simp) rfl (by simp) rfl rfl
        (h.joined_succ hcall hw (by rw [hexited, Activity.isOver]))
  | lost w worker fault hw hdead =>
      exact h.turn hcall (by simp) rfl (by simp) rfl rfl
        (h.joined_succ hcall hw (by rw [hdead, Activity.isOver]))

theorem invoke (h : p.Retires) (task : Task F) : (p.invoke task).Retires := by
  refine h.keep rfl (fun i call htaken => ⟨fun hcall => ?_, fun hcall =>
    getElem?_append_calls hcall rfl⟩) (.refl _ _)
  rcases getElem?_of_invoke hcall with hcall | ⟨-, rfl⟩
  · exact hcall
  · cases task <;> cases htaken

theorem step? (h : p.Retires) (hstep : p.step? actor = some q) : q.Retires := by
  by_cases hcloses : ∃ c next, actor = .caller c ∧ p.calls[c]? = some (.close next)
  · obtain ⟨c, next, rfl, hcall⟩ := hcloses
    rw [step?_of_close hcall] at hstep
    exact h.closeMove hcall (closeMove_of_stepClose? hstep)
  · have hopen : q.isOpen = p.isOpen := by
      refine (isOpen_or_closeMove_of_step? hstep).resolve_right ?_
      rintro ⟨c, next, hactor, hcall, -⟩
      exact hcloses ⟨c, next, hactor, hcall⟩
    refine h.keep hopen (fun i call htaken => ?_) (employs_of_step? hstep)
    by_cases hactor : actor = .caller i
    · -- a call that does not close the pipeline turns into none that does
      constructor
      · intro hcall
        obtain ⟨old, hold, hturns⟩ := exists_turned_of_step? hstep hcall
        cases hturns with
        | returned => exact hold
        | close next | closed next => exact absurd ⟨i, next, hactor, hold⟩ hcloses
        | _ => cases htaken
      · intro hcall
        obtain ⟨turned, hturned, hturns⟩ := exists_turns_of_step? hstep hcall
        cases hturns with
        | returned => exact hturned
        | close next | closed next => exact absurd ⟨i, next, hactor, hcall⟩ hcloses
        | _ => cases htaken
    · rw [getElem?_calls_of_step? hstep hactor]

theorem deny? {reason : String} (h : p.Retires) (hdeny : p.deny? c reason = some q) :
    q.Retires := by
  have hcalls (i : Nat) (call : Call F) (htaken : call.hasTaken = true) :
      q.calls[i]? = some call ↔ p.calls[i]? = some call := by
    by_cases hi : i = c
    · obtain ⟨_, _, _, hscan, -⟩ := turns_of_deny? hdeny
      rw [hi, getElem?_of_deny? hdeny, hscan]
      constructor <;> rintro ⟨⟩ <;> cases htaken
    · rw [getElem?_calls_of_deny? hdeny hi]
  refine h.keep (isOpen_of_deny? hdeny) hcalls ?_
  obtain ⟨_, _, _, _, rfl⟩ := eq_of_deny? hdeny
  exact .refl _ _

theorem of_run? (hcreate : create config registry = .ok p) (hrun : p.run? moves = some q) :
    q.Retires := by
  refine run?_induction (P := Retires) hrun (.opened ?_ fun i call hcall => ?_)
    (fun _ task h => h.invoke task) (fun _ _ _ h hstep => h.step? hstep)
    fun _ _ _ _ h hdeny => h.deny? hdeny
  · obtain ⟨-, rfl⟩ := eq_ofConfig hcreate
    rfl
  · simp [calls_create hcreate] at hcall

/-! ## What this says about calls -/

theorem isOpen_eq_false_iff (h : p.Retires) :
    p.isOpen = false ↔ ∃ (c : Nat) (call : Call F), p.calls[c]? = some call ∧
      call.hasTaken = true := by
  constructor
  · intro hclosed
    cases h with
    | opened hopen hnone =>
        rw [hopen] at hclosed
        cases hclosed
    | retiring c next hclosed hcall hnext => exact ⟨c, _, hcall, Call.hasTaken_close hnext⟩
    | retired c hclosed hcall => exact ⟨c, _, hcall, rfl⟩
  · rintro ⟨c, call, hcall, htaken⟩
    cases h with
    | opened hopen hnone =>
        rw [hnone c call hcall] at htaken
        cases htaken
    | retiring _ _ hclosed | retired _ hclosed => exact hclosed

/-- Once a call has closed the pipeline and nobody is still about it, all workers have left. -/
theorem isOver (h : p.Retires) (hreturned : p.calls[c]? = some (.returned .closed))
    (hnone : ∀ d, ¬ p.HoldsPools d) : ∀ worker ∈ p.workers, worker.activity.isOver = true := by
  cases h with
  | opened hopen hnone' => cases hnone' c _ hreturned
  | retiring d next hclosed hcall hnext => exact absurd ⟨next, hcall, hnext⟩ (hnone d)
  | retired d hclosed hcall hothers hover => exact hover

/-- When the call that has taken the pools returns, no other one is still about it. -/
theorem not_holdsPools (h : p.Retires) (hholds : p.HoldsPools c)
    (hstep : p.step? (.caller c) = some q) (hreturned : q.calls[c]? = some (.returned .closed))
    (d : Nat) : ¬ q.HoldsPools d := by
  rintro ⟨next', hcall', hnext'⟩
  obtain ⟨next, hcall, hnext⟩ := hholds
  by_cases hd : d = c
  · rw [hd, hreturned] at hcall'
    cases hcall'
  · rw [getElem?_calls_of_step? hstep fun hactor => hd (Actor.caller.inj hactor).symm] at hcall'
    cases (h.of_close hcall hnext).2.1 d _ hcall' hd (Call.hasTaken_close hnext')

end Retires

/-- A call that finds the pools taken leaves everything as it is but for a line in the log. -/
theorem step?_of_taken (hcall : p.calls[c]? = some (.close .take)) (hclosed : p.isOpen = false) :
    p.step? (.caller c) = some { p with
      calls := p.calls.set c (.returned .closed), log := p.log ++ [.alreadyClosed] } := by
  rw [step?_of_close hcall]
  simp [stepClose?, hclosed, note, setCall]

end Pipeline

end TxPipeline
