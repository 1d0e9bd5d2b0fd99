import TxPipeline.Proofs.Invariant.Advance
import TxPipeline.Proofs.Invariant.Run

/-!
# The course of a block

What was done for a block is not in the state of a pipeline; it is read off the run, move by move,
from the call that asks for the block. This module says how such a reading is carried along: while
the call has not brought its block into work nothing is read, and from then on every move is one of
those by which a block goes on.
-/

namespace TxPipeline.Pipeline

variable {F : Flow} {α : Type} {calm : Prop} {handlers : List (Handler F)} {past : List (Work F)}
  {work : Work F} {phase phase' : Phase F} {p q b : Pipeline F} {actor : Actor} {c : Nat}
  {moves : List (Move F)} {f : Pipeline F → Actor → List α} {xs : List α}

/-! ## Readings -/

theorem run?_append (p : Pipeline F) (first rest : List (Move F)) :
    p.run? (first ++ rest) = (p.run? first).bind fun q => q.run? rest := by
  induction first generalizing p with
  | nil => rfl
  | cons move first ih =>
      simp only [List.cons_append, run?]
      cases p.move? move with
      | none => rfl
      | some q => exact ih q

/-- What `f` reads off the states of a run, whenever a thread is about to move. -/
def collect (f : Pipeline F → Actor → List α) (p : Pipeline F) : List (Move F) → List α
  | [] => []
  | .call task :: rest => (p.invoke task).collect f rest
  | .act actor :: rest =>
      f p actor ++ ((p.step? actor).map fun q => q.collect f rest).getD []
  | .deny c reason :: rest => ((p.deny? c reason).map fun q => q.collect f rest).getD []

theorem collect_append (hrun : p.run? moves = some q) (more : List (Move F)) :
    p.collect f (moves ++ more) = p.collect f moves ++ q.collect f more := by
  induction moves generalizing p with
  | nil =>
      cases hrun
      rfl
  | cons move rest ih =>
      obtain ⟨next, hmove, hrest⟩ := Option.bind_eq_some_iff.mp hrun
      cases move with
      | call task =>
          cases hmove
          exact ih hrest
      | act actor =>
          have hstep : p.step? actor = some next := hmove
          simp only [List.cons_append, collect, hstep, Option.map_some, Option.getD_some, ih hrest,
            List.append_assoc]
      | deny c reason =>
          have hdeny : p.deny? c reason = some next := hmove
          simp only [List.cons_append, collect, hdeny, Option.map_some, Option.getD_some, ih hrest]

theorem collect_call (hrun : p.run? moves = some q) (task : Task F) :
    p.collect f (moves ++ [.call task]) = p.collect f moves := by
  rw [collect_append hrun]
  exact List.append_nil _

theorem collect_act (hrun : p.run? moves = some q) (actor : Actor) :
    p.collect f (moves ++ [.act actor]) = p.collect f moves ++ f q actor := by
  rw [collect_append hrun]
  cases hstep : q.step? actor <;> simp [collect, hstep]

theorem collect_deny (hrun : p.run? moves = some q) (c : Nat) (reason : String) :
    p.collect f (moves ++ [.deny c reason]) = p.collect f moves := by
  rw [collect_append hrun]
  cases hdeny : q.deny? c reason <;> simp [collect, hdeny]

/-- What `f` reads off the states of a run once call `c` was made. -/
def since (c : Nat) (f : Pipeline F → Actor → List α) (p : Pipeline F) : List (Move F) → List α
  | [] => []
  | .call task :: rest =>
      if p.calls.length = c then (p.invoke task).collect f rest else (p.invoke task).since c f rest
  | .act actor :: rest => ((p.step? actor).map fun q => q.since c f rest).getD []
  | .deny d reason :: rest => ((p.deny? d reason).map fun q => q.since c f rest).getD []

theorem since_append {before rest : List (Move F)} {task : Task F}
    (hrun : p.run? before = some b) :
    p.since b.calls.length f (before ++ .call task :: rest) = (b.invoke task).collect f rest := by
  induction before generalizing p with
  | nil =>
      cases hrun
      exact if_pos rfl
  | cons move before ih =>
      obtain ⟨next, hmove, hrest⟩ := Option.bind_eq_some_iff.mp hrun
      cases move with
      | call other =>
          cases hmove
          have hlt : p.calls.length < b.calls.length := by
            rw [length_calls_of_run? hrest, show (p.invoke other).calls = p.calls ++ [_] from rfl,
              List.length_append, List.length_singleton]
            omega
          rw [List.cons_append, since, if_neg hlt.ne, ih hrest]
      | act actor =>
          have hstep : p.step? actor = some next := hmove
          rw [List.cons_append, since, hstep, Option.map_some, Option.getD_some, ih hrest]
      | deny d reason =>
          have hdeny : p.deny? d reason = some next := hmove
          rw [List.cons_append, since, hdeny, Option.map_some, Option.getD_some, ih hrest]

/-- The run up to the move in which call `c` was made. -/
theorem exists_split {task : Task F} (htask : (tasks moves)[c]? = some task) :
    ∃ before rest, moves = before ++ .call task :: rest ∧ (tasks before).length = c := by
  induction moves generalizing c with
  | nil => simp [tasks] at htask
  | cons move moves ih =>
      cases move with
      | act actor =>
          obtain ⟨before, rest, rfl, hlength⟩ := ih (c := c) htask
          exact ⟨.act actor :: before, rest, rfl, hlength⟩
      | deny d reason =>
          obtain ⟨before, rest, rfl, hlength⟩ := ih (c := c) htask
          exact ⟨.deny d reason :: before, rest, rfl, hlength⟩
      | call other =>
          cases c with
          | zero =>
              obtain rfl : other = task := Option.some.inj htask
              exact ⟨[], moves, rfl, rfl⟩
          | succ c =>
              obtain ⟨before, rest, rfl, hlength⟩ := ih (c := c) htask
              exact ⟨.call other :: before, rest, rfl, congrArg (· + 1) hlength⟩

/-- Reading on after a run in which the call was made. -/
theorem since_run? {config : Config} {registry : Registry F} {task : Task F}
    (hcreate : create config registry = .ok p) (hrun : p.run? moves = some q)
    (htask : (tasks moves)[c]? = some task) (more : List (Move F)) :
    p.since c f (moves ++ more) = p.since c f moves ++ q.collect f more := by
  obtain ⟨before, rest, rfl, rfl⟩ := exists_split htask
  rw [run?_append] at hrun
  obtain ⟨b, hbefore, hrest⟩ := Option.bind_eq_some_iff.mp hrun
  have hlength := length_calls_eq hcreate hbefore
  rw [← hlength, List.append_assoc, List.cons_append, since_append hbefore, since_append hbefore]
  exact collect_append hrest more

/-! ## From the call to the last move -/

/-- `I` holds of what `f` has read when call `c` brings the block of `work` into work, and every
move by which the block goes on keeps it. Nothing is read while no block is in work. -/
structure Carries (calm : Prop) (handlers : List (Handler F)) (work : Work F) (c : Nat)
    (f : Pipeline F → Actor → List α)
    (I : List (Work F) → Phase F → Pipeline F → List α → Prop) : Prop where
  rest : ∀ {past p actor q}, p.Between calm handlers past → p.Proceeds calm actor →
    p.step? actor = some q → f p actor = []
  begin : ∀ {past p plan}, p.During calm handlers past work (.starting c (.opening plan 0)) →
    I past (.starting c (.opening plan 0)) p []
  invoke : ∀ {past phase p xs} (task : Task F), I past phase p xs → I past phase (p.invoke task) xs
  advance : ∀ {past phase phase' p actor q xs}, p.During calm handlers past work phase →
    q.During calm handlers past work phase' → p.Proceeds calm actor → p.step? actor = some q →
    Advance work past.length p actor q phase phase' → I past phase p xs →
    I past phase' q (xs ++ f p actor)

/-- What has come of call `c`, which asks for the block of `work`, and of what was read since. -/
inductive Course (calm : Prop) (handlers : List (Handler F)) (work : Work F) (c : Nat)
    (I : List (Work F) → Phase F → Pipeline F → List α → Prop) (xs : List α) (p : Pipeline F) :
    Prop
  | pending (past : List (Work F)) (next : Starting) (hp : p.Between calm handlers past)
      (hcall : p.calls[c]? = some (.start work.store work.rules work.block next)) (hxs : xs = [])
  /-- Another block is in work, so that this one will be refused. -/
  | blocked (past : List (Work F)) (other : Work F)
      (hp : p.During calm handlers past other .started)
      (hcall : p.calls[c]? = some (.start work.store work.rules work.block .acquire))
  | refused (failure : Failure)
      (hcall : p.calls[c]? = some (.returned (.started (.error failure))))
  | starting (past : List (Work F)) (next : Starting)
      (hp : p.During calm handlers past work (.starting c next))
      (hreading : I past (.starting c next) p xs)
  | started (past : List (Work F)) (phase : Phase F) (hp : p.During calm handlers past work phase)
      (hphase : phase.isAttended = true) (hstarted : p.Started c) (hreading : I past phase p xs)
  | ended (hover : p.Over c)

namespace Course

variable {I : List (Work F) → Phase F → Pipeline F → List α → Prop}

theorem begin {ts : List (Task F)} (hb : Chronicle calm handlers ts b)
    (hadmits : b.admits work.task = true) :
    Course calm handlers work b.calls.length I ([] : List α) (b.invoke work.task) := by
  have hquiet : b.isQuiet = true := (Bool.and_eq_true_iff.mp hadmits).1
  have hcall : (b.invoke work.task).calls[b.calls.length]? =
      some (.start work.store work.rules work.block .acquire) := List.getElem?_concat_length
  cases hb with
  | between past hp _ => exact .pending past .acquire (hp.invoke hadmits) hcall rfl
  | starting past other d next hp _ _ => exact absurd hquiet hp.not_quiet
  | started past other phase d hp hphase _ _ _ =>
      obtain rfl := hp.eq_started hphase hquiet
      exact .blocked past other (hp.invoke hadmits) hcall

theorem invoke (hcarries : Carries calm handlers work c f I)
    (hp : Course calm handlers work c I xs p) {task : Task F} (hadmits : p.admits task = true) :
    Course calm handlers work c I xs (p.invoke task) := by
  cases hp with
  | pending past next hp hcall hxs =>
      exact .pending past next (hp.invoke hadmits) (getElem?_append_calls hcall rfl) hxs
  | blocked past other hp hcall =>
      exact .blocked past other (hp.invoke hadmits) (getElem?_append_calls hcall rfl)
  | refused failure hcall => exact .refused failure (getElem?_append_calls hcall rfl)
  | starting past next hp hreading =>
      exact .starting past next (hp.invoke hadmits) (hcarries.invoke task hreading)
  | started past phase hp hphase hstarted hreading =>
      exact .started past phase (hp.invoke hadmits) hphase (hstarted.invoke task)
        (hcarries.invoke task hreading)
  | ended hover => exact .ended (hover.invoke task)

section Step

variable (hcarries : Carries calm handlers work c f I) (hgoes : p.Proceeds calm actor)
  (hstep : p.step? actor = some q)

include hcarries hgoes hstep

theorem step?_pending {next : Starting} (hp : p.Between calm handlers past)
    (hcall : p.calls[c]? = some (.start work.store work.rules work.block next)) :
    Course calm handlers work c I (f p actor) q := by
  rw [hcarries.rest hp hgoes hstep]
  rcases hp.step? hgoes hstep with ⟨hq, haccepted⟩ | ⟨d, store, rules, block, plan, hd, rfl, hq⟩
  · obtain ⟨turned, hturned, hturns⟩ := exists_turns_of_step? hstep hcall
    cases hturns with
    | start _ _ _ _ next' => exact .pending past next' hq hturned rfl
    | started _ _ _ _ outcome =>
        cases outcome with
        | error failure => exact .refused failure hturned
        | ok _ =>
            -- only a call with a block in work can come to this
            obtain ⟨call, hsame, hcalled⟩ := haccepted c ⟨_, hturned, rfl⟩
            rw [hcall] at hsame
            cases hsame
            by_cases hnext : next = .acquire
            · subst hnext
              cases hcalled
            · rcases (hp.enters_of_call hcall hnext).next_eq with rfl | ⟨rfl, -⟩ <;> cases hcalled
  · obtain rfl : c = d := by
      by_contra hne
      cases (hp.enters_of_call hd (by simp)).minds c _ hcall hne
    rw [hcall] at hd
    cases hd
    exact .starting past _ hq (hcarries.begin hq)

omit hcarries in
theorem step?_blocked {other : Work F} (hp : p.During calm handlers past other .started)
    (hcall : p.calls[c]? = some (.start work.store work.rules work.block .acquire)) :
    Course calm handlers work c I xs q := by
  by_cases hactor : actor = .caller c
  · obtain rfl := hactor
    rw [step?_of_start hcall] at hstep
    exact .refused _ (hp.refuse hcall hstep).2
  have hstays := (getElem?_calls_of_step? hstep hactor).trans hcall
  rcases hp.step?_started hgoes hstep with hq | ⟨g, store, block, receipts, hg, -⟩
  · exact .blocked past other hq hstays
  · -- the two calls cannot both be unsettled
    rw [(hp.calls.minds hcall rfl).eq hg rfl, hcall] at hg
    cases hg

theorem step?_starting {next : Starting}
    (hp : p.During calm handlers past work (.starting c next))
    (hreading : I past (.starting c next) p xs) :
    Course calm handlers work c I (xs ++ f p actor) q := by
  obtain ⟨phase', hq, hadvance⟩ := hp.advance_starting hgoes hstep
  have hnext := hcarries.advance hp hq hgoes hstep hadvance hreading
  cases hadvance with
  | thread => exact .starting past next hq hnext
  | aside => exact .starting past next hq hnext
  | start _ _ next' => exact .starting past next' hq hnext
  | activate _ plan _ hreturned =>
      refine .started past .started hq rfl ⟨hreturned, ?_⟩ hnext
      intro i call hcall hlt
      exact isSettled_of_step? hstep hcall fun old hold => hp.call_minds i old hold hlt.ne

theorem step?_started (hp : p.During calm handlers past work phase)
    (hphase : phase.isAttended = true) (hstarted : p.Started c) (hreading : I past phase p xs) :
    Course calm handlers work c I (xs ++ f p actor) q := by
  rcases hp.advance (Phase.isOn_of_isAttended hphase) hgoes hstep with
    ⟨phase', hq, hadvance⟩ | ⟨-, hdeparts⟩
  · have hnext := hcarries.advance hp hq hgoes hstep hadvance hreading
    have hphase' : phase'.isAttended = true := by
      cases hadvance with
      | thread => exact hphase
      | aside => exact hphase
      | start => cases hphase
      | activate => rfl
      | take => rfl
      | finish => rfl
    exact .started past phase' hq hphase' (hstarted.step? hstep) hnext
  · obtain ⟨g, origin, store, block, receipts, active, kept, rfl, -, hreturned, -⟩ :=
      hdeparts.departs
    exact .ended ⟨g, kept, store, hstarted.lt hp.finish_eq rfl, hreturned⟩

theorem step? (hp : Course calm handlers work c I xs p) :
    Course calm handlers work c I (xs ++ f p actor) q := by
  cases hp with
  | pending past next hp hcall hxs =>
      rw [hxs]
      exact step?_pending hcarries hgoes hstep hp hcall
  | blocked past other hp hcall => exact step?_blocked hgoes hstep hp hcall
  | refused failure hcall =>
      obtain ⟨turned, hturned, hturns⟩ := exists_turns_of_step? hstep hcall
      cases hturns
      exact .refused failure hturned
  | starting past next hp hreading => exact step?_starting hcarries hgoes hstep hp hreading
  | started past phase hp hphase hstarted hreading =>
      exact step?_started hcarries hgoes hstep hp hphase hstarted hreading
  | ended hover => exact .ended (hover.step? hstep)

end Step

theorem deny? {d : Nat} {reason : String} (hp : Course calm handlers work c I xs p)
    (hdeny : p.deny? d reason = some q) : Course calm handlers work c I xs q := by
  cases hp with
  | pending past next hp hcall hxs =>
      by_cases hd : d = c
      · subst hd
        exact .refused (.error (.spawn reason)) (getElem?_of_deny? hdeny)
      · exact .pending past next (hp.deny? hdeny)
          ((getElem?_calls_of_deny? hdeny (Ne.symm hd)).trans hcall) hxs
  | blocked past other hp hcall => cases (hp.deny?_eq_none d reason).symm.trans hdeny
  | refused failure hcall =>
      obtain ⟨turned, hturned, hturns⟩ := exists_turns_of_deny? hdeny hcall
      cases hturns
      exact .refused failure hturned
  | starting past next hp hreading => cases (hp.deny?_eq_none d reason).symm.trans hdeny
  | started past phase hp hphase hstarted hreading =>
      cases (hp.deny?_eq_none d reason).symm.trans hdeny
  | ended hover => exact .ended ((continues_of_deny? hdeny).over hover)

theorem run? {ok : Pipeline F → Move F → Bool} {ts : List (Task F)}
    (hcarries : Carries calm handlers work b.calls.length f I)
    (hcall : ∀ p task, ok p (.call task) = true → p.admits task = true)
    (hact : ∀ p actor, ok p (.act actor) = true → p.Proceeds calm actor)
    (hb : Chronicle calm handlers ts b)
    (hrun : b.runWhile? ok (.call work.task :: moves) = some q) :
    Course calm handlers work b.calls.length I ((b.invoke work.task).collect f moves) q := by
  rw [runWhile?] at hrun
  split at hrun
  swap
  · cases hrun
  rename_i hok
  refine runWhile?_induction (P := fun moves q => Course calm handlers work b.calls.length I
    ((b.invoke work.task).collect f moves) q) hrun (begin hb (hcall b work.task hok)) ?_ ?_ ?_
  · intro moves q task hrun hq hok
    rw [collect_call (run?_of_runWhile? hrun)]
    exact hq.invoke hcarries (hcall q task hok)
  · intro moves q actor next hrun hq hok hstep
    rw [collect_act (run?_of_runWhile? hrun)]
    exact hq.step? hcarries (hact q actor hok) hstep
  · intro moves q c reason next hrun hq hdeny
    rw [collect_deny (run?_of_runWhile? hrun)]
    exact hq.deny? hdeny

theorem of_cleanRun? {ts : List (Task F)}
    (hcarries : Carries True handlers work b.calls.length f I)
    (hb : Chronicle True handlers ts b)
    (hrun : b.cleanRun? (.call work.task :: moves) = some q) :
    Course True handlers work b.calls.length I ((b.invoke work.task).collect f moves) q := by
  rw [cleanRun?_eq] at hrun
  exact run? hcarries (fun _ _ h => h) (fun _ _ h => .of_clean (by simpa [isClean] using h)) hb hrun

section Tasks

variable {config : Config} {registry : Registry F} {ok : Pipeline F → Move F → Bool}

theorem of_runWhile? (hcreate : create config registry = .ok p)
    (hcarries : Carries calm registry.handlers work c f I)
    (hcall : ∀ p task, ok p (.call task) = true → p.admits task = true)
    (hact : ∀ p actor, ok p (.act actor) = true → p.Proceeds calm actor)
    (hrun : p.runWhile? ok moves = some q) (htask : (tasks moves)[c]? = some work.task) :
    Course calm registry.handlers work c I (p.since c f moves) q := by
  obtain ⟨before, rest, rfl, rfl⟩ := exists_split htask
  rw [runWhile?_append] at hrun
  obtain ⟨b, hbefore, hrest⟩ := Option.bind_eq_some_iff.mp hrun
  have hlength := length_calls_eq hcreate (run?_of_runWhile? hbefore)
  rw [← hlength] at hcarries ⊢
  rw [since_append (run?_of_runWhile? hbefore)]
  exact run? hcarries hcall hact (Chronicle.of_runWhile? hcall hact hcreate hbefore).1 hrest

/-- In a clean run, what was read since a call. -/
theorem since_cleanRun? (hcreate : create config registry = .ok p)
    (hcarries : Carries True registry.handlers work c f I) (hrun : p.cleanRun? moves = some q)
    (htask : (tasks moves)[c]? = some work.task) :
    Course True registry.handlers work c I (p.since c f moves) q := by
  rw [cleanRun?_eq] at hrun
  exact of_runWhile? hcreate hcarries (fun _ _ h => h)
    (fun _ _ h => .of_clean (by simpa [isClean] using h)) hrun htask

/-- In a steady run, what was read since a call. -/
theorem since_steadyRun? (hcreate : create config registry = .ok p)
    (hcarries : Carries False registry.handlers work c f I) (hrun : p.steadyRun? moves = some q)
    (htask : (tasks moves)[c]? = some work.task) :
    Course False registry.handlers work c I (p.since c f moves) q :=
  of_runWhile? hcreate hcarries (fun _ _ h => h) (fun _ _ h => .of_steady h) hrun htask

end Tasks

/-- As long as the block is in work, the reading is what the invariant says. -/
theorem exists_reading (hp : Course calm handlers work c I xs p) (hwork : p.InWork c) :
    ∃ past phase, p.During calm handlers past work phase ∧ phase.isOn = true ∧
      I past phase p xs := by
  obtain ⟨⟨call, hcall, haccepted⟩, hnot⟩ := hwork
  cases hp with
  | pending past next hp hstart hxs =>
      rw [hstart] at hcall
      cases hcall
      by_cases hnext : next = .acquire
      · subst hnext
        cases haccepted
      · rcases (hp.enters_of_call hstart hnext).next_eq with rfl | ⟨rfl, -⟩ <;> cases haccepted
  | blocked past other hp hstart =>
      rw [hstart] at hcall
      cases hcall
      cases haccepted
  | refused failure hreturned =>
      rw [hreturned] at hcall
      cases hcall
      cases haccepted
  | starting past next hp hreading => exact ⟨past, _, hp, rfl, hreading⟩
  | started past phase hp hphase hstarted hreading =>
      exact ⟨past, phase, hp, Phase.isOn_of_isAttended hphase, hreading⟩
  | ended hover => exact absurd hover hnot

end Course

end TxPipeline.Pipeline
