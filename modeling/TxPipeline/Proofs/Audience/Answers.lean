import TxPipeline.Proofs.Audience.Length
import TxPipeline.Proofs.Visibility

/-!
# What calls for results are answered

A call is answered with what it finds in a cell, and while a block is in work a cell holds nothing
but the result of that block. So all calls that are answered while the block is in work and ask for
the same result are answered the same, also those that were made before the result was there.
-/

namespace TxPipeline

variable {F : Flow} {calm : Prop} {handlers : List (Handler F)} {past : List (Work F)}
  {work : Work F} {phase phase' : Phase F} {p q : Pipeline F} {actor : Actor} {c h i k : Nat}
  {s : Station F} {r : TxResult F.Output}

theorem Station.valueAt_of_pursue? {state : Asking F}
    (h : s.pursue? i state = some (.answered r)) : valueAt s.results i = some r := by
  cases state with
  | ready =>
      rw [pursue?] at h
      split at h
      · cases h
      · rename_i cell hcell
        split at h <;> cases h
        rwa [valueAt, hcell, Option.bind_some]
  | parked latch =>
      rw [pursue?] at h
      split at h
      · cases h
      · split at h <;> cases h
  | answered | failed => cases h

/-! ## A block stays in work -/

theorem Starting.isAccepted_of_valid {next : Starting} {lane : Nat}
    (hvalid : next.Valid handlers work lane) : next.isAccepted = true := by
  cases next with
  | acquire | enter | scan => exact hvalid.elim
  | _ => rfl

namespace Pipeline

theorem Advance.isOn {lane : Nat} (hadvance : Advance work lane p actor q phase phase')
    (hon : phase.isOn = true) : phase'.isOn = true := by
  cases hadvance with
  | thread | aside => exact hon
  | _ => rfl

/-- A call that has brought its block into work does not give it up. -/
theorem During.accepted_next (hp : p.During calm handlers past work phase)
    (hgoes : p.Proceeds calm actor) (hstep : p.step? actor = some q) (haccepted : p.Accepted c) :
    q.Accepted c := by
  obtain ⟨call, hcall, haccepted⟩ := haccepted
  cases call with
  | finish | close => cases haccepted
  | returned answer =>
      obtain ⟨next, hnext, hturns⟩ := exists_turns_of_step? hstep hcall
      cases hturns
      exact ⟨_, hnext, haccepted⟩
  | start store rules block next =>
      have hnext : next ≠ .acquire := by
        rintro rfl
        cases haccepted
      obtain ⟨rfl, -⟩ := hp.eq_starting hcall hnext
      rcases hp.step?_starting hgoes hstep with ⟨next', hq⟩ | ⟨-, hreturned⟩
      · exact ⟨_, hq.call_eq, Starting.isAccepted_of_valid hq.valid⟩
      · exact ⟨_, hreturned, rfl⟩

theorem Accepted.invoke (hp : p.Accepted c) (task : Task F) : (p.invoke task).Accepted c := by
  obtain ⟨call, hcall, haccepted⟩ := hp
  refine ⟨call, ?_, haccepted⟩
  rw [getElem?_invoke_of_lt (List.getElem?_eq_some_iff.mp hcall).1, hcall]

theorem Over.run? {moves : List (Move F)} (hp : p.Over c) (hrun : p.run? moves = some q) :
    q.Over c :=
  run?_induction (P := fun p => p.Over c) hrun hp (fun _ task hp => hp.invoke task)
    (fun _ _ _ hp hstep => hp.step? hstep) fun _ _ _ _ hp hdeny =>
      (continues_of_deny? hdeny).over hp

/-- A move leaves the block in work as long as the call that has brought it there is not over. -/
theorem During.next_of_inWork {ts : List (Task F)} (hp : p.During calm handlers past work phase)
    (hon : phase.isOn = true) (hgoes : p.Proceeds calm actor) (hstep : p.step? actor = some q)
    (hq : Chronicle calm handlers ts q) (hwork : q.InWork c) :
    ∃ phase', q.During calm handlers past work phase' ∧ phase'.isOn = true := by
  rcases hp.advance hon hgoes hstep with ⟨phase', hq', hadvance⟩ | ⟨hbetween, -⟩
  · exact ⟨phase', hq', hadvance.isOn hon⟩
  · exfalso
    cases hq with
    | between past' hq hover => exact hwork.2 (hover c hwork.1)
    | starting past' work' d next hq _ _ _ =>
        obtain ⟨joined, concluded, hphase⟩ := hbetween.not_during hq
        cases hphase
    | started past' work' phase' d hq hphase _ _ _ _ =>
        obtain ⟨joined, concluded, rfl⟩ := hbetween.not_during hq
        cases hphase

/-- While the block is in work, its call knows which blocks came before. -/
theorem Chronicle.exists_during {ts : List (Task F)} (hq : Chronicle calm handlers ts q)
    (htask : ts[c]? = some work.task) (hwork : q.InWork c) :
    ∃ past phase, q.During calm handlers past work phase ∧ phase.isOn = true := by
  cases hq with
  | between past hq hover => exact absurd (hover c hwork.1) hwork.2
  | starting past other d next hq hother hover =>
      obtain ⟨-, rfl⟩ := eq_of_inWork htask hwork hother hover
      exact ⟨past, _, hq, rfl⟩
  | started past other phase d hq hphase hother _ hover =>
      obtain ⟨-, rfl⟩ := eq_of_inWork htask hwork hother hover
      exact ⟨past, phase, hq, Phase.isOn_of_isAttended hphase⟩

/-- What a cell holds is the result of the block in work, and was announced for it. -/
theorem During.getElem?_of_valueAt (hp : p.During calm handlers past work phase)
    (hs : p.stations[h]? = some s) (hvalue : valueAt s.results i = some r) :
    (work.resultsOf handlers h)[i]? = some r ∧ r ∈ s.announcedIn past.length := by
  obtain ⟨rfl, l, hl, hmem⟩ := hp.exists_announced hs hvalue
  constructor
  · exact Work.getElem?_of_mem_resultsOf hp.length_le ((hp.covers hs hl).mem_of_announced hmem)
  · rwa [Station.announcedIn_eq hl]

end Pipeline

namespace Audience

variable {a b : Audience F} {move : Move F} {moves more : List (Move F)} {before : List (Inquiry F)}
  {lane : Nat}

/-! ## Clean runs -/

/-- Whether something can happen in a clean run. Calls for results have no part in this. -/
def isClean (a : Audience F) : Move F → Bool
  | .pipeline move => a.pipeline.isClean move
  | _ => true

/-- The audience after a run, if all of it can happen and it is clean. -/
def cleanRun? (a : Audience F) : List (Move F) → Option (Audience F)
  | [] => some a
  | move :: rest => if a.isClean move then (a.move? move).bind fun a => a.cleanRun? rest else none

theorem cleanRun?_cons (h : a.cleanRun? (move :: moves) = some b) :
    a.isClean move = true ∧ ∃ next, a.move? move = some next ∧ next.cleanRun? moves = some b := by
  rw [cleanRun?] at h
  split at h
  · exact ⟨‹_›, Option.bind_eq_some_iff.mp h⟩
  · cases h

theorem cleanRun?_concat {next : Audience F} (hrun : a.cleanRun? moves = some b)
    (hclean : b.isClean move = true) (hmove : b.move? move = some next) :
    a.cleanRun? (moves ++ [move]) = some next := by
  induction moves generalizing a with
  | nil =>
      cases hrun
      rw [List.nil_append, cleanRun?, if_pos hclean, hmove]
      rfl
  | cons first rest ih =>
      obtain ⟨hfirst, middle, hmiddle, hrest⟩ := cleanRun?_cons hrun
      rw [List.cons_append, cleanRun?, if_pos hfirst, hmiddle]
      exact ih hrest

theorem run?_of_cleanRun? (hrun : a.cleanRun? moves = some b) : a.run? moves = some b := by
  induction moves generalizing a with
  | nil => exact hrun
  | cons move rest ih =>
      obtain ⟨-, next, hmove, hrest⟩ := cleanRun?_cons hrun
      rw [Audience.run?, hmove]
      exact ih hrest

theorem pipeline_of_cleanRun? (hrun : a.cleanRun? moves = some b) :
    a.pipeline.cleanRun? (moves.filterMap Move.pipeline?) = some b.pipeline := by
  induction moves generalizing a with
  | nil =>
      cases hrun
      rfl
  | cons move rest ih =>
      obtain ⟨hclean, next, hmove, hrest⟩ := cleanRun?_cons hrun
      rcases pipeline_of_move? hmove with ⟨m, rfl, hm, -⟩ | ⟨hnone, heq⟩
      · have hfilter : (Move.pipeline m :: rest).filterMap Move.pipeline? =
            m :: rest.filterMap Move.pipeline? := rfl
        have hclean : a.pipeline.isClean m = true := hclean
        rw [hfilter, Pipeline.cleanRun?, if_pos hclean, hm]
        exact ih hrest
      · rw [List.filterMap_cons_none hnone, ← heq]
        exact ih hrest

/-! ## Answers -/

/-- Every call that was answered was answered in `before` already, or with the result of `work`,
which was announced in lane `lane`. -/
def Hears (handlers : List (Handler F)) (work : Work F) (lane : Nat) (before : List (Inquiry F))
    (a : Audience F) : Prop :=
  ∀ (k h i : Nat) (r : TxResult F.Output), a.inquiries[k]? = some ⟨h, i, .answered r⟩ →
    before[k]? = some ⟨h, i, .answered r⟩ ∨ (work.resultsOf handlers h)[i]? = some r ∧
      ∃ s, a.pipeline.stations[h]? = some s ∧ r ∈ s.announcedIn lane

theorem hears_self (handlers : List (Handler F)) (work : Work F) (lane : Nat) (a : Audience F) :
    a.Hears handlers work lane a.inquiries := fun _ _ _ _ hk => .inl hk

/-- A call is answered by what it finds in the cell. -/
theorem answered_of_move? (hmove : a.move? move = some b)
    (hk : b.inquiries[k]? = some ⟨h, i, .answered r⟩) :
    a.inquiries[k]? = some ⟨h, i, .answered r⟩ ∨
      ∃ s, a.pipeline.stations[h]? = some s ∧ valueAt s.results i = some r := by
  cases hold : a.inquiries[k]? with
  | some inquiry =>
      rcases getElem?_inquiries_of_move? hmove hold with ⟨hb, -⟩ | ⟨-, s, state, hs, hstate, hb⟩
      · exact .inl (hb.symm.trans hk)
      · cases hb.symm.trans hk
        exact .inr ⟨s, hs, Station.valueAt_of_pursue? hstate⟩
  | none =>
      exfalso
      cases move with
      | pipeline m =>
          obtain ⟨p, -, rfl⟩ := Option.map_eq_some_iff.mp hmove
          rw [hold] at hk
          cases hk
      | pursue j =>
          obtain ⟨inquiry, s, state, -, -, -, rfl⟩ := pursue?_eq_some hmove
          have hlt := (List.getElem?_eq_some_iff.mp hk).1
          rw [List.length_set] at hlt
          exact absurd hlt (not_lt.mpr (List.getElem?_eq_none_iff.mp hold))
      | ask h' i' =>
          obtain ⟨s, -, rfl⟩ := Option.map_eq_some_iff.mp hmove
          rw [List.getElem?_append_right (List.getElem?_eq_none_iff.mp hold)] at hk
          -- a new call has not been answered yet
          have hstate := congrArg Inquiry.state (List.mem_singleton.mp (List.mem_of_getElem? hk))
          simp only [Station.ask] at hstate
          split at hstate <;> cases hstate

theorem Hears.move? (hp : a.pipeline.During calm handlers past work phase)
    (ha : a.Hears handlers work past.length before) (hmove : a.move? move = some b) :
    b.Hears handlers work past.length before := by
  intro k h i r hk
  have hkeep {s : Station F} (hs : a.pipeline.stations[h]? = some s)
      (hr : r ∈ s.announcedIn past.length) :
      ∃ s', b.pipeline.stations[h]? = some s' ∧ r ∈ s'.announcedIn past.length := by
    obtain ⟨s', hs', hturns⟩ := exists_turned_of_move? hmove hs
    exact ⟨s', hs', (hturns.prefix_announcedIn past.length).subset hr⟩
  rcases answered_of_move? hmove hk with hold | ⟨s, hs, hvalue⟩
  · exact (ha k h i r hold).imp_right fun ⟨hresult, s, hs, hr⟩ => ⟨hresult, hkeep hs hr⟩
  · obtain ⟨hresult, hr⟩ := hp.getElem?_of_valueAt hs hvalue
    exact .inr ⟨hresult, hkeep hs hr⟩

/-- From a state in which the block is in work to one in which it still is, all answers are results
of that block. -/
theorem Hears.cleanRun? {config : Config} {registry : Registry F}
    (hcreate : Pipeline.create config registry = .ok p)
    (hrun : (of p).cleanRun? moves = some a)
    (hp : a.pipeline.During True registry.handlers past work phase) (hon : phase.isOn = true)
    (haccepted : a.pipeline.Accepted c) (ha : a.Hears registry.handlers work past.length before)
    (hmore : a.cleanRun? more = some b) (hnot : ¬ b.pipeline.Over c) :
    b.Hears registry.handlers work past.length before := by
  induction more generalizing moves a phase with
  | nil =>
      cases hmore
      exact ha
  | cons move rest ih =>
      obtain ⟨hclean, next, hmove, hrest⟩ := cleanRun?_cons hmore
      have hrun' := cleanRun?_concat hrun hclean hmove
      have ha' := ha.move? hp hmove
      have hnot' : ¬ next.pipeline.Over c := fun hover =>
        hnot (hover.run? (pipeline_of_run? (run?_of_cleanRun? hrest)))
      rcases pipeline_of_move? hmove with ⟨m, rfl, hm, -⟩ | ⟨-, heq⟩
      swap
      · exact ih hrun' (heq ▸ hp) hon (heq ▸ haccepted) ha' hrest
      cases m with
      | call task =>
          have heq : a.pipeline.invoke task = next.pipeline := Option.some.inj hm
          have hadmits : a.pipeline.admits task = true := hclean
          exact ih hrun' (heq ▸ hp.invoke hadmits) hon (heq ▸ haccepted.invoke task) ha' hrest
      | act actor =>
          have hgoes : a.pipeline.Proceeds True actor := .of_clean (by
            simpa [isClean, Pipeline.isClean] using hclean)
          have haccepted' := hp.accepted_next hgoes hm haccepted
          obtain ⟨phase', hp', hon'⟩ := hp.next_of_inWork hon hgoes hm
            (Pipeline.Chronicle.of_cleanRun? hcreate (pipeline_of_cleanRun? hrun'))
            ⟨haccepted', hnot'⟩
          exact ih hrun' hp' hon' haccepted' ha' hrest
      | deny d reason => cases (hp.deny?_eq_none d reason).symm.trans hm

end Audience

end TxPipeline
