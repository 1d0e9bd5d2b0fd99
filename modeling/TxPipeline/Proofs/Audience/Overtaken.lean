import TxPipeline.Proofs.Audience.Readable

/-!
# Calls that the end of a block overtakes

A call for a result looks only once whether the started block has such a transaction, and who
finishes the block does not wait for those who ask. A call that has looked already, and gets to its
cell after the block was finished, finds the cell empty. It waits until another block sets the cell,
and what it returns then is the result of that block.
-/

namespace TxPipeline

variable {F : Flow} {handlers : List (Handler F)} {past : List (Work F)} {p q : Pipeline F}
  {actor : Actor} {h i k latch : Nat} {s : Station F} {cell : Cell (TxResult F.Output)}

/-- Whether the call starts a block. -/
def Call.isStarting : Call F → Bool
  | .start _ _ _ _ => true
  | _ => false

theorem Call.Turns.isStarting {call next : Call F} (hturns : call.Turns next)
    (hcall : call.isStarting = false) : next.isStarting = false := by
  cases hturns with
  | start => cases hcall
  | _ => rfl

namespace Pipeline

/-! ## No block to come -/

/-- No block is in work, and no call is there to start one. -/
structure Vacant (handlers : List (Handler F)) (past : List (Work F)) (p : Pipeline F) : Prop where
  between : p.Between True handlers past
  unstarted : ∀ call ∈ p.calls, call.isStarting = false

namespace Vacant

variable (hp : p.Vacant handlers past)

include hp

theorem invoke {task : Task F} (hadmits : p.admits task = true)
    (htask : ∀ store rules block, task ≠ .start store rules block) :
    (p.invoke task).Vacant handlers past where
  between := hp.between.invoke hadmits
  unstarted := by
    intro call hmem
    rcases List.mem_append.mp hmem with hmem | hmem
    · exact hp.unstarted call hmem
    · rw [List.mem_singleton.mp hmem]
      cases task with
      | start store rules block => exact absurd rfl (htask store rules block)
      | finish | close => rfl

theorem step? (hraises : p.raises actor = false) (hstep : p.step? actor = some q) :
    q.Vacant handlers past where
  between := by
    rcases hp.between.step? (.of_clean hraises) hstep with
      ⟨hq, -⟩ | ⟨c, store, rules, block, plan, hcall, -⟩
    · exact hq
    · cases hp.unstarted _ (List.mem_of_getElem? hcall)
  unstarted := by
    intro call hmem
    obtain ⟨c, hc⟩ := List.mem_iff_getElem?.mp hmem
    obtain ⟨old, hold, hturns⟩ := exists_turned_of_step? hstep hc
    exact hturns.isStarting (hp.unstarted old (List.mem_of_getElem? hold))

theorem deny?_eq_none (c : Nat) (reason : String) : p.deny? c reason = none :=
  Pipeline.deny?_eq_none (fun store rules block hcall => by
    cases hp.unstarted _ (List.mem_of_getElem? hcall)) reason

/-- All cells are empty. -/
theorem value_eq_none (hs : p.stations[h]? = some s) (hcell : s.results[i]? = some cell) :
    cell.value = none :=
  (hp.between.stations h s hs).1.results cell (List.mem_of_getElem? hcell)

end Vacant

theorem Chronicle.exists_vacant {ts : List (Task F)} (hp : Chronicle True handlers ts p)
    (hquiet : p.isQuiet = true) (hactive : p.active = none) : ∃ past, p.Vacant handlers past := by
  cases hp with
  | between past hp hover =>
      refine ⟨past, hp, fun call hmem => ?_⟩
      have hsettled := List.all_eq_true.mp hquiet call hmem
      cases call with
      | start store rules block next => cases hsettled
      | finish | close | returned => rfl
  | starting past work c next hp _ _ => exact absurd hquiet hp.not_quiet
  | started past work phase c hp hphase _ _ _ _ =>
      obtain rfl := hp.eq_started hphase hquiet
      have hsome := hp.calls.active_eq
      rw [hactive] at hsome
      cases hsome

end Pipeline

/-! ## A call that waits -/

/-- A cell that is empty before a move and after it was not touched. -/
theorem Cell.Turns.eq_of_value_eq_none {α : Type} {cell cell' : Cell α} (h : cell.Turns cell')
    (hvalue : cell.value = none) (hvalue' : cell'.value = none) : cell' = cell := by
  cases h with
  | stay => rfl
  | set a h =>
      rw [(Cell.value_of_set? h).2] at hvalue'
      cases hvalue'
  | take a h =>
      rw [(Cell.eq_of_take? h).1] at hvalue
      cases hvalue

namespace Audience

open Pipeline

variable {a b : Audience F} {move : Move F} {more : List (Move F)}

theorem vacant_of_move? (hp : a.pipeline.Vacant handlers past)
    (hstart : ∀ store rules block, move ≠ .pipeline (.call (.start store rules block)))
    (hclean : a.isClean move = true) (hmove : a.move? move = some b) :
    b.pipeline.Vacant handlers past := by
  rcases pipeline_of_move? hmove with ⟨m, rfl, hm, -⟩ | ⟨-, heq⟩
  swap
  · exact heq ▸ hp
  cases m with
  | call task =>
      have heq : a.pipeline.invoke task = b.pipeline := Option.some.inj hm
      exact heq ▸ hp.invoke hclean fun store rules block htask =>
        hstart store rules block (htask ▸ rfl)
  | act actor =>
      exact hp.step? (by simpa [isClean, Pipeline.isClean] using hclean) hm
  | deny c reason => cases (hp.deny?_eq_none c reason).symm.trans hm

theorem LooksAt.released_eq_false (ha : a.LooksAt k ⟨h, i, .parked latch⟩ cell)
    (hstays : a.move? (.pursue k) = none) : cell.released latch = false := by
  obtain ⟨s, hs, hcell⟩ := ha.cell_eq
  rw [Bool.eq_false_iff]
  intro hreleased
  have hpursuit : s.pursue? i (.parked latch) = some .ready := by
    rw [Station.pursue?, hcell]
    exact if_pos hreleased
  change a.pursue? k = none at hstays
  rw [Audience.pursue?, ha.inquiry_eq] at hstays
  simp [hs, hpursuit] at hstays

/-- As long as nobody starts another block, a call that waits when no block is in work waits on,
whatever else happens. -/
theorem LooksAt.waits (ha : a.LooksAt k ⟨h, i, .parked latch⟩ cell)
    (hheld : cell.released latch = false) (hp : a.pipeline.Vacant handlers past)
    (hmore : ∀ store rules block, .pipeline (.call (.start store rules block)) ∉ more)
    (hrun : a.cleanRun? more = some b) : b.LooksAt k ⟨h, i, .parked latch⟩ cell := by
  induction more generalizing a with
  | nil =>
      cases hrun
      exact ha
  | cons move rest ih =>
      obtain ⟨hclean, next, hmove, hrest⟩ := cleanRun?_cons hrun
      have hnext := vacant_of_move? hp
        (fun store rules block heq => hmore store rules block (heq ▸ List.mem_cons_self)) hclean
        hmove
      refine ih ?_ hnext (fun store rules block hmem => hmore store rules block
        (List.mem_cons_of_mem _ hmem)) hrest
      rcases ha.move? hmove with ⟨-, cell', hturns, hlooks⟩ | ⟨-, -, state, hgoes, -⟩
      · obtain ⟨s, hs, hcell⟩ := ha.cell_eq
        obtain ⟨s', hs', hcell'⟩ := hlooks.cell_eq
        obtain rfl : cell' = cell := hturns.eq_of_value_eq_none (hp.value_eq_none hs hcell)
          (hnext.value_eq_none hs' hcell')
        exact hlooks
      · cases hgoes with
        | wake _ hreleased =>
            rw [hheld] at hreleased
            cases hreleased

end Audience

/-! ## A run -/

namespace Sample

open Audience

/-- The block is started, and everything that was dispatched is worked on. Somebody asks for the
first result, and has not looked at its cell. -/
def interrupted : List (Move flow) := started.map .pipeline ++ [.ask 0 0]

/-- The block is finished before who has asked goes on. -/
def outrun : List (Move flow) :=
  (.call (.finish (3 : Nat) pair []) :: concluding 1).map .pipeline ++ [.pursue 0]

/-- Another block is started and worked on, and then the call is woken. -/
def woken : List (Move flow) := (reopened ++ reworked).map .pipeline ++ [.pursue 0, .pursue 0]

/-- Whether a call for the first result of the handler has looked at no cell yet. -/
def isReady : Inquiry flow → Bool
  | ⟨0, 0, .ready⟩ => true
  | _ => false

theorem eq_ready {inquiry : Inquiry flow} (h : isReady inquiry = true) :
    inquiry = ⟨0, 0, .ready⟩ := by
  unfold isReady at h
  split at h
  · rfl
  · cases h

end Sample

open Pipeline Sample in
/-- While its result is there and nobody has asked to finish its block, somebody asks for the first
result. The block is finished, and the call still waits, as long as nobody starts another block.
When somebody does, the call returns the result of that block. -/
theorem Audience.answer_of_overtaken : ∃ (a b d : Audience flow) (latch : Nat)
    (made heard : TxResult Nat),
    (of (ofConfig oneEach adders)).cleanRun? interrupted = some a ∧
    a.pipeline.calls[0]? = some (.returned (.started (.ok ()))) ∧
    (∀ call ∈ a.pipeline.calls, call.isFinishing = false) ∧
    a.pipeline.result? 0 0 = .ok (some made) ∧ made.output = some 6 ∧
    a.inquiries[0]? = some ⟨0, 0, .ready⟩ ∧
    a.cleanRun? outrun = some b ∧
    b.pipeline.calls[1]? = some (.returned (.finished none (9 : Nat))) ∧
    b.inquiries[0]? = some ⟨0, 0, .parked latch⟩ ∧
    (∀ more d, (∀ store rules block, .pipeline (.call (.start store rules block)) ∉ more) →
      b.cleanRun? more = some d → d.inquiries[0]? = some ⟨0, 0, .parked latch⟩) ∧
    b.cleanRun? woken = some d ∧ d.inquiries[0]? = some ⟨0, 0, .answered heard⟩ ∧
    heard.output = some 18 := by
  obtain ⟨a, hrun, ⟨_, hcall, rfl⟩, hunasked, ⟨made, hmade, houtput⟩, ⟨inquiry, hinquiry, hready⟩,
      b, hb, hfinished, hquiet, hactive, ⟨parked, hparked, hwaiting⟩, ⟨s, hs, cell, hcell, -⟩,
      hstays, d, hd, answered, hanswer, hheard⟩ : ∃ a,
      (of (ofConfig oneEach adders)).cleanRun? interrupted = some a ∧
        (∃ call, a.pipeline.calls[0]? = some call ∧ call = .returned (.started (.ok ()))) ∧
        (∀ call ∈ a.pipeline.calls, call.isFinishing = false) ∧
        (∃ r, a.pipeline.result? 0 0 = .ok (some r) ∧ r.output = some 6) ∧
        (∃ inquiry, a.inquiries[0]? = some inquiry ∧ isReady inquiry = true) ∧
        ∃ b, a.cleanRun? outrun = some b ∧ b.pipeline.outcome? 1 = some (none, 9) ∧
          b.pipeline.isQuiet = true ∧ b.pipeline.active = none ∧
          (∃ inquiry, b.inquiries[0]? = some inquiry ∧ isWaiting inquiry = true) ∧
          (∃ s, b.pipeline.stations[0]? = some s ∧ ∃ cell, s.results[0]? = some cell ∧
            cell.value = none) ∧
          b.move? (.pursue 0) = none ∧
          ∃ d, b.cleanRun? woken = some d ∧
            ∃ inquiry, d.inquiries[0]? = some inquiry ∧ hasHeard 18 inquiry = true := by
    decide +kernel
  obtain rfl := eq_ready hready
  obtain ⟨latch, rfl⟩ := eq_parked hwaiting
  obtain ⟨r, rfl, hvalue⟩ := eq_answered hheard
  refine ⟨a, b, d, latch, made, r, hrun, hcall, hunasked, hmade, houtput, hinquiry, hb,
    calls_of_outcome? hfinished, hparked, fun more d hmore hmoved => ?_, hd, hanswer, hvalue⟩
  -- nobody is at work, and the call looks at a cell that stays empty
  have hbefore : (ofConfig oneEach adders).cleanRun? (interrupted.filterMap Move.pipeline?) =
      some a.pipeline := pipeline_of_cleanRun? hrun
  have hclean : (ofConfig oneEach adders).cleanRun? (interrupted.filterMap Move.pipeline? ++
      outrun.filterMap Move.pipeline?) = some b.pipeline := by
    rw [Pipeline.cleanRun?_append, hbefore, Option.bind_some]
    exact pipeline_of_cleanRun? hb
  obtain ⟨past, hvacant⟩ := (Chronicle.of_cleanRun? (show create oneEach adders = .ok _ from rfl)
    hclean).exists_vacant hquiet hactive
  have hlooks : b.LooksAt 0 ⟨0, 0, .parked latch⟩ cell := ⟨hparked, s, hs, hcell⟩
  exact (hlooks.waits (hlooks.released_eq_false hstays) hvacant hmore hmoved).inquiry_eq

end TxPipeline
