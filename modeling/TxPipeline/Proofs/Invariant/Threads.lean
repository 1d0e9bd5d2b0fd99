import TxPipeline.Proofs.Invariant.Queues

/-!
# The threads of the lanes keep the invariant

Only the threads of the block in work move, and they see nothing of the pipeline but their station.
-/

namespace TxPipeline.Pipeline

variable {F : Flow} {calm : Prop} {handlers : List (Handler F)} {past : List (Work F)}
  {work : Work F} {phase : Phase F} {p q : Pipeline F} {h lane : Nat} {s s' : Station F}

theorem stepPreparation?_of_done {works : List (Work F)}
    (hdone : List.Forall₂ (Lane.Done handlers h) works s.lanes) :
    s.stepPreparation? lane = none := by
  cases hl : s.lanes[lane]? with
  | none => simp [Station.stepPreparation?, hl]
  | some l =>
      obtain ⟨work, hl'⟩ := exists_done_of_getElem? hdone hl
      exact hl'.stepPreparation? hl

theorem stepReplay?_of_done {works : List (Work F)}
    (hdone : List.Forall₂ (Lane.Done handlers h) works s.lanes) : s.stepReplay? lane = none := by
  cases hl : s.lanes[lane]? with
  | none => simp [Station.stepReplay?, hl]
  | some l =>
      obtain ⟨work, hl'⟩ := exists_done_of_getElem? hdone hl
      exact hl'.stepReplay? hl

theorem stepAggregation?_of_done {works : List (Work F)}
    (hdone : List.Forall₂ (Lane.Done handlers h) works s.lanes) :
    s.stepAggregation? lane = none := by
  cases hl : s.lanes[lane]? with
  | none => simp [Station.stepAggregation?, hl]
  | some l =>
      obtain ⟨work, hl'⟩ := exists_done_of_getElem? hdone hl
      exact hl'.stepAggregation? hl

namespace During

variable (hp : p.During calm handlers past work phase)

include hp

theorem setStation (hs : p.stations[h]? = some s) (hhandler : s'.handler = s.handler)
    (hfits : s'.Fits calm handlers past work h (phase.outstanding p)
      (phase.berth work.block.length h)) :
    (p.setStation h s').During calm handlers past work phase :=
  { hp with
    crew := hp.crew.setStation hs hhandler
    calls := hp.calls.congr rfl rfl rfl rfl
    traffic := hp.traffic.of_load_eq fun _ => rfl
    stations := by
      intro i other hother
      rw [getElem?_setStation hs] at hother
      split at hother
      · rename_i heq
        cases hother
        rw [heq]
        exact hfits
      · exact hp.stations i other hother }

/-- A thread of a lane keeps the invariant if it does so at a station that serves the block, and
cannot move elsewhere. -/
theorem stepStation? {move : Station F → Option (Station F)}
    (hstep : p.stepStation? h move = some q)
    (hdone : ∀ (s : Station F) (works : List (Work F)),
      List.Forall₂ (Lane.Done handlers h) works s.lanes → move s = none)
    (hmove : ∀ (s s' : Station F) (progress : Progress), p.stations[h]? = some s →
      handlers[h]? = some s.handler →
      s.Fits calm handlers past work h (phase.outstanding p) (.serving progress) →
      move s = some s' → s'.handler = s.handler ∧
        s'.Fits calm handlers past work h (phase.outstanding p) (.serving progress)) :
    q.During calm handlers past work phase := by
  obtain ⟨s, hs, hstep⟩ := Option.bind_eq_some_iff.mp hstep
  obtain ⟨s', hs', hstep⟩ := Option.bind_eq_some_iff.mp hstep
  cases hstep
  have hfits := hp.stations h s hs
  have hhandler : handlers[h]? = some s.handler := by
    rw [hp.crew.getElem?_handlers, hs, Option.map_some]
  cases hberth : phase.berth work.block.length h with
  | unopened =>
      rw [hberth] at hfits
      rw [hdone s _ hfits.2] at hs'
      cases hs'
  | closed =>
      rw [hberth] at hfits
      rw [hdone s _ hfits.2] at hs'
      cases hs'
  | serving progress =>
      rw [hberth] at hfits
      obtain ⟨hkeep, hfits'⟩ := hmove s s' progress hs hhandler hfits hs'
      exact hp.setStation hs hkeep (hberth ▸ hfits')

theorem stepPreparation? (hcalm : calm → p.raises (.preparation h lane) = false)
    (hstep : p.step? (.preparation h lane) = some q) :
    q.During calm handlers past work phase := by
  refine hp.stepStation? hstep (fun _ _ => stepPreparation?_of_done)
    fun s s' progress hs hhandler hfits hmove => ?_
  apply hfits.stepPreparation? hhandler hmove
  intro hc
  have hraises := hcalm hc
  rwa [raises, hs] at hraises

theorem stepReplay? (hstep : p.step? (.replay h lane) = some q) :
    q.During calm handlers past work phase :=
  hp.stepStation? hstep (fun _ _ => stepReplay?_of_done) fun _ _ _ _ _ hfits hmove =>
    hfits.stepReplay? (fun _ hj => hp.traffic.mem_settled hj) hmove

theorem stepAggregation? (hcalm : calm → p.raises (.aggregation h lane) = false)
    (hstep : p.step? (.aggregation h lane) = some q) :
    q.During calm handlers past work phase := by
  refine hp.stepStation? hstep (fun _ _ => stepAggregation?_of_done)
    fun s s' progress hs hhandler hfits hmove => ?_
  apply hfits.stepAggregation? hp.length_le hhandler hmove
  intro hc
  have hraises := hcalm hc
  rwa [raises, hs] at hraises

end During

theorem Between.stepStation? (hp : p.Between calm handlers past)
    {move : Station F → Option (Station F)}
    (hdone : ∀ (s : Station F) (works : List (Work F)),
      List.Forall₂ (Lane.Done handlers h) works s.lanes → move s = none) :
    p.stepStation? h move = none := by
  unfold Pipeline.stepStation?
  cases hs : p.stations[h]? with
  | none => rfl
  | some s => simp [hdone s past (hp.stations h s hs).2]

end TxPipeline.Pipeline
