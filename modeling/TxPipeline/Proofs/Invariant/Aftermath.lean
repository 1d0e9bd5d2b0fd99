import TxPipeline.Proofs.Invariant.Run

/-!
# What becomes of a started block

The block is served until a call has finished it, or until a fault cuts short the call that was to
finish it. Then its threads are still at work, but nobody waits for them any more. No other block
comes into work unless a new call asks for it.
-/

namespace TxPipeline.Pipeline

variable {F : Flow} {calm : Prop} {handlers : List (Handler F)} {past : List (Work F)}
  {work : Work F} {p q : Pipeline F} {actor : Actor} {c k : Nat}
  {origin store store' : F.Store} {block : Block} {receipts : List Receipt} {next : Finishing}
  {s s' : Station F}

/-! ## A call that is cut short -/

theorem exists_of_cutsShort (hcut : p.cutsShort actor = true) (hstep : p.step? actor = some q) :
    ∃ c store block receipts next fault store', actor = .caller c ∧
      p.calls[c]? = some (.finish store block receipts next) ∧ next.isLeaving = false ∧
      q.calls[c]? = some (.returned (.finished (some fault) store')) := by
  unfold cutsShort at hcut
  split at hcut
  swap
  · cases hcut
  rename_i c
  rw [hstep, Option.bind_some] at hcut
  split at hcut
  swap
  · cases hcut
  rename_i store block receipts next fault store' hcall hreturned
  exact ⟨c, store, block, receipts, next, fault, store', rfl, hcall, by simpa using hcut, hreturned⟩

/-- A move goes on, or it cuts short a call that finishes a block. -/
theorem proceeds_or_cutsShort (p : Pipeline F) (actor : Actor) :
    p.Proceeds False actor ∨ p.cutsShort actor = true := by
  cases hcut : p.cutsShort actor with
  | true => exact .inr rfl
  | false => exact .inl ⟨fun hcalm => hcalm.elim, .inr hcut⟩

theorem isQuiet_of_step? (hquiet : p.isQuiet = true) (hstep : p.step? actor = some q) :
    q.isQuiet = true := by
  refine List.all_eq_true.mpr fun call hmem => ?_
  obtain ⟨i, hi⟩ := List.mem_iff_getElem?.mp hmem
  exact isSettled_of_step? hstep hi fun old hold => isSettled_of_isQuiet hquiet hold

theorem Minds.isQuiet {answer : Answer F} (hp : p.Minds c)
    (hreturned : p.calls[c]? = some (.returned answer)) : p.isQuiet = true := by
  refine List.all_eq_true.mpr fun call hmem => ?_
  obtain ⟨i, hi⟩ := List.mem_iff_getElem?.mp hmem
  by_cases hic : i = c
  · obtain rfl := hic
    rw [hreturned] at hi
    cases hi
    rfl
  · exact hp i call hi hic

namespace During

section Finishing

variable (hp : p.During calm handlers past work (.finishing c origin store block receipts next))

include hp

theorem isQuiet_of_returned {answer : Answer F} (hstep : p.step? actor = some q)
    (hreturned : q.calls[c]? = some (.returned answer)) : q.isQuiet = true := by
  refine Minds.isQuiet (c := c) ?_ hreturned
  intro i call hcall hne
  exact isSettled_of_step? hstep hcall fun old hold => hp.finish_minds i old hold hne

theorem abandonStation (joined concluded : Nat) (store' : F.Store) (fault : Option Fault)
    (hs : p.stations[k]? = some s) (hhandler : s'.handler = s.handler)
    (hne : ∀ h, h < handlers.length → h ≠ k → next.berth work.block.length h =
      (Phase.abandoned joined concluded : Phase F).berth work.block.length h)
    (hfits : s'.Fits calm handlers past work k
      ((Phase.finishing c origin store block receipts next).outstanding p)
      ((Phase.abandoned joined concluded : Phase F).berth work.block.length k)) :
    ((p.setStation k s').endFinish c store' fault).During calm handlers past work
      (.abandoned joined concluded) := by
  have hcrew : (p.setStation k s').Crew handlers := hp.crew.setStation hs hhandler
  exact { hp with
    crew := hcrew.setCall hp.finish_eq (by simp)
    calls := hp.calls.waits_of_returned rfl rfl rfl
    traffic := hp.traffic.of_le (fun _ => le_rfl) rfl hp.traffic.mem_jobs
      fun _ _ => by simp [Phase.berth]
    stations := fun h other hother => by
      have hget : (p.setStation k s').stations[h]? = some other := hother
      rw [getElem?_setStation hs] at hget
      split at hget
      · rename_i heq
        cases hget
        rw [heq]
        exact hfits
      · rename_i hne'
        exact (hp.stations h other hget).berth_congr (hne h (hp.crew.lt_of_station hget) hne') }

/-- A fault of a preparation, an aggregation or an `afterBlock` leaves the block to its threads. -/
theorem abandon {fault : Fault} (hnext : next.isLeaving = false)
    (hstep : p.stepFinish? c store block receipts next = some q)
    (hreturned : q.calls[c]? = some (.returned (.finished (some fault) store'))) :
    ∃ joined concluded, q.During calm handlers past work (.abandoned joined concluded) := by
  have hgoes {next' : Finishing} {store₁ : F.Store}
      (hq : q.calls = p.calls.set c (.finish store₁ block receipts next')) : False := by
    rw [getElem?_of_set_calls hp.finish_eq hq] at hreturned
    cases hreturned
  cases finishMove_of_stepFinish? hstep with
  | miss | take | mismatch => exact hp.finish_valid.elim
  | leave | leaveFault => cases hnext
  | preparationDead active k s raised hs =>
      obtain ⟨rfl, rfl⟩ := hp.finish_valid
      have hgiven := hp.abandonStation k 0 store (some raised) hs rfl
        (fun h _ _ => by simp [Phase.berth, Finishing.berth])
        ((hp.stations k s hs).berth_congr (by simp [Phase.berth, Finishing.berth]))
      rw [setStation_self hs] at hgiven
      exact ⟨_, _, hgiven⟩
  | aggregationDead active k s raised hs =>
      have hgiven := hp.abandonStation handlers.length k store (some raised) hs rfl
        (fun h hh _ => by simp [Phase.berth, Finishing.berth, hh])
        ((hp.stations k s hs).berth_congr
          (by simp [Phase.berth, Finishing.berth, hp.crew.lt_of_station hs]))
      rw [setStation_self hs] at hgiven
      exact ⟨_, _, hgiven⟩
  | concludeFault active k s s' a raised store'' hs htake =>
      have hfits := hp.stations k s hs
      simp only [Phase.berth, Finishing.berth, le_refl, decide_true] at hfits
      obtain ⟨hhandler, -, hfits'⟩ := hfits.takeAggregate? htake
      refine ⟨handlers.length, k + 1, hp.abandonStation _ _ _ _ hs hhandler (fun h hh hne => ?_)
        (hfits'.berth_congr (by simp [Phase.berth, hp.crew.lt_of_station hs]))⟩
      have hiff : h < k ↔ h < k + 1 := by omega
      have hle : h ≤ k ↔ h < k + 1 := Nat.lt_succ_iff.symm
      simp only [Phase.berth, Finishing.berth, hh, hiff, hle, decide_true]
  | _ => exact (hgoes rfl).elim

end Finishing

/-- Nothing cuts a call short that has not taken the block. -/
theorem cutsShort_of_started (hp : p.During calm handlers past work .started)
    (hstep : p.step? actor = some q) : p.cutsShort actor = false := by
  by_contra hcut
  obtain ⟨f, store, block, receipts, next, fault, store', rfl, hcall, -, hreturned⟩ :=
    exists_of_cutsShort (by simpa using hcut) hstep
  cases hp.calls.of_call hcall with
  | settled h => cases h
  | finish _ _ _ hnumber =>
      rw [step?_of_finish hcall] at hstep
      have hfinish := (hp.take hcall hstep).finish_eq
      rw [hreturned] at hfinish
      cases hfinish

end During

/-! ## After the start -/

/-- What has become of the block of `work` after it was started. -/
inductive Aftermath (handlers : List (Handler F)) (past : List (Work F)) (work : Work F)
    (p : Pipeline F) : Prop
  | served (phase : Phase F) (hp : p.During False handlers past work phase)
      (hphase : phase.isAttended = true)
  | abandoned (joined concluded : Nat)
      (hp : p.During False handlers past work (.abandoned joined concluded))
      (hquiet : p.isQuiet = true)
  | reset (hp : p.Between False handlers (past ++ [work])) (hquiet : p.isQuiet = true)

namespace Aftermath

theorem step? (hp : p.Aftermath handlers past work) (hstep : p.step? actor = some q) :
    q.Aftermath handlers past work := by
  cases hp with
  | abandoned joined concluded hp hquiet =>
      refine .abandoned joined concluded ?_ (isQuiet_of_step? hquiet hstep)
      rcases thread_or_callMove hstep with hthread | ⟨i, rfl, hmove⟩
      · refine hp.stepThread? ⟨fun hcalm => hcalm.elim, .inr ?_⟩ hthread hstep
        unfold cutsShort
        split
        · exact absurd rfl (hthread _)
        · rfl
      · obtain ⟨next, hcall, hclose⟩ := hmove.closes fun _ => isSettled_of_isQuiet hquiet
        exact hp.stepClose? hcall hclose
  | reset hp hquiet =>
      refine .reset ?_ (isQuiet_of_step? hquiet hstep)
      rcases thread_or_callMove hstep with hthread | ⟨i, rfl, hmove⟩
      · exact hp.stepThread? hthread hstep
      · obtain ⟨next, hcall, hclose⟩ := hmove.closes fun _ => isSettled_of_isQuiet hquiet
        exact hp.stepClose? hcall hclose
  | served phase hp hphase =>
      cases phase with
      | starting d next => cases hphase
      | abandoned joined concluded => cases hphase
      | started =>
          have hgoes : p.Proceeds False actor :=
            ⟨fun hcalm => hcalm.elim, .inr (hp.cutsShort_of_started hstep)⟩
          rcases hp.step?_started hgoes hstep with hq | ⟨f, store, block, receipts, -, hq⟩
          · exact .served _ hq rfl
          · exact .served _ hq rfl
      | finishing f origin store block receipts next =>
          rcases p.proceeds_or_cutsShort actor with hgoes | hcut
          · rcases hp.step?_finishing hgoes hstep with
              ⟨store', next', hq⟩ | ⟨hq, fault, store', hreturned, -⟩
            · exact .served _ hq rfl
            · exact .reset hq (hp.isQuiet_of_returned hstep hreturned)
          · obtain ⟨i, store₁, block₁, receipts₁, next₁, fault, store', rfl, hcall, hleaving,
              hreturned⟩ := exists_of_cutsShort hcut hstep
            obtain rfl := hp.finish_minds.eq hcall rfl
            rw [hp.finish_eq] at hcall
            cases hcall
            have hquiet := hp.isQuiet_of_returned hstep hreturned
            rw [step?_of_finish hp.finish_eq] at hstep
            obtain ⟨joined, concluded, hq⟩ := hp.abandon hleaving hstep hreturned
            exact .abandoned joined concluded hq hquiet

/-- Closing the pipeline can be asked for at any time. -/
theorem invoke_close (hp : p.Aftermath handlers past work) :
    (p.invoke .close).Aftermath handlers past work := by
  have hquiet (h : p.isQuiet = true) : (p.invoke .close).isQuiet = true :=
    List.all_append.trans (Bool.and_eq_true_iff.mpr ⟨h, rfl⟩)
  cases hp with
  | served phase hp hphase => exact .served phase (hp.invoke rfl) hphase
  | abandoned joined concluded hp h => exact .abandoned joined concluded (hp.invoke rfl) (hquiet h)
  | reset hp h => exact .reset (hp.invoke rfl) (hquiet h)

section Fields

variable (hp : p.Aftermath handlers past work)

include hp

theorem crew : p.Crew handlers := by
  cases hp with
  | served phase hp hphase => exact hp.crew
  | abandoned joined concluded hp hquiet => exact hp.crew
  | reset hp hquiet => exact hp.crew

theorem rests : ∃ copy, p.relay.Rests copy := by
  cases hp with
  | served phase hp hphase =>
      exact ⟨_, hp.rests_of_dispatched fun d next h => by simp [h, Phase.isAttended] at hphase⟩
  | abandoned joined concluded hp hquiet => exact ⟨_, hp.relay⟩
  | reset hp hquiet => exact hp.relay

theorem unlocked : p.locked = false := by
  cases hp with
  | abandoned joined concluded hp hquiet => exact hp.calls.unlocked
  | reset hp hquiet =>
      rcases hp.calls with hwaits | ⟨c, work, next, henters⟩
      · exact hwaits.unlocked
      · cases isSettled_of_isQuiet hquiet henters.call
  | served phase hp hphase =>
      cases phase with
      | starting d next => cases hphase
      | abandoned joined concluded => cases hphase
      | started => exact hp.calls.unlocked
      | finishing f origin store block receipts next => exact hp.calls.1

/-- A station still serves the block, or it is done with it. -/
theorem station (hs : p.stations[k]? = some s) :
    (∃ phase progress, p.During False handlers past work phase ∧
      (∀ d next, phase ≠ .starting d next) ∧
      phase.berth work.block.length k = .serving progress ∧
      s.Fits False handlers past work k (phase.outstanding p) (.serving progress)) ∨
    s.Clear ∧ List.Forall₂ (Lane.Done handlers k) (past ++ [work]) s.lanes := by
  have hduring {phase : Phase F} (hp : p.During False handlers past work phase)
      (hphase : ∀ d next, phase ≠ .starting d next) :
      (∃ progress, phase.berth work.block.length k = .serving progress ∧
        s.Fits False handlers past work k (phase.outstanding p) (.serving progress)) ∨
      s.Clear ∧ List.Forall₂ (Lane.Done handlers k) (past ++ [work]) s.lanes := by
    have hfits := hp.stations k s hs
    cases hberth : phase.berth work.block.length k with
    | unopened => exact absurd hberth (Phase.berth_ne_unopened hphase _ _)
    | serving progress => exact .inl ⟨progress, rfl, hberth ▸ hfits⟩
    | closed =>
        rw [hberth] at hfits
        exact .inr hfits
  cases hp with
  | reset hp hquiet => exact .inr (hp.stations k s hs)
  | served phase hp hphase =>
      have hstarting (d : Nat) (next : Starting) : phase ≠ .starting d next := by
        rintro rfl
        cases hphase
      exact (hduring hp hstarting).imp_left fun ⟨progress, h⟩ => ⟨phase, progress, hp, hstarting, h⟩
  | abandoned joined concluded hp hquiet =>
      exact (hduring hp (by simp)).imp_left fun ⟨progress, h⟩ =>
        ⟨_, progress, hp, by simp, h⟩

theorem blockLength_le (hs : s ∈ p.stations) : s.blockLength ≤ work.block.length := by
  obtain ⟨k, hk⟩ := List.mem_iff_getElem?.mp hs
  rcases hp.station hk with ⟨phase, progress, -, -, -, -, l, -, -, hserves⟩ | ⟨hclear, -⟩
  · exact hserves.length_eq.le
  · exact hclear.blockLength.le.trans (Nat.zero_le _)

/-- A call that is still to start a block will be refused. -/
theorem refuses {store : F.Store} {rules : Rules} {block : Block} {next : Starting}
    (hcall : p.calls[c]? = some (.start store rules block next)) :
    next = .acquire ∧ p.active.isSome = true := by
  cases hp with
  | abandoned joined concluded hp hquiet => cases isSettled_of_isQuiet hquiet hcall
  | reset hp hquiet => cases isSettled_of_isQuiet hquiet hcall
  | served phase hp hphase =>
      cases phase with
      | starting d next => cases hphase
      | abandoned joined concluded => cases hphase
      | started =>
          exact ⟨Waits.eq_acquire hp.calls hcall, by rw [hp.calls.active_eq]; rfl⟩
      | finishing f origin store block receipts next =>
          obtain rfl := hp.finish_minds.eq hcall rfl
          rw [hp.finish_eq] at hcall
          cases hcall

theorem deny?_eq_none (i : Nat) (reason : String) : p.deny? i reason = none :=
  Pipeline.deny?_eq_none (fun _ _ _ hcall => by cases (hp.refuses hcall).1) reason

end Fields

/-- Threads and callers go on as they like, and nothing new is asked for. -/
theorem run? {actors : List Actor} (hp : p.Aftermath handlers past work)
    (hrun : p.run? (actors.map .act) = some q) : q.Aftermath handlers past work := by
  induction actors generalizing p with
  | nil =>
      cases hrun
      exact hp
  | cons actor rest ih =>
      obtain ⟨next, hstep, hrest⟩ := Option.bind_eq_some_iff.mp hrun
      exact ih (hp.step? hstep) hrest

end Aftermath

/-- Once a call has started its block, and while no later one has finished it, the block is
served. -/
theorem Chronicle.aftermath {ts : List (Task F)} (hq : Chronicle False handlers ts q)
    (htask : ts[c]? = some work.task)
    (hstarted : q.calls[c]? = some (.returned (.started (.ok ())))) (hover : ¬ q.Over c) :
    ∃ past, q.Aftermath handlers past work := by
  obtain ⟨past, phase, hp, hphase⟩ := hq.exists_attended htask hstarted hover
  exact ⟨past, .served phase hp hphase⟩

end TxPipeline.Pipeline
