import TxPipeline.Proofs.Invariant.Start

/-!
# Finishing a block keeps the invariant

A call that finishes the block waits for everything that works on it, runs `afterBlock` of every
handler in order, and closes every station after it has removed all results. When the last station
is closed, no job is left anywhere and the pipeline is between two blocks again.
-/

namespace TxPipeline

variable {F : Flow} {calm : Prop} {handlers : List (Handler F)} {past : List (Work F)}
  {work : Work F} {p q : Pipeline F} {c k : Nat} {origin store store' : F.Store} {block : Block}
  {receipts : List Receipt} {next next' : Finishing} {active : ActiveBlock} {s s' : Station F}
  {kept : Option Fault}

theorem Work.Concludes.le (hc : work.Concludes handlers block receipts origin k store) :
    k ≤ handlers.length := by
  cases hc with
  | start => exact Nat.zero_le _
  | next _ hhandler _ _ => exact (List.getElem?_eq_some_iff.mp hhandler).1

theorem Work.Collects.of_le (hc : work.Collects handlers k kept)
    (haccepted : work.Accepted handlers)
    (hk : handlers.length ≤ k) : work.Collects handlers handlers.length kept where
  raised := fun fault hf => by
    obtain ⟨job, hjob, -, hrest⟩ := hc.raised fault hf
    exact ⟨job, hjob, Work.lt_of_mem_jobs haccepted hjob, hrest⟩
  missed := fun hnone job hjob hlt => hc.missed hnone job hjob (Nat.lt_of_lt_of_le hlt hk)

theorem Work.Collects.zero : work.Collects handlers 0 none :=
  ⟨fun _ h => (by cases h), fun _ _ _ h => absurd h (Nat.not_lt_zero _)⟩

theorem Work.Collects.close {fault : Option Fault} (hc : work.Collects handlers k kept)
    (hkept : Kept handlers work k 0 0 fault) : work.Collects handlers (k + 1) (kept <|> fault) := by
  have hnone (hfault : fault = none) {job : Job} (hjob : job ∈ work.jobs handlers)
      (hh : job.handler = k) (f : Fault) : ¬ work.Raises handlers job f := by
    obtain ⟨hprefetch, hprocess⟩ := hkept.missed hfault job hjob hh
    rw [Work.Raises, hprefetch (Multiset.notMem_zero _), hprocess (Multiset.notMem_zero _)]
    simp
  cases kept with
  | some f =>
      refine ⟨?_, fun h => (by cases h)⟩
      intro f' hf
      obtain ⟨job, hjob, hlt, hrest⟩ := hc.raised f' hf
      exact ⟨job, hjob, Nat.lt_succ_of_lt hlt, hrest⟩
  | none =>
      refine ⟨?_, ?_⟩
      · intro f hf
        obtain ⟨job, hjob, rfl, hraised⟩ := hkept.raised f (by simpa using hf)
        exact ⟨job, hjob, Nat.lt_succ_self _, hraised, hc.missed rfl⟩
      · intro hfault job hjob hlt f
        rcases Nat.lt_succ_iff_lt_or_eq.mp hlt with hlt | heq
        · exact hc.missed rfl job hjob hlt f
        · exact hnone (by simpa using hfault) hjob heq f

namespace Pipeline

theorem Attends.next_finish {lane : Nat}
    (hp : p.Attends handlers work lane (.finishing c origin store block receipts next))
    (hv : next'.Valid handlers work lane origin store' block receipts)
    (hq : q.calls = p.calls.set c (.finish store' block receipts next'))
    (hlocked : q.locked = p.locked) (hactive : q.active = p.active) :
    q.Attends handlers work lane (.finishing c origin store' block receipts next') := by
  obtain ⟨hl, ha, hminds, hc, -⟩ := hp
  exact ⟨hlocked.trans hl, hactive.trans ha, hminds.set_self hc hq, getElem?_of_set_calls hc hq, hv⟩

theorem Attends.waits_of_returned {lane : Nat} {answer : Answer F}
    (hp : p.Attends handlers work lane (.finishing c origin store block receipts next))
    (hq : q.calls = p.calls.set c (.returned answer)) (hlocked : q.locked = p.locked)
    (hactive : q.active = p.active) : q.Waits none := by
  obtain ⟨hl, ha, hminds, hc, -⟩ := hp
  refine ⟨hlocked.trans hl, hactive.trans ha, c, hminds.set_self hc hq, ?_⟩
  intro call hcall
  rw [getElem?_of_set_calls hc hq] at hcall
  cases hcall
  exact .settled rfl

namespace During

section Finishing

variable (hp : p.During calm handlers past work (.finishing c origin store block receipts next))

include hp

theorem finish_eq : p.calls[c]? = some (.finish store block receipts next) := hp.calls.2.2.2.1

theorem finish_minds : p.Minds c := hp.calls.2.2.1

theorem finish_valid : next.Valid handlers work past.length origin store block receipts :=
  hp.calls.2.2.2.2

theorem finishCall (hv : next'.Valid handlers work past.length origin store block receipts)
    (hne : ∀ h, h < handlers.length →
      next.berth work.block.length h = next'.berth work.block.length h) :
    (p.setCall c (.finish store block receipts next')).During calm handlers past work
      (.finishing c origin store block receipts next') :=
  { hp with
    crew := hp.crew.setCall hp.finish_eq (by simp)
    calls := hp.calls.next_finish hv rfl rfl rfl
    traffic := hp.traffic.of_le (fun _ => le_rfl) rfl hp.traffic.mem_jobs fun job hj => by
      have hjob := Multiset.mem_add.mp hj
      have hlt : job.handler < handlers.length := by
        rcases hjob with hjob | hjob
        · exact absurd hjob (Multiset.notMem_zero _)
        · exact Work.lt_of_mem_jobs hp.accepted (hp.traffic.mem_jobs .settled job hjob)
      exact fun h => hp.traffic.not_closed job hj ((hne job.handler hlt).trans h)
    stations := fun h other hother =>
      (hp.stations h other hother).berth_congr (hne h (hp.crew.lt_of_station hother)) }

theorem finishStation (next' : Finishing) (hs : p.stations[k]? = some s)
    (hhandler : s'.handler = s.handler)
    (hv : next'.Valid handlers work past.length origin store' block receipts)
    (hne : ∀ h, h ≠ k → next.berth work.block.length h = next'.berth work.block.length h)
    (hfits : s'.Fits calm handlers past work k
      ((Phase.finishing c origin store block receipts next).outstanding p)
      (next'.berth work.block.length k))
    (hclosed : ∀ job ∈ p.load .settled, next'.berth work.block.length job.handler ≠ .closed) :
    ((p.setStation k s').setCall c (.finish store' block receipts next')).During calm handlers past
      work (.finishing c origin store' block receipts next') := by
  have hcrew : (p.setStation k s').Crew handlers := hp.crew.setStation hs hhandler
  exact { hp with
    crew := hcrew.setCall hp.finish_eq (by simp)
    calls := hp.calls.next_finish hv rfl rfl rfl
    traffic := hp.traffic.of_le (fun _ => le_rfl) rfl hp.traffic.mem_jobs fun job hj =>
      hclosed job ((Multiset.mem_add.mp hj).resolve_left (Multiset.notMem_zero _))
    stations := fun h other hother => by
      have hget : (p.setStation k s').stations[h]? = some other := hother
      rw [getElem?_setStation hs] at hget
      split at hget
      · rename_i heq
        cases hget
        rw [heq]
        exact hfits
      · rename_i hne'
        exact (hp.stations h other hget).berth_congr (hne h hne') }

theorem not_cutsShort {fault : Fault} (hcut : p.cutsShort (.caller c) = false)
    (hnext : next.isLeaving = false) (hstep : p.stepFinish? c store block receipts next = some q)
    (hreturned : q.calls[c]? = some (.returned (.finished (some fault) store'))) : False := by
  have hmove : p.step? (.caller c) = some q := by
    rwa [step?_of_finish hp.finish_eq]
  rw [cutsShort_of_returned hp.finish_eq hnext hmove hreturned] at hcut
  cases hcut

end Finishing

/-! ## Waiting for the threads -/

theorem joinPreparation (hgoes : p.Proceeds calm (.caller c))
    (hp : p.During calm handlers past work
      (.finishing c origin store block receipts (.joinPreparation active k)))
    (hstep : p.stepFinish? c store block receipts (.joinPreparation active k) = some q) :
    ∃ next', q.During calm handlers past work
      (.finishing c origin store block receipts next') := by
  obtain ⟨rfl, rfl⟩ := hp.finish_valid
  cases finishMove_of_stepFinish? hstep with
  | prepared _ _ hs =>
      refine ⟨_, hp.finishCall ⟨rfl, rfl⟩ ?_⟩
      intro h hh
      simp [Finishing.berth, Nat.lt_of_lt_of_le hh (hp.crew.length_le hs)]
  | joinPreparation _ _ s hs hended =>
      have hfits := hp.stations k s hs
      simp only [Phase.berth, Finishing.berth, Nat.lt_irrefl, decide_false] at hfits
      have hnext := hp.finishStation (.joinPreparation (work.active past.length) (k + 1)) hs rfl
        ⟨rfl, rfl⟩ (fun h hne => ?_) ((hfits.join hended).berth_congr ?_) fun job _ => ?_
      · rw [setStation_self hs] at hnext
        exact ⟨_, hnext⟩
      · have hiff : h < k ↔ h < k + 1 := by omega
        simp only [Finishing.berth, hiff]
      · simp [Finishing.berth]
      · simp [Finishing.berth]
  | preparationDead _ _ s fault hs hdead =>
      have hfits := hp.stations k s hs
      simp only [Phase.berth, Finishing.berth, Nat.lt_irrefl, decide_false] at hfits
      rcases hgoes.cutsShort with hcalm | hcut
      · exact absurd hcalm (hfits.preparation_dead hdead)
      · exact (hp.not_cutsShort hcut rfl hstep (getElem?_of_set_calls hp.finish_eq rfl)).elim

theorem joinFeeders
    (hp : p.During calm handlers past work
      (.finishing c origin store block receipts (.joinFeeders active)))
    (hstep : p.stepFinish? c store block receipts (.joinFeeders active) = some q) :
    ∃ next', q.During calm handlers past work
      (.finishing c origin store block receipts next') := by
  obtain ⟨rfl, rfl⟩ := hp.finish_valid
  cases finishMove_of_stepFinish? hstep
  exact ⟨_, hp.finishCall ⟨rfl, .start⟩ fun h _ => by simp [Finishing.berth]⟩

theorem joinAggregation (hgoes : p.Proceeds calm (.caller c))
    (hp : p.During calm handlers past work
      (.finishing c origin store block receipts (.joinAggregation active k)))
    (hstep : p.stepFinish? c store block receipts (.joinAggregation active k) = some q) :
    ∃ next', q.During calm handlers past work
      (.finishing c origin store block receipts next') := by
  obtain ⟨rfl, hconcludes⟩ := hp.finish_valid
  cases finishMove_of_stepFinish? hstep with
  | aggregated _ _ hs =>
      have hk : k = handlers.length := Nat.le_antisymm hconcludes.le (hp.crew.length_le hs)
      refine ⟨_, hp.finishCall ⟨rfl, hk ▸ hconcludes, Work.Collects.zero⟩ ?_⟩
      intro h hh
      simp [Finishing.berth, hk, hh]
  | joinAggregation _ _ s hs hended =>
      have hfits := hp.stations k s hs
      simp only [Phase.berth, Finishing.berth, Nat.lt_irrefl, decide_false] at hfits
      have hnext := hp.finishStation (.conclude (work.active past.length) k) hs rfl
        ⟨rfl, hp.crew.lt_of_station hs, hconcludes⟩ (fun h hne => ?_)
        ((hfits.await hended).berth_congr ?_) fun job _ => ?_
      · rw [setStation_self hs] at hnext
        exact ⟨_, hnext⟩
      · have hiff : h < k ↔ h ≤ k := by omega
        simp only [Finishing.berth, hiff]
      · simp [Finishing.berth]
      · simp [Finishing.berth]
  | aggregationDead _ _ s fault hs hdead =>
      rcases hgoes.cutsShort with hcalm | hcut
      · have hfits := hp.stations k s hs
        simp only [Phase.berth, Finishing.berth] at hfits
        exact absurd hcalm (hfits.aggregation_dead hdead)
      · exact (hp.not_cutsShort hcut rfl hstep (getElem?_of_set_calls hp.finish_eq rfl)).elim

theorem conclude
    (hp : p.During calm handlers past work
      (.finishing c origin store block receipts (.conclude active k)))
    (hgoes : p.Proceeds calm (.caller c))
    (hstep : p.stepFinish? c store block receipts (.conclude active k) = some q) :
    ∃ store' next', q.During calm handlers past work
      (.finishing c origin store' block receipts next') := by
  obtain ⟨rfl, -, hconcludes⟩ := hp.finish_valid
  cases finishMove_of_stepFinish? hstep with
  | concludeFault _ _ s s' a fault store' hs htake hafter =>
      rcases hgoes.cutsShort with hcalm | hcut
      · have hraises := hgoes.raises hcalm
        simp [raises, callRaises, hp.finish_eq, hs, htake, hafter] at hraises
      · exact (hp.not_cutsShort hcut rfl hstep (getElem?_of_set_calls hp.finish_eq rfl)).elim
  | conclude _ _ s s' a store' hs htake hafter =>
      have hfits := hp.stations k s hs
      simp only [Phase.berth, Finishing.berth, Nat.lt_irrefl, decide_false] at hfits
      obtain ⟨hhandler, haggregate, hfits'⟩ := hfits.takeAggregate? htake
      have hget : handlers[k]? = some s.handler := by
        rw [hp.crew.getElem?_handlers, hs, Option.map_some]
      have hnext : work.Concludes handlers block receipts origin (k + 1) store' := by
        have hnext := hconcludes.next hget haggregate (by rw [hafter])
        rwa [hafter] at hnext
      refine ⟨_, _, hp.finishStation (.joinAggregation (work.active past.length) (k + 1)) hs
        hhandler ⟨rfl, hnext⟩ ?_ (hfits'.berth_congr ?_) ?_⟩
      · intro h hne
        have hiff : h < k ↔ h < k + 1 := by omega
        have hle : h ≤ k ↔ h < k + 1 := Nat.lt_succ_iff.symm
        simp only [Finishing.berth, hiff, hle]
      · simp [Finishing.berth]
      · intro job _
        simp [Finishing.berth]

/-! ## Closing the stations -/

theorem ending {kept : Option Fault}
    (hp : p.During calm handlers past work
      (.finishing c origin store block receipts (.ending active k kept)))
    (hstep : p.stepFinish? c store block receipts (.ending active k kept) = some q) :
    ∃ next', q.During calm handlers past work
      (.finishing c origin store block receipts next') := by
  obtain ⟨rfl, hconcludes, hcollects⟩ := hp.finish_valid
  cases finishMove_of_stepFinish? hstep with
  | reset _ _ _ hs =>
      have hk := hp.crew.length_le hs
      refine ⟨_, hp.finishCall ⟨rfl, hconcludes, hcollects.of_le hp.accepted hk⟩ ?_⟩
      intro h hh
      simp [Finishing.berth, Nat.lt_of_lt_of_le hh hk]
  | beginReset _ _ _ s hs =>
      have hfits := hp.stations k s hs
      simp only [Phase.berth, Finishing.berth, Nat.lt_irrefl, if_false] at hfits
      obtain ⟨old, l, -, -, hserves⟩ := hfits
      refine ⟨_, hp.finishCall ⟨rfl, hp.crew.lt_of_station hs, Nat.zero_le _, hserves.length_eq,
        hconcludes, hcollects⟩ ?_⟩
      intro h _
      simp [Finishing.berth]

theorem draining {i length : Nat} {kept : Option Fault}
    (hp : p.During calm handlers past work
      (.finishing c origin store block receipts (.draining active k i length kept)))
    (hstep : p.stepFinish? c store block receipts (.draining active k i length kept) = some q) :
    ∃ next', q.During calm handlers past work
      (.finishing c origin store block receipts next') := by
  obtain ⟨rfl, hk, hi, hlength, hrest⟩ := hp.finish_valid
  cases finishMove_of_stepFinish? hstep with
  | drain _ _ _ _ _ s s' hlt hs hdrain =>
      have hfits := hp.stations k s hs
      simp only [Phase.berth, Finishing.berth, Nat.lt_irrefl, if_false, if_true] at hfits
      obtain ⟨hhandler, hfits'⟩ := hfits.drain? hdrain
      refine ⟨_, hp.finishStation (.draining (work.active past.length) k (i + 1) length kept) hs
        hhandler ⟨rfl, hk, hlt, hlength, hrest⟩ ?_ (hfits'.berth_congr ?_) ?_⟩
      · intro h hne
        simp [Finishing.berth, hne]
      · simp [Finishing.berth]
      · intro job hj
        have hopen := hp.traffic.not_closed job (Multiset.mem_add.mpr (.inr hj))
        simp only [Phase.berth, Finishing.berth] at hopen ⊢
        split
        · rename_i hclosed
          rw [if_pos hclosed] at hopen
          exact absurd rfl hopen
        · simp
  | drained _ _ _ _ _ hle =>
      obtain rfl : i = work.block.length := by omega
      exact ⟨_, hp.finishCall ⟨rfl, hk, hrest⟩ fun h _ => rfl⟩

theorem closing {kept : Option Fault}
    (hp : p.During calm handlers past work
      (.finishing c origin store block receipts (.closing active k kept)))
    (hstep : p.stepFinish? c store block receipts (.closing active k kept) = some q) :
    ∃ next', q.During calm handlers past work
      (.finishing c origin store block receipts next') := by
  obtain ⟨rfl, -, hconcludes, hcollects⟩ := hp.finish_valid
  cases finishMove_of_stepFinish? hstep with
  | closeStation _ _ _ s hs =>
      have hfits := hp.stations k s hs
      simp only [Phase.berth, Finishing.berth, Nat.lt_irrefl, if_false, if_true] at hfits
      have hsettled (c' : Checkpoint) (job : Job) (hj : job ∈ Phase.outstanding _ p c') :=
        hp.traffic.mem_settled hj
      refine ⟨_, hp.finishStation (.ending (work.active past.length) (k + 1) (kept <|> s.fault))
        hs rfl ⟨rfl, hconcludes, hcollects.close (hfits.kept_of_drained hsettled rfl)⟩ ?_
        ((hfits.closeBlock hsettled rfl rfl rfl rfl).berth_congr ?_) ?_⟩
      · intro h hne
        have hiff : h < k ↔ h < k + 1 := by omega
        simp only [Finishing.berth, hne, hiff, if_false]
      · simp [Finishing.berth]
      · intro job hj
        have hout : job ∈ 0 + p.load .settled := Multiset.mem_add.mpr (.inr hj)
        have hopen := hp.traffic.not_closed job hout
        have hne : job.handler ≠ k := by
          rintro rfl
          have htx := (Work.mem_jobs.mp (hp.traffic.mem_jobs _ job hj)).1
          exact hfits.not_due_of_drained hsettled rfl htx hout
        simp only [Phase.berth, Finishing.berth] at hopen ⊢
        split
        · rename_i hlt
          rw [if_pos (by omega)] at hopen
          exact absurd rfl hopen
        · simp

/-! ## Leaving -/

theorem load_eq_zero_of_leaving {kept : Option Fault}
    (hp : p.During calm handlers past work
      (.finishing c origin store block receipts (.leaving active kept))) (c' : Checkpoint) :
    p.load c' = 0 := by
  apply Multiset.eq_zero_of_forall_notMem
  intro job hj
  exact hp.traffic.not_closed job (hp.traffic.mem_settled (Multiset.mem_add.mpr (.inr hj))) rfl

theorem leave {kept : Option Fault} (log : List Event)
    (hp : p.During calm handlers past work
      (.finishing c origin store block receipts (.leaving active kept))) :
    (({ p with
        ledger := p.ledger.clear active.hashes
        log := log } : Pipeline F).endFinish c store kept).Between calm handlers
      (past ++ [work]) := by
  obtain ⟨rfl, -, -⟩ := hp.finish_valid
  have hcrew : (p.setCall c (.returned (.finished kept store))).Crew handlers :=
    hp.crew.setCall hp.finish_eq (by simp)
  exact {
    crew := { hcrew with }
    feeders := by
      rw [List.length_append, List.length_singleton]
      exact hp.feeders
    calls := .inl (hp.calls.waits_of_returned rfl rfl rfl)
    relay := ⟨_, hp.relay⟩
    load := hp.load_eq_zero_of_leaving
    stations := hp.stations
    ledger := fun hc hash => by
      change (p.ledger.clear work.block.hashes).find? hash = none
      rw [Gas.Ledger.find?_clear, hp.ledger hc]
      split
      · rfl
      · rename_i hnot
        rw [Block.hashes_eq] at hnot
        exact lastReserved_eq_none_iff.mpr hnot }

theorem leaving {kept : Option Fault}
    (hp : p.During calm handlers past work
      (.finishing c origin store block receipts (.leaving active kept)))
    (hstep : p.stepFinish? c store block receipts (.leaving active kept) = some q) :
    q.Between calm handlers (past ++ [work]) ∧
      q.calls[c]? = some (.returned (.finished kept store)) ∧
      work.Concludes handlers block receipts origin handlers.length store ∧
      work.Collects handlers handlers.length kept := by
  obtain ⟨-, hconcludes, hcollects⟩ := hp.finish_valid
  cases finishMove_of_stepFinish? hstep <;>
    exact ⟨hp.leave _, getElem?_of_set_calls hp.finish_eq rfl, hconcludes, hcollects⟩

/-- Every move of the call that finishes a block keeps the invariant, and with the last one the
pipeline is between two blocks. -/
theorem stepFinish?
    (hp : p.During calm handlers past work (.finishing c origin store block receipts next))
    (hgoes : p.Proceeds calm (.caller c))
    (hstep : p.stepFinish? c store block receipts next = some q) :
    (∃ store' next', q.During calm handlers past work
        (.finishing c origin store' block receipts next')) ∨
      q.Between calm handlers (past ++ [work]) ∧ ∃ active fault, next = .leaving active fault ∧
        q.calls[c]? = some (.returned (.finished fault store)) ∧
        work.Concludes handlers block receipts origin handlers.length store ∧
        work.Collects handlers handlers.length fault := by
  cases next with
  | take => exact hp.finish_valid.elim
  | joinPreparation active k => exact .inl ⟨store, hp.joinPreparation hgoes hstep⟩
  | joinFeeders active => exact .inl ⟨store, hp.joinFeeders hstep⟩
  | joinAggregation active k => exact .inl ⟨store, hp.joinAggregation hgoes hstep⟩
  | conclude active k => exact .inl (hp.conclude hgoes hstep)
  | ending active k kept => exact .inl ⟨store, hp.ending hstep⟩
  | draining active k i length kept => exact .inl ⟨store, hp.draining hstep⟩
  | closing active k kept => exact .inl ⟨store, hp.closing hstep⟩
  | leaving active kept =>
      obtain ⟨hbetween, hcall, hrest⟩ := hp.leaving hstep
      exact .inr ⟨hbetween, active, kept, rfl, hcall, hrest⟩

/-! ## Taking the block -/

theorem take (hp : p.During calm handlers past work .started)
    (hcall : p.calls[c]? = some (.finish store block receipts .take))
    (hstep : p.stepFinish? c store block receipts .take = some q) :
    q.During calm handlers past work (.finishing c store store block receipts
      (.joinPreparation (work.active past.length) 0)) := by
  have hminds := Waits.minds hp.calls hcall rfl
  have hnumber : (work.active past.length).number = block.number := by
    cases Waits.of_call hp.calls hcall with
    | settled h => cases h
    | finish _ _ _ hnumber => exact hnumber _ rfl
  simp only [Pipeline.stepFinish?, hp.calls.unlocked, hp.calls.active_eq, hnumber] at hstep
  cases hstep
  have hcrew : (p.setCall c (.finish store block receipts
      (.joinPreparation (work.active past.length) 0))).Crew handlers :=
    hp.crew.setCall hcall (by simp)
  exact { hp with
    crew := { hcrew with }
    calls := ⟨rfl, rfl, hminds.set_self hcall rfl, getElem?_of_set_calls hcall rfl, rfl, rfl⟩
    traffic := hp.traffic.of_le (fun _ => le_rfl) rfl hp.traffic.mem_jobs
      fun job _ => by simp [Phase.berth, Finishing.berth]
    stations := fun h s hs =>
      (hp.stations h s hs).berth_congr (by simp [Phase.berth, Finishing.berth]) }

theorem refuse {store : F.Store} {rules : Rules} {block : Block}
    (hp : p.During calm handlers past work .started)
    (hcall : p.calls[c]? = some (.start store rules block .acquire))
    (hstep : p.stepStart? c store rules block .acquire = some q) :
    q.During calm handlers past work .started ∧ q.calls[c]? =
      some (.returned (.started (.error (.error (.blockInProgress work.block.number))))) := by
  have hwaits : p.Waits (some (work.active past.length)) := hp.calls
  simp only [Pipeline.stepStart?, hwaits.unlocked, hwaits.active_eq] at hstep
  cases hstep
  exact ⟨{ hp with
    crew := hp.crew.setCall hcall (by simp)
    calls := hwaits.set_settled hcall rfl rfl rfl rfl
    traffic := hp.traffic.of_load_eq fun _ => rfl }, getElem?_of_set_calls hcall rfl⟩

end During

theorem Between.take (hp : p.Between calm handlers past)
    (hcall : p.calls[c]? = some (.finish store block receipts .take))
    (hstep : p.stepFinish? c store block receipts .take = some q) :
    q.Between calm handlers past := by
  rcases hp.calls with hwaits | ⟨d, other, next, henters⟩
  · simp only [Pipeline.stepFinish?, hwaits.unlocked, hwaits.active_eq] at hstep
    cases hstep
    have hcrew : (p.setCall c (.returned (.finished none store))).Crew handlers :=
      hp.crew.setCall hcall (by simp)
    exact { hp with
      crew := { hcrew with }
      calls := .inl (hwaits.set_settled hcall rfl rfl rfl rfl) }
  · simp [Pipeline.stepFinish?, henters.locked] at hstep

end Pipeline

end TxPipeline
