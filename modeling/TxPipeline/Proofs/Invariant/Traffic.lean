import TxPipeline.Proofs.Invariant.Basic

/-!
# Where jobs are

A job is dispatched only when every station is open and every worker holds a copy of the store. As
long as it is on its way, its station serves the block.
-/

namespace TxPipeline

variable {F : Flow} {calm : Prop} {handlers : List (Handler F)} {past : List (Work F)}
  {work : Work F} {phase phase' : Phase F} {p q : Pipeline F} {c : Checkpoint} {job : Job}

namespace Phase

theorem outstanding_eq (phase : Phase F) (hload : ∀ c, q.load c = p.load c) :
    phase.outstanding q = phase.outstanding p := by
  funext c
  rw [outstanding, outstanding, hload]

theorem mem_due_settled (hj : job ∈ phase.due c) : job ∈ phase.due .settled := by
  have howed {declined jobs : List Job} (hj : job ∈ c.owed declined jobs) :
      job ∈ Checkpoint.owed .settled declined jobs := by
    unfold Checkpoint.owed at hj
    split at hj
    · exact hj
    · exact Multiset.mem_add.mpr (.inr hj)
  cases phase with
  | started => exact hj
  | finishing c₀ origin store block receipts next => exact hj
  | abandoned joined concluded => exact hj
  | starting c₀ next =>
      cases next with
      | settling plan first rest =>
          simp only [due, Starting.due, if_true] at hj ⊢
          split at hj
          · exact howed hj
          · have hrest := howed hj
            simp only [Checkpoint.owed, or_true, if_true, Multiset.mem_add, Multiset.mem_coe,
              List.mem_cons] at hrest ⊢
            exact hrest.imp_left .inr
      | opening plan k => exact howed hj
      | distributing plan next => exact howed hj
      | preparing plan => exact howed hj
      | declining plan rest => exact howed hj
      | _ => exact hj

theorem berth_ne_unopened (hphase : ∀ d next, phase ≠ .starting d next) (n h : Nat) :
    phase.berth n h ≠ .unopened := by
  cases phase with
  | starting d next => exact absurd rfl (hphase d next)
  | started => simp [berth]
  | abandoned joined concluded => simp [berth]
  | finishing d origin store block receipts next =>
      cases next <;> simp only [berth, Finishing.berth, ne_eq, reduceCtorEq, not_false_eq_true] <;>
        split <;> simp

theorem outstanding_eq_cons (hload : p.load c = job ::ₘ q.load c) :
    phase.outstanding p c = job ::ₘ phase.outstanding q c := by
  rw [outstanding, outstanding, hload, Multiset.add_cons]

/-- A job that passes a checkpoint is not outstanding there any more; all others still are. -/
theorem outstanding_of_passed (hload : q.load c = p.load c ∨ p.load c = job ::ₘ q.load c) :
    phase.outstanding p c = phase.outstanding q c ∨
      phase.outstanding p c = job ::ₘ phase.outstanding q c := by
  refine hload.imp (fun hload => ?_) outstanding_eq_cons
  rw [outstanding, outstanding, hload]

theorem Distributes.distributing_or_rests
    {relay : Snapshot.Relay F.Store} (hd : phase.Distributes work relay) :
    (∃ c plan next, phase = .starting c (.distributing plan next)) ∨
      ∃ copy, relay.Rests copy := by
  unfold Phase.Distributes at hd
  split at hd
  · exact .inr hd
  · exact .inl ⟨_, _, _, rfl⟩
  · exact .inr ⟨_, hd⟩

end Phase

/-- Fewer jobs are outstanding, and for none of those that are still to be written has what is
written been read. -/
theorem Traffic.mono (ht : Traffic handlers work phase p)
    (hle : ∀ c, phase'.outstanding q c ≤ phase.outstanding p c)
    (hsupplied : ∀ job ∈ phase'.outstanding q .deposited, job ∈ phase.outstanding p .supplied →
      job ∈ phase'.outstanding q .supplied)
    (hload : ∀ c, ∀ job ∈ q.load c, job ∈ work.jobs handlers)
    (hclosed : ∀ job ∈ phase'.outstanding q .settled,
      phase'.berth work.block.length job.handler ≠ .closed) :
    Traffic handlers work phase' q where
  nodup_deposited := Multiset.nodup_of_le (hle _) ht.nodup_deposited
  nodup_settled := Multiset.nodup_of_le (hle _) ht.nodup_settled
  mem_jobs := hload
  supplied := fun job hj => hsupplied job hj (ht.supplied job (Multiset.mem_of_le (hle _) hj))
  not_closed := hclosed

theorem Traffic.of_load_eq (ht : Traffic handlers work phase p)
    (hload : ∀ c, q.load c = p.load c) : Traffic handlers work phase q := by
  have hout := Phase.outstanding_eq phase hload
  refine ⟨?_, ?_, fun c job hj => ht.mem_jobs c job ?_, ?_, ?_⟩
  · rw [hout]
    exact ht.nodup_deposited
  · rw [hout]
    exact ht.nodup_settled
  · rwa [← hload]
  · rw [hout]
    exact ht.supplied
  · rw [hout]
    exact ht.not_closed

theorem Pipeline.Waits.congr {active : Option ActiveBlock} (hp : p.Waits active)
    (hcalls : q.calls = p.calls) (hlocked : q.locked = p.locked) (hactive : q.active = p.active) :
    q.Waits active where
  unlocked := hlocked.trans hp.unlocked
  active_eq := hactive.trans hp.active_eq
  waits := by
    obtain ⟨c, hminds, hwaits⟩ := hp.waits
    exact ⟨c, by rwa [Pipeline.Minds, hcalls], by rwa [hcalls]⟩

theorem Pipeline.Enters.congr {c : Nat} {next : Starting} (hp : p.Enters c work next)
    (hcalls : q.calls = p.calls) (hlocked : q.locked = p.locked) (hactive : q.active = p.active)
    (hsenders : q.poolSenders = p.poolSenders) : q.Enters c work next where
  locked := hlocked.trans hp.locked
  active_eq := hactive.trans hp.active_eq
  minds := by
    have hminds := hp.minds
    rwa [Pipeline.Minds, hcalls]
  call := by
    rw [hcalls]
    exact hp.call
  length_le := hp.length_le
  next_eq := by
    rw [hsenders]
    exact hp.next_eq

theorem Pipeline.Attends.congr {lane : Nat} (hp : p.Attends handlers work lane phase)
    (hcalls : q.calls = p.calls) (hlocked : q.locked = p.locked) (hactive : q.active = p.active)
    (hsenders : q.poolSenders = p.poolSenders) : q.Attends handlers work lane phase := by
  cases phase with
  | started => exact Pipeline.Waits.congr hp hcalls hlocked hactive
  | abandoned joined concluded => exact Pipeline.Waits.congr hp hcalls hlocked hactive
  | starting c next =>
      simpa only [Pipeline.Attends, Pipeline.Minds, hcalls, hlocked, hactive, hsenders] using hp
  | finishing c origin store block receipts next =>
      simpa only [Pipeline.Attends, Pipeline.Minds, hcalls, hlocked, hactive] using hp

/-- What a call has not dispatched yet is still due at every checkpoint. -/
theorem Starting.Valid.mem_due {next : Starting} {lane : Nat} (hv : next.Valid handlers work lane)
    (hnext : ∀ plan, next ≠ .activating plan) (hj : job ∈ work.jobs handlers) :
    job ∈ next.due c := by
  have howed (declined : List Job) : job ∈ c.owed declined (work.jobs handlers) := by
    unfold Checkpoint.owed
    split
    · exact Multiset.mem_add.mpr (.inr (Multiset.mem_coe.mpr hj))
    · exact Multiset.mem_coe.mpr hj
  cases next with
  | acquire => exact hv.elim
  | enter => exact hv.elim
  | scan => exact hv.elim
  | opening plan k =>
      obtain rfl : plan = _ := hv
      exact howed _
  | distributing plan next =>
      obtain rfl : plan = _ := hv
      exact howed _
  | preparing plan =>
      obtain rfl : plan = _ := hv
      exact howed _
  | declining plan rest =>
      obtain ⟨rfl, -⟩ := hv
      exact howed _
  | settling plan first rest =>
      obtain ⟨rfl, -⟩ := hv
      simp only [Starting.due]
      split <;> exact howed _
  | dispatching plan =>
      obtain rfl : plan = _ := hv
      exact Multiset.mem_coe.mpr hj
  | activating plan => exact absurd rfl (hnext plan)

namespace Traffic

variable (ht : Traffic handlers work phase p)

include ht

theorem not_mem_load (hdue : ∀ c, job ∈ phase.due c) : job ∉ p.load c := by
  intro hj
  cases hstage : c.stage with
  | prefetch =>
      have hnodup := Multiset.nodup_add.mp ht.nodup_deposited
      exact Multiset.disjoint_left.mp hnodup.2.2 (hdue _) (Pipeline.mem_load_deposited hstage hj)
  | process =>
      have hnodup := Multiset.nodup_add.mp ht.nodup_settled
      exact Multiset.disjoint_left.mp hnodup.2.2 (hdue _) (Pipeline.mem_load_settled hstage hj)

theorem load_eq_zero {c₀ lane : Nat} {next : Starting} (hphase : phase = .starting c₀ next)
    (hv : next.Valid handlers work lane) (hnext : ∀ plan, next ≠ .activating plan) :
    p.load c = 0 := by
  refine Multiset.eq_zero_of_forall_notMem fun job hj => ht.not_mem_load ?_ hj
  intro _
  rw [hphase]
  exact hv.mem_due hnext (ht.mem_jobs c job hj)

/-- A job that is outstanding at any checkpoint is outstanding at the last one. -/
theorem mem_settled (hj : job ∈ phase.outstanding p c) : job ∈ phase.outstanding p .settled := by
  rcases Multiset.mem_add.mp hj with hj | hj
  · exact Multiset.mem_add.mpr (.inl (Phase.mem_due_settled hj))
  cases hstage : c.stage with
  | process => exact Multiset.mem_add.mpr (.inr (Pipeline.mem_load_settled hstage hj))
  | prefetch =>
      have hdeposited := Pipeline.mem_load_deposited hstage hj
      have hsupplied := ht.supplied job (Multiset.mem_add.mpr (.inr hdeposited))
      rcases Multiset.mem_add.mp hsupplied with hj | hj
      · exact Multiset.mem_add.mpr (.inl (Phase.mem_due_settled hj))
      · exact Multiset.mem_add.mpr (.inr (Pipeline.mem_load_settled rfl hj))

end Traffic

theorem Pipeline.Crew.getElem?_handlers (hc : p.Crew handlers) (h : Nat) :
    handlers[h]? = (p.stations[h]?).map (·.handler) := by
  rw [← hc.handlers_eq, List.getElem?_map]

theorem Pipeline.Crew.lt_of_station (hc : p.Crew handlers) {h : Nat} {s : Station F}
    (hs : p.stations[h]? = some s) : h < handlers.length := by
  have hget := hc.getElem?_handlers h
  rw [hs, Option.map_some] at hget
  exact (List.getElem?_eq_some_iff.mp hget).1

theorem Pipeline.Crew.length_le (hc : p.Crew handlers) {h : Nat} (hs : p.stations[h]? = none) :
    handlers.length ≤ h := by
  have hget := hc.getElem?_handlers h
  rwa [hs, Option.map_none, List.getElem?_eq_none_iff] at hget

namespace Pipeline.During

variable (hp : p.During calm handlers past work phase)

include hp

theorem dispatched (hj : job ∈ p.load c) :
    (∃ c₀ plan, phase = .starting c₀ (.activating plan)) ∨ ∀ d next, phase ≠ .starting d next := by
  cases hphase : phase with
  | started => exact .inr (by simp)
  | finishing c₀ origin store block receipts next => exact .inr (by simp)
  | abandoned joined concluded => exact .inr (by simp)
  | starting c₀ next =>
      left
      have hcalls := hp.calls
      rw [hphase] at hcalls
      by_cases hnext : ∀ plan, next ≠ .activating plan
      · rw [hp.traffic.load_eq_zero hphase hcalls.2.2.2.2.2 hnext] at hj
        exact absurd hj (Multiset.notMem_zero _)
      · push Not at hnext
        obtain ⟨plan, rfl⟩ := hnext
        exact ⟨c₀, plan, rfl⟩

theorem rests_of_dispatched (hphase : ∀ d next, phase ≠ .starting d next) :
    p.relay.Rests (some work.store) := by
  have hrelay := hp.relay
  cases phase with
  | starting d next => exact absurd rfl (hphase d next)
  | started => exact hrelay
  | finishing c₀ origin store block receipts next => exact hrelay
  | abandoned joined concluded => exact hrelay

theorem rests (hj : job ∈ p.load c) : p.relay.Rests (some work.store) := by
  rcases hp.dispatched hj with ⟨c₀, plan, rfl⟩ | hphase
  · exact hp.relay
  · exact hp.rests_of_dispatched hphase

theorem exists_station {h : Nat} (hh : h < handlers.length) :
    ∃ s, p.stations[h]? = some s ∧ handlers[h]? = some s.handler := by
  have hget := hp.crew.getElem?_handlers h
  cases hs : p.stations[h]? with
  | none =>
      rw [hs, Option.map_none, List.getElem?_eq_none_iff] at hget
      omega
  | some s => exact ⟨s, rfl, by rw [hget, hs, Option.map_some]⟩

theorem serving (hj : job ∈ p.load c) : ∃ s progress, p.stations[job.handler]? = some s ∧
    handlers[job.handler]? = some s.handler ∧
    phase.berth work.block.length job.handler = .serving progress ∧
    s.Fits calm handlers past work job.handler (phase.outstanding p) (.serving progress) := by
  obtain ⟨s, hs, hhandler⟩ :=
    hp.exists_station (Work.lt_of_mem_jobs hp.accepted (hp.traffic.mem_jobs c job hj))
  have hfits := hp.stations _ _ hs
  have hsettled := hp.traffic.mem_settled (Multiset.mem_add.mpr (.inr hj))
  have hclosed := hp.traffic.not_closed _ hsettled
  have hopen : phase.berth work.block.length job.handler ≠ .unopened := by
    rcases hp.dispatched hj with ⟨c₀, plan, rfl⟩ | hphase
    · simp [Phase.berth, Starting.berth]
    · exact Phase.berth_ne_unopened hphase _ _
  cases hberth : phase.berth work.block.length job.handler with
  | unopened => exact absurd hberth hopen
  | closed => exact absurd hberth hclosed
  | serving progress =>
      rw [hberth] at hfits
      exact ⟨s, progress, hs, hhandler, rfl, hfits⟩

end Pipeline.During

end TxPipeline
