import TxPipeline.Proofs.Invariant.Calls

/-!
# Starting a block keeps the invariant

A call that has scanned its block opens every station, distributes the store, and dispatches the
jobs when every declined transaction has its result. Nothing on this way can fail.
-/

namespace TxPipeline

variable {F : Flow} {calm : Prop} {handlers : List (Handler F)} {past : List (Work F)}
  {work : Work F} {phase phase' : Phase F} {p q : Pipeline F} {c lane : Nat}
  {next next' : Starting} {plan : Plan}

theorem Starting.berth_ne_closed (h : Nat) (next : Starting) : next.berth h ≠ .closed := by
  cases next with
  | opening plan k =>
      simp only [Starting.berth]
      split <;> simp
  | _ => simp [Starting.berth]

theorem Traffic.of_le (ht : Traffic handlers work phase p)
    (hle : ∀ c, phase'.outstanding q c ≤ phase.outstanding p c)
    (hsupplied : phase'.outstanding q .supplied = phase.outstanding p .supplied)
    (hload : ∀ c, ∀ job ∈ q.load c, job ∈ work.jobs handlers)
    (hclosed : ∀ job ∈ phase'.outstanding q .settled,
      phase'.berth work.block.length job.handler ≠ .closed) :
    Traffic handlers work phase' q :=
  ht.mono hle (fun _ _ hj => hsupplied ▸ hj) hload hclosed

namespace Pipeline

theorem Attends.next_start (hp : p.Attends handlers work lane (.starting c next))
    (hv : next'.Valid handlers work lane)
    (hq : q.calls = p.calls.set c (.start work.store work.rules work.block next'))
    (hlocked : q.locked = p.locked) (hactive : q.active = p.active)
    (hsenders : q.poolSenders = p.poolSenders) :
    q.Attends handlers work lane (.starting c next') := by
  obtain ⟨hl, ha, hminds, hc, hs, -⟩ := hp
  exact ⟨hlocked.trans hl, hactive.trans ha, hminds.set_self hc hq, getElem?_of_set_calls hc hq,
    hsenders.trans hs, hv⟩

namespace During

section Starting

variable (hp : p.During calm handlers past work (.starting c next))

include hp

theorem call_eq : p.calls[c]? = some (.start work.store work.rules work.block next) :=
  hp.calls.2.2.2.1

theorem call_minds : p.Minds c := hp.calls.2.2.1

theorem valid : next.Valid handlers work past.length := hp.calls.2.2.2.2.2

theorem load_eq_zero (hnext : ∀ plan, next ≠ .activating plan) (c' : Checkpoint) :
    p.load c' = 0 :=
  hp.traffic.load_eq_zero rfl hp.valid hnext

/-- The call goes on, the jobs stay where they are, and the same are due. -/
theorem next_traffic (hload : ∀ c, q.load c = p.load c) (hdue : ∀ c, next'.due c = next.due c) :
    Traffic handlers work (.starting c next') q := by
  have hout (c' : Checkpoint) : (Phase.starting c next' : Phase F).outstanding q c' =
      (Phase.starting c next : Phase F).outstanding p c' := by
    simp only [Phase.outstanding, Phase.due, hload, hdue]
  refine hp.traffic.of_le (fun c' => (hout c').le) (hout _) ?_
    fun job _ => Starting.berth_ne_closed _ _
  intro c' job hj
  exact hp.traffic.mem_jobs c' job (hload c' ▸ hj)

end Starting

theorem openStation {k : Nat} {s : Station F}
    (hp : p.During calm handlers past work (.starting c (.opening plan k)))
    (hs : p.stations[k]? = some s) :
    ((p.setStation k (s.openBlock work.block.length)).setCall c
      (.start work.store work.rules work.block (.opening plan (k + 1)))).During calm handlers past
        work (.starting c (.opening plan (k + 1))) := by
  obtain rfl : plan = work.plan handlers past.length := hp.valid
  have hk := hp.crew.lt_of_station hs
  have hzero := hp.load_eq_zero (fun plan => by simp)
  have hout (c' : Checkpoint) : (Phase.starting c
      (.opening (work.plan handlers past.length) k) : Phase F).outstanding p c' =
        c'.owed (work.declined handlers) (work.jobs handlers) := by
    rw [Phase.outstanding, hzero, add_zero]
    rfl
  have hsplit := Work.filter_declined_add_jobs hp.accepted hp.length_le hk
  have hfits := hp.stations k s hs
  simp only [Phase.berth, Starting.berth, Nat.lt_irrefl, if_false] at hfits
  have hcrew : (p.setStation k (s.openBlock work.block.length)).Crew handlers :=
    hp.crew.setStation hs rfl
  refine { hp with
    crew := hcrew.setCall hp.call_eq (by simp)
    calls := hp.calls.next_start rfl rfl rfl rfl rfl
    traffic := hp.next_traffic (fun _ => rfl) fun _ => rfl
    stations := ?_ }
  intro h other hother
  have hget : (p.setStation k (s.openBlock work.block.length)).stations[h]? = some other := hother
  rw [getElem?_setStation hs] at hget
  split at hget
  · rename_i heq
    cases hget
    rw [heq]
    have hopen := hfits.openBlock ?_ ?_ ?_
    · exact hopen.berth_congr (by simp [Phase.berth, Starting.berth])
    · rw [hout]
      exact hsplit
    · intro tx ht
      rw [hout]
      have hmem : Job.mk k tx ∈ ((work.block.indexed.map (Job.mk k) : List Job) : Multiset Job) :=
        Multiset.mem_coe.mpr (List.mem_map_of_mem ht)
      rw [← hsplit] at hmem
      exact (Multiset.mem_filter.mp hmem).1
    · intro c' job hj
      exact Multiset.mem_add.mpr (.inl (hp.valid.mem_due (fun plan => by simp) hj))
  · rename_i hne
    have hiff : h < k ↔ h < k + 1 := by omega
    exact (hp.stations h other hget).berth_congr (by simp only [Phase.berth, Starting.berth, hiff])

theorem beginDistribution {k : Nat}
    (hp : p.During calm handlers past work (.starting c (.opening plan k)))
    (hs : p.stations[k]? = none) :
    (p.setCall c (.start work.store work.rules work.block
      (.distributing plan .publish))).During calm handlers past work
        (.starting c (.distributing plan .publish)) :=
  { hp with
    crew := hp.crew.setCall hp.call_eq (by simp)
    calls := hp.calls.next_start hp.valid rfl rfl rfl rfl
    traffic := hp.next_traffic (fun _ => rfl) fun _ => rfl
    stations := fun h other hother => by
      have hlt : h < k := by
        have hh := (List.getElem?_eq_some_iff.mp (show p.stations[h]? = some other from hother)).1
        rw [List.getElem?_eq_none_iff] at hs
        omega
      exact (hp.stations h other hother).berth_congr
        (by simp [Phase.berth, Starting.berth, hlt]) }

theorem distribute {d rest : Snapshot.Distribution} {relay : Snapshot.Relay F.Store}
    (hp : p.During calm handlers past work (.starting c (.distributing plan d)))
    (hstep : p.relay.distribute? work.store d = some (relay, some rest)) (copies : Nat) :
    (({ p with relay := relay, copies := copies } : Pipeline F).setCall c
      (.start work.store work.rules work.block (.distributing plan rest))).During calm handlers past
        work (.starting c (.distributing plan rest)) := by
  obtain ⟨hreceivers, hworkers, hnext⟩ :=
    Snapshot.Relay.Distributes.distribute? hp.crew.reports.symm hp.relay hstep
  exact { hp with
    crew := { hp.crew.setCall hp.call_eq (by simp) with
      receivers := (congrArg List.length hreceivers).trans hp.crew.receivers
      reports := hworkers.trans (hp.crew.reports.trans (congrArg List.length hreceivers).symm) }
    calls := hp.calls.next_start hp.valid rfl rfl rfl rfl
    relay := hnext
    traffic := hp.next_traffic (fun _ => rfl) fun _ => rfl }

theorem endDistribution {d : Snapshot.Distribution} {relay : Snapshot.Relay F.Store}
    (hp : p.During calm handlers past work (.starting c (.distributing plan d)))
    (hstep : p.relay.distribute? work.store d = some (relay, none)) (event : Event) :
    ((({ p with relay := relay } : Pipeline F).note event).setCall c
      (.start work.store work.rules work.block (.preparing plan))).During calm handlers past work
        (.starting c (.preparing plan)) := by
  obtain ⟨hreceivers, hworkers, hnext⟩ :=
    Snapshot.Relay.Distributes.distribute? hp.crew.reports.symm hp.relay hstep
  exact { hp with
    crew := { hp.crew.setCall hp.call_eq (by simp) with
      receivers := (congrArg List.length hreceivers).trans hp.crew.receivers
      reports := hworkers.trans (hp.crew.reports.trans (congrArg List.length hreceivers).symm) }
    calls := hp.calls.next_start hp.valid rfl rfl rfl rfl
    relay := hnext
    traffic := hp.next_traffic (fun _ => rfl) fun _ => rfl }

theorem map_handler_map (f : Station F → Station F) (hf : ∀ s, (f s).handler = s.handler)
    (stations : List (Station F)) :
    (stations.map f).map (·.handler) = stations.map (·.handler) := by
  rw [List.map_map]
  exact List.map_congr_left fun s _ => hf s

theorem prepare (hp : p.During calm handlers past work (.starting c (.preparing plan))) :
    ((p.prepareAll plan.lane work.store work.rules work.block).setCall c
      (.start work.store work.rules work.block (.declining plan plan.declined))).During calm
        handlers past work (.starting c (.declining plan plan.declined)) := by
  obtain rfl : plan = work.plan handlers past.length := hp.valid
  exact { hp with
    crew := { hp.crew.setCall hp.call_eq (by simp) with
      handlers_eq := (map_handler_map (fun s => s.prepare _ _ _ _) (fun _ => rfl) _).trans
        hp.crew.handlers_eq }
    calls := hp.calls.next_start ⟨rfl, List.suffix_rfl⟩ rfl rfl rfl rfl
    traffic := hp.next_traffic (fun _ => rfl) fun _ => rfl
    stations := fun h other hother => by
      rw [show ((p.prepareAll (work.plan handlers past.length).lane work.store work.rules
        work.block).setCall c _).stations = p.stations.map _ from rfl, List.getElem?_map] at hother
      obtain ⟨s, hs, rfl⟩ := Option.map_eq_some_iff.mp hother
      exact (hp.stations h s hs).prepare rfl }

theorem endDeclines (hp : p.During calm handlers past work (.starting c (.declining plan []))) :
    (p.setCall c (.start work.store work.rules work.block (.dispatching plan))).During calm
      handlers past work (.starting c (.dispatching plan)) := by
  have hdue (c' : Checkpoint) :
      (Starting.dispatching plan).due c' = (Starting.declining plan []).due c' := by
    cases c' <;> simp [Starting.due, Checkpoint.owed]
  exact { hp with
    crew := hp.crew.setCall hp.call_eq (by simp)
    calls := hp.calls.next_start hp.valid.1 rfl rfl rfl rfl
    traffic := hp.next_traffic (fun _ => rfl) hdue
    stations := fun h other hother => by
      have hout : (Phase.starting c (.dispatching plan) : Phase F).outstanding p =
          (Phase.starting c (.declining plan []) : Phase F).outstanding p := by
        funext c'
        simp only [Phase.outstanding, Phase.due, hdue]
      change Station.Fits _ _ _ _ _ ((Phase.starting c (.dispatching plan)).outstanding p) _ _
      rw [hout]
      exact hp.stations h other hother }

theorem passDecline {c₀ : Checkpoint} {job : Job} {s s' : Station F}
    (hp : p.During calm handlers past work (.starting c next))
    (hs : p.stations[job.handler]? = some s) (hhandler : s'.handler = s.handler)
    (hv : next'.Valid handlers work past.length) (hberth : ∀ h, next.berth h = next'.berth h)
    (hrelay : (Phase.starting c next' : Phase F).Distributes work p.relay)
    (hc₀ : c₀ ≠ .supplied) (hnow : next.due c₀ = job ::ₘ next'.due c₀)
    (hother : ∀ c', c' ≠ c₀ → next'.due c' = next.due c')
    (hfits : s'.Fits calm handlers past work job.handler
      ((Phase.starting c next' : Phase F).outstanding p) (next.berth job.handler)) :
    ((p.setStation job.handler s').setCall c
      (.start work.store work.rules work.block next')).During calm handlers past work
        (.starting c next') := by
  have hcrew : (p.setStation job.handler s').Crew handlers := hp.crew.setStation hs hhandler
  have hout (c' : Checkpoint) : (Phase.starting c next : Phase F).outstanding p c' =
      (Phase.starting c next' : Phase F).outstanding p c' ∨
      (Phase.starting c next : Phase F).outstanding p c' =
        job ::ₘ (Phase.starting c next' : Phase F).outstanding p c' := by
    by_cases hc : c' = c₀
    · right
      simp only [Phase.outstanding, Phase.due, hc, hnow, Multiset.cons_add]
    · left
      simp only [Phase.outstanding, Phase.due, hother c' hc]
  have hsupplied : (Phase.starting c next' : Phase F).outstanding p .supplied =
      (Phase.starting c next : Phase F).outstanding p .supplied := by
    simp only [Phase.outstanding, Phase.due, hother .supplied (Ne.symm hc₀)]
  exact { hp with
    crew := hcrew.setCall hp.call_eq (by simp)
    calls := hp.calls.next_start hv rfl rfl rfl rfl
    relay := hrelay
    traffic := hp.traffic.of_le
      (fun c' => (hout c').elim (fun h => h.ge) fun h => (Multiset.le_cons_self _ job).trans h.ge)
      hsupplied hp.traffic.mem_jobs fun other _ => Starting.berth_ne_closed other.handler next'
    stations := fun h other hother => by
      have hget : (p.setStation job.handler s').stations[h]? = some other := hother
      rw [getElem?_setStation hs] at hget
      split at hget
      · rename_i heq
        cases hget
        rw [heq]
        exact hfits.berth_congr (hberth _)
      · rename_i hne
        exact ((hp.stations h other hget).congr
          (agree_of_cons (Ne.symm hne) hout)).berth_congr (hberth h) }

theorem announceDecline {job : Job} {rest : List Job} {s : Station F}
    (hp : p.During calm handlers past work (.starting c (.declining plan (job :: rest))))
    (hs : p.stations[job.handler]? = some s) :
    ∃ s', s.announce (.declined job.tx) = .ok s' ∧
      ((p.setStation job.handler s').setCall c
        (.start work.store work.rules work.block (.settling plan job rest))).During calm handlers
          past work (.starting c (.settling plan job rest)) := by
  obtain ⟨rfl, hsuffix⟩ := hp.valid
  have hjob : job ∈ work.declined handlers := hsuffix.mem List.mem_cons_self
  have hnow : (Starting.declining (work.plan handlers past.length) (job :: rest)).due .announced =
      job ::ₘ (Starting.settling (work.plan handlers past.length) job rest).due .announced := by
    simp only [Starting.due, Checkpoint.owed, reduceCtorEq, if_false, true_or, if_true,
      ← Multiset.cons_coe, Multiset.cons_add]
  have hother (c' : Checkpoint) (hc : c' ≠ .announced) :
      (Starting.settling (work.plan handlers past.length) job rest).due c' =
        (Starting.declining (work.plan handlers past.length) (job :: rest)).due c' := by
    cases c' <;> simp_all [Starting.due, Checkpoint.owed]
  have hout : (Phase.starting c (.declining (work.plan handlers past.length) (job :: rest)) :
      Phase F).outstanding p .announced = job ::ₘ (Phase.starting c
        (.settling (work.plan handlers past.length) job rest) :
          Phase F).outstanding p .announced := by
    simp only [Phase.outstanding, Phase.due, hnow, Multiset.cons_add]
  obtain ⟨s', hannounce, hhandler, hfits⟩ := (hp.stations _ s hs).announce
    ((Phase.starting c (.settling (work.plan handlers past.length) job rest) :
      Phase F).outstanding p) hp.length_le hout
    fun c' hc => by simp only [Phase.outstanding, Phase.due, hother c' hc]
  rw [Work.resultOf_of_declined hjob] at hannounce
  exact ⟨s', hannounce, hp.passDecline hs hhandler ⟨rfl, hsuffix⟩ (fun _ => rfl) hp.relay (by simp)
    hnow hother hfits⟩

theorem settleDecline {job : Job} {rest : List Job} {s : Station F}
    (hp : p.During calm handlers past work (.starting c (.settling plan job rest)))
    (hs : p.stations[job.handler]? = some s) :
    ∃ s', s.settle (.declined job.tx) = .ok s' ∧
      ((p.setStation job.handler s').setCall c
        (.start work.store work.rules work.block (.declining plan rest))).During calm handlers past
          work (.starting c (.declining plan rest)) := by
  obtain ⟨rfl, hsuffix⟩ := hp.valid
  have hjob : job ∈ work.declined handlers := hsuffix.mem List.mem_cons_self
  have hnow : (Starting.settling (work.plan handlers past.length) job rest).due .settled =
      job ::ₘ (Starting.declining (work.plan handlers past.length) rest).due .settled := by
    simp only [Starting.due, Checkpoint.owed, or_true, if_true, ← Multiset.cons_coe,
      Multiset.cons_add]
  have hother (c' : Checkpoint) (hc : c' ≠ .settled) :
      (Starting.declining (work.plan handlers past.length) rest).due c' =
        (Starting.settling (work.plan handlers past.length) job rest).due c' := by
    cases c' <;> simp_all [Starting.due, Checkpoint.owed]
  have hout : (Phase.starting c (.settling (work.plan handlers past.length) job rest) :
      Phase F).outstanding p .settled = job ::ₘ (Phase.starting c
        (.declining (work.plan handlers past.length) rest) : Phase F).outstanding p .settled := by
    simp only [Phase.outstanding, Phase.due, hnow, Multiset.cons_add]
  obtain ⟨s', hsettle, hhandler, hfits⟩ := (hp.stations _ s hs).settle
    ((Phase.starting c (.declining (work.plan handlers past.length) rest) :
      Phase F).outstanding p) hp.length_le (Work.mem_declined.mp hjob).1 hout
    hp.traffic.nodup_settled
    fun c' hc => by simp only [Phase.outstanding, Phase.due, hother c' hc]
  rw [Work.resultOf_of_declined hjob] at hsettle
  exact ⟨s', hsettle, hp.passDecline hs hhandler ⟨rfl, (List.suffix_cons _ _).trans hsuffix⟩
    (fun _ => rfl) hp.relay (by simp) hnow hother hfits⟩

/-- What was planned is given to the feeders of the lane, which have nothing yet. -/
theorem load_dispatchAll (hp : p.During calm handlers past work (.starting c (.dispatching plan)))
    (c' : Checkpoint) : (p.dispatchAll plan).load c' = plan.jobs + p.load c' := by
  obtain rfl : plan = work.plan handlers past.length := hp.valid
  have hzero := hp.load_eq_zero (fun plan => by simp)
  have hlane : past.length < p.feeders.length := by
    have hfeeders := hp.feeders
    omega
  have hempty (stage : Stage) : p.feeders[past.length].pending stage = [] := by
    obtain ⟨c', rfl⟩ := exists_checkpoint stage
    apply List.eq_nil_iff_forall_not_mem.mpr
    intro job hj
    have hmem : job ∈ p.load c' := mem_load_of_pending (List.getElem_mem hlane) hj
    rw [hzero] at hmem
    exact Multiset.notMem_zero _ hmem
  exact load_dispatch (List.getElem?_eq_getElem hlane) hempty _ c'

theorem dispatch (hp : p.During calm handlers past work (.starting c (.dispatching plan))) :
    ((p.dispatchAll plan).setCall c
      (.start work.store work.rules work.block (.activating plan))).During calm handlers past
        work (.starting c (.activating plan)) := by
  obtain rfl : plan = work.plan handlers past.length := hp.valid
  have hzero := hp.load_eq_zero (fun plan => by simp)
  have hload (c' : Checkpoint) : ((p.dispatchAll (work.plan handlers past.length)).setCall c
      (.start work.store work.rules work.block
        (.activating (work.plan handlers past.length)))).load c' = work.jobs handlers + p.load c' :=
    hp.load_dispatchAll c'
  have hout : (Phase.starting c (.activating (work.plan handlers past.length)) :
      Phase F).outstanding ((p.dispatchAll (work.plan handlers past.length)).setCall c
        (.start work.store work.rules work.block (.activating (work.plan handlers past.length)))) =
      (Phase.starting c (.dispatching (work.plan handlers past.length)) :
        Phase F).outstanding p := by
    funext c'
    rw [Phase.outstanding, Phase.outstanding, hload]
    exact zero_add _
  -- Nobody has left, because the pools have not been closed.
  have hexited (worker : Worker F) (hworker : worker ∈ p.workers) :
      worker.activity ≠ .exited := fun hexit => by
    have hsenders := (hp.crew.exited worker hworker hexit).1
    rw [hp.calls.2.2.2.2.1] at hsenders
    cases hsenders
  exact { hp with
    crew := { hp.crew.setCall hp.call_eq (by simp) with
      handlers_eq := (map_handler_map (fun s => s.aggregate _) (fun _ => rfl) _).trans
        hp.crew.handlers_eq
      exited := fun worker hworker hexit => absurd hexit (hexited worker hworker) }
    feeders := List.length_set.trans hp.feeders
    calls := hp.calls.next_start rfl rfl rfl rfl rfl
    traffic := hp.traffic.of_le (fun c' => (congrFun hout c').le) (congrFun hout _)
      (fun c' job hj => by
        rw [hload, hzero, add_zero] at hj
        exact Multiset.mem_coe.mp hj)
      fun other _ => Starting.berth_ne_closed other.handler
        (.activating (work.plan handlers past.length))
    stations := fun h other hother => by
      rw [show ((p.dispatchAll (work.plan handlers past.length)).setCall c _).stations =
        p.stations.map _ from rfl, List.getElem?_map] at hother
      obtain ⟨s, hs, rfl⟩ := Option.map_eq_some_iff.mp hother
      rw [hout]
      exact (hp.stations h s hs).aggregate rfl }

theorem activate (hp : p.During calm handlers past work (.starting c (.activating plan))) :
    ((p.activate work.block plan).endStart c (.ok ())).During calm handlers past work .started := by
  obtain rfl : plan = work.plan handlers past.length := hp.valid
  obtain ⟨hlocked, hactive, hminds, hcall, hsenders, -⟩ := hp.calls
  have hcrew : (p.setCall c (.returned (.started (.ok ())))).Crew handlers :=
    hp.crew.setCall hcall (by simp)
  exact { hp with
    crew := { hcrew with }
    calls := {
      unlocked := rfl
      active_eq := rfl
      waits := by
        refine ⟨c, hminds.set_self hcall rfl, ?_⟩
        intro call hc
        rw [getElem?_of_set_calls hcall rfl] at hc
        cases hc
        exact .settled rfl }
    traffic := hp.traffic.of_le (fun _ => le_rfl) rfl hp.traffic.mem_jobs
      fun _ _ => by simp [Phase.berth] }

/-- A call that starts the block goes on until the block is started. -/
theorem stepStart? (hp : p.During calm handlers past work (.starting c next))
    (hstep : p.stepStart? c work.store work.rules work.block next = some q) :
    (∃ next', q.During calm handlers past work (.starting c next')) ∨
      q.During calm handlers past work .started ∧
        q.calls[c]? = some (.returned (.started (.ok ()))) := by
  have hvalid := hp.valid
  have hdeclined {job : Job} {rest : List Job} (hsuffix : job :: rest <:+ work.declined handlers) :
      ∃ s, p.stations[job.handler]? = some s := by
    have hjob : job ∈ work.declined handlers := hsuffix.mem List.mem_cons_self
    obtain ⟨s, hs, -⟩ := hp.exists_station (Work.lt_of_mem_declined hp.accepted hjob)
    exact ⟨s, hs⟩
  cases startMove_of_stepStart? hstep with
  | refuse | acquire | enter | closed | scanFault | scanError | scan => exact hvalid.elim
  | openStation plan k s hs => exact .inl ⟨_, hp.openStation hs⟩
  | opened plan k hs => exact .inl ⟨_, hp.beginDistribution hs⟩
  | distribute plan d rest relay hd => exact .inl ⟨_, hp.distribute hd _⟩
  | distributed plan d relay hd => exact .inl ⟨_, hp.endDistribution hd _⟩
  | prepare plan => exact .inl ⟨_, hp.prepare⟩
  | declined plan => exact .inl ⟨_, hp.endDeclines⟩
  | skipAnnounce plan job rest hnone | skipSettle plan job rest hnone =>
      obtain ⟨s, hs⟩ := hdeclined hvalid.2
      rw [hnone] at hs
      cases hs
  | announceFault plan job rest s fault hs hfault =>
      obtain ⟨s', hannounce, -⟩ := hp.announceDecline hs
      rw [hfault] at hannounce
      cases hannounce
  | announce plan job rest s s' hs hs' =>
      obtain ⟨s'', hannounce, hnext⟩ := hp.announceDecline hs
      rw [hs'] at hannounce
      cases hannounce
      exact .inl ⟨_, hnext⟩
  | settleFault plan job rest s fault hs hfault =>
      obtain ⟨s', hsettle, -⟩ := hp.settleDecline hs
      rw [hfault] at hsettle
      cases hsettle
  | settle plan job rest s s' hs hs' =>
      obtain ⟨s'', hsettle, hnext⟩ := hp.settleDecline hs
      rw [hs'] at hsettle
      cases hsettle
      exact .inl ⟨_, hnext⟩
  | dispatch plan => exact .inl ⟨_, hp.dispatch⟩
  | activate plan => exact .inr ⟨hp.activate, getElem?_of_set_calls hp.call_eq rfl⟩

end During

/-! ## Looking for a block to start -/

namespace Between

variable {store : F.Store} {rules : Rules} {block : Block}

theorem acquire (hp : p.Between calm handlers past)
    (hcall : p.calls[c]? = some (.start store rules block .acquire))
    (hstep : p.stepStart? c store rules block .acquire = some q) :
    q.Between calm handlers past ∧
      q.calls[c]? = some (.start store rules block .enter) := by
  rcases hp.calls with hwaits | ⟨c', work, next, henters⟩
  · cases startMove_of_stepStart? hstep with
    | refuse active hunlocked hactive =>
        rw [hwaits.active_eq] at hactive
        cases hactive
    | acquire hunlocked hactive =>
        have hlen : block.length ≤ 2 ^ 32 := by
          cases hwaits.of_call hcall with
          | settled h => cases h
          | start _ _ _ hlen => exact hlen
        have hcrew : (p.setCall c (.start store rules block .enter)).Crew handlers :=
          hp.crew.setCall hcall (by simp)
        exact ⟨{ hp with
          crew := { hcrew with }
          calls := .inr ⟨c, ⟨store, rules, block⟩, .enter, {
            locked := rfl
            active_eq := hactive
            minds := (hwaits.minds hcall rfl).set_self hcall rfl
            call := getElem?_of_set_calls hcall rfl
            length_le := hlen
            next_eq := .inl rfl }⟩ }, getElem?_of_set_calls hcall rfl⟩
  · cases startMove_of_stepStart? hstep with
    | refuse active hunlocked _ | acquire hunlocked _ =>
        rw [henters.locked] at hunlocked
        cases hunlocked

theorem enters_of_call {next : Starting} (hp : p.Between calm handlers past)
    (hcall : p.calls[c]? = some (.start store rules block next)) (hnext : next ≠ .acquire) :
    p.Enters c ⟨store, rules, block⟩ next := by
  rcases hp.calls with hwaits | ⟨c', work, next', henters⟩
  · exact absurd (hwaits.eq_acquire hcall) hnext
  · obtain rfl := henters.minds.eq hcall rfl
    have hsame := henters.call
    rw [hcall] at hsame
    cases hsame
    exact henters

theorem refuse {work : Work F} {next : Starting} {failure : Failure}
    (hp : p.Between calm handlers past) (henters : p.Enters c work next) {ledger : Gas.Ledger}
    {log : List Event} (hledger : calm → ∀ hash, ledger.find? hash = none) :
    (({ p with ledger := ledger, log := log } : Pipeline F).endStart c (.error failure)).Between
      calm handlers past :=
  have hcrew : (p.setCall c (.returned (.started (.error failure)))).Crew handlers :=
    hp.crew.setCall henters.call (by simp)
  { hp with
    crew := { hcrew with }
    calls := .inl {
      unlocked := rfl
      active_eq := henters.active_eq
      waits := by
        refine ⟨c, henters.minds.set_self henters.call rfl, ?_⟩
        intro call hc
        rw [getElem?_of_set_calls henters.call rfl] at hc
        cases hc
        exact .settled rfl }
    ledger := hledger }

theorem enter (hp : p.Between calm handlers past)
    (hcall : p.calls[c]? = some (.start store rules block .enter))
    (hstep : p.stepStart? c store rules block .enter = some q) :
    q.Between calm handlers past ∧
      (q.calls[c]? = some (.start store rules block .scan) ∨
        q.calls[c]? = some (.returned (.started (.error (.error .closed))))) := by
  have henters := hp.enters_of_call hcall (by simp)
  cases startMove_of_stepStart? hstep with
  | enter hopen =>
      have hsenders : p.poolSenders = true := by
        by_contra hne
        rw [hp.crew.closed (by simpa using hne)] at hopen
        cases hopen
      exact ⟨{ hp with
        crew := hp.crew.setCall hcall (by simp)
        calls := .inr ⟨c, ⟨store, rules, block⟩, .scan, {
          locked := henters.locked
          active_eq := henters.active_eq
          minds := henters.minds.set_self hcall rfl
          call := getElem?_of_set_calls hcall rfl
          length_le := henters.length_le
          next_eq := .inr ⟨rfl, hsenders⟩ }⟩ }, .inl (getElem?_of_set_calls hcall rfl)⟩
  | closed => exact ⟨hp.refuse henters hp.ledger, .inr (getElem?_of_set_calls hcall rfl)⟩

omit store rules in
theorem take_scanned {before after : List IndexedTx} {tx : IndexedTx}
    (hlen : block.length ≤ 2 ^ 32) (hsplit : block.indexed = before ++ tx :: after) :
    block.hashes.take (tx.index + 1) = (before ++ [tx]).map (·.hash) := by
  have hindex : tx.index = before.length :=
    Block.index_of_getElem? hlen (by rw [hsplit]; simp)
  rw [Block.hashes_eq, ← List.map_take, hsplit, hindex, List.append_cons,
    List.take_left' (by simp)]

omit store rules in
/-- The hashes that a failed scan can have written are those that are cleared. -/
theorem find?_clear_scanned {ledger : Gas.Ledger} {before after : List IndexedTx} {tx : IndexedTx}
    (hlen : block.length ≤ 2 ^ 32) (hsplit : block.indexed = before ++ tx :: after)
    (hother : ∀ hash, hash ∉ (before ++ [tx]).map (·.hash) → ledger.find? hash = none)
    (hash : Word) :
    (ledger.clear (block.hashes.take (tx.index + 1))).find? hash = none := by
  rw [Gas.Ledger.find?_clear, take_scanned hlen hsplit]
  split
  · rfl
  · exact hother hash ‹_›

theorem begin (ledger : Gas.Ledger) (log : List Event) {work : Work F}
    (hp : p.Between calm handlers past) (henters : p.Enters c work .scan)
    (haccepted : work.Accepted handlers)
    (hledger : calm → ∀ hash, ledger.find? hash = work.charge handlers hash) :
    (({ p with ledger := ledger, log := log } : Pipeline F).addFeeders.setCall c
      (.start work.store work.rules work.block
        (.opening (work.plan handlers past.length) 0))).During calm handlers past work
          (.starting c (.opening (work.plan handlers past.length) 0)) := by
  have hcrew : (p.setCall c (.start work.store work.rules work.block
      (.opening (work.plan handlers past.length) 0))).Crew handlers :=
    hp.crew.setCall henters.call (by simp)
  have hload (c' : Checkpoint) : (({ p with ledger := ledger, log := log } :
      Pipeline F).addFeeders.setCall c (.start work.store work.rules work.block
        (.opening (work.plan handlers past.length) 0))).load c' = 0 :=
    (load_addFeeders p c').trans (hp.load c')
  have hsenders : p.poolSenders = true := by
    rcases henters.next_eq with h | h
    · cases h
    · exact h.2
  have hout (c' : Checkpoint) : (Phase.starting c (.opening (work.plan handlers past.length) 0) :
      Phase F).outstanding (({ p with ledger := ledger, log := log } :
        Pipeline F).addFeeders.setCall c (.start work.store work.rules work.block
          (.opening (work.plan handlers past.length) 0))) c' =
        c'.owed (work.declined handlers) (work.jobs handlers) := by
    rw [Phase.outstanding, hload, add_zero]
    rfl
  exact {
    length_le := henters.length_le
    accepted := haccepted
    crew := { hcrew with
      exited := fun worker hworker hexit => by
        have hs := (hp.crew.exited worker hworker hexit).1
        rw [hsenders] at hs
        cases hs }
    feeders := by
      change (p.feeders ++ [_]).length = _
      rw [List.length_append, hp.feeders, List.length_singleton]
    calls := ⟨henters.locked, henters.active_eq, henters.minds.set_self henters.call rfl,
      getElem?_of_set_calls henters.call rfl, hsenders, rfl⟩
    relay := hp.relay
    traffic := {
      nodup_deposited := by
        rw [hout]
        exact Work.nodup_jobs henters.length_le
      nodup_settled := by
        rw [hout]
        change ((work.declined handlers : Multiset Job) + work.jobs handlers).Nodup
        rw [Multiset.coe_add, Multiset.coe_nodup]
        exact (Work.nodup_declined henters.length_le).append (Work.nodup_jobs henters.length_le)
          Work.disjoint_declined_jobs
      mem_jobs := fun c' job hj => by
        rw [hload] at hj
        exact absurd hj (Multiset.notMem_zero _)
      supplied := fun job hj => by
        rw [hout] at hj ⊢
        exact hj
      not_closed := fun job _ => Starting.berth_ne_closed job.handler
        (.opening (work.plan handlers past.length) 0) }
    activities := fun worker hworker => by
      rcases hp.idle_or_exited hworker with h | h <;> rw [h] <;> trivial
    stations := fun h s hs => by
      have hberth : (Phase.starting c (.opening (work.plan handlers past.length) 0) :
          Phase F).berth work.block.length h = .unopened := by
        simp [Phase.berth, Starting.berth]
      rw [hberth]
      exact hp.stations h s hs
    ledger := hledger }

theorem scan (hp : p.Between calm handlers past)
    (hcall : p.calls[c]? = some (.start store rules block .scan))
    (hcalm : calm → p.raises (.caller c) = false)
    (hstep : p.stepStart? c store rules block .scan = some q) :
    (q.Between calm handlers past ∧
        ∃ failure, q.calls[c]? = some (.returned (.started (.error failure)))) ∨
      ∃ plan, q.During calm handlers past ⟨store, rules, block⟩
        (.starting c (.opening plan 0)) := by
  have henters := hp.enters_of_call hcall (by simp)
  -- a fault of `gas` is excluded, and an error clears what was scanned
  cases startMove_of_stepStart? hstep with
  | scanFault fault tx ledger log hscan =>
      refine .inl ⟨hp.refuse henters fun hc => ?_, _, getElem?_of_set_calls hcall rfl⟩
      have hraises := hcalm hc
      simp [raises, callRaises, hcall, hscan] at hraises
  | scanError error tx ledger log hscan =>
      refine .inl ⟨hp.refuse henters fun hc => ?_, _, getElem?_of_set_calls hcall rfl⟩
      obtain ⟨before, after, hsplit, -, -, hledger⟩ := scan_eq_error hp.crew.handlers_eq hscan
      exact find?_clear_scanned henters.length_le hsplit fun hash hnot =>
        (hledger hash hnot).trans (hp.ledger hc hash)
  | scan decisions ledger log hscan =>
      obtain ⟨haccepted, rfl, hledger⟩ := scan_eq_ok hp.crew.handlers_eq hscan
      have hbegin := hp.begin ledger log henters haccepted fun hc hash => by
        rw [hledger, hp.ledger hc, Option.or_none]
        rfl
      rw [← hp.feeders] at hbegin
      exact .inr ⟨_, hbegin⟩

/-- A call that is denied a thread takes back what its scan has reserved. -/
theorem deny? {reason : String} (hp : p.Between calm handlers past)
    (hdeny : p.deny? c reason = some q) : q.Between calm handlers past := by
  cases denyMove_of_deny? hdeny with
  | deny store rules block decisions ledger log hcall hscan =>
      refine hp.refuse (hp.enters_of_call hcall (by simp)) fun hcalm hash => ?_
      have hcleared := find?_clear_of_scan hscan hash
      rw [hp.ledger hcalm, ite_self] at hcleared
      exact hcleared

end Between

end Pipeline

end TxPipeline
