import TxPipeline.Proofs.Invariant.Traffic

/-!
# The workers keep the invariant

A worker that goes on with its job holds what the handler made for it, and finds every cell that it
writes empty. No worker dies, and none leaves before the pools are closed and all jobs are done.
-/

namespace TxPipeline.Pipeline

variable {F : Flow} {calm : Prop} {handlers : List (Handler F)} {past : List (Work F)}
  {work : Work F} {phase : Phase F} {p q : Pipeline F} {w : Nat} {worker : Worker F}
  {activity : Activity F} {job : Job} {s s' : Station F}

theorem mem_setActivity (hw : p.workers[w]? = some worker) {other : Worker F}
    (hother : other ∈ (p.setActivity w activity).workers) :
    other ∈ p.workers ∨ other = { worker with activity := activity } := by
  rw [setActivity, modify_eq_set hw] at hother
  exact List.mem_or_eq_of_mem_set hother

theorem map_stage_setActivity (hw : p.workers[w]? = some worker) (activity : Activity F) :
    (p.setActivity w activity).workers.map (·.stage) = p.workers.map (·.stage) := by
  rw [setActivity, modify_eq_set hw]
  exact map_set_of_eq hw rfl

theorem length_setActivity : (p.setActivity w activity).workers.length = p.workers.length :=
  List.length_modify ..

theorem setStation_self {h : Nat} (hs : p.stations[h]? = some s) : p.setStation h s = p := by
  obtain ⟨hlt, rfl⟩ := List.getElem?_eq_some_iff.mp hs
  simp [setStation]

theorem getElem?_setStation {h i : Nat} (hs : p.stations[h]? = some s) :
    (p.setStation h s').stations[i]? = if i = h then some s' else p.stations[i]? := by
  have hlt := (List.getElem?_eq_some_iff.mp hs).1
  rw [setStation, List.getElem?_set]
  by_cases hi : i = h
  · simp [hi, hlt]
  · simp [hi, Ne.symm hi]

theorem load_of_passed (hw : p.workers[w]? = some worker) {c : Checkpoint}
    (hdue : activity.due c = worker.activity.due c ∨
      worker.activity.due c = {job} ∧ activity.due c = 0) :
    (p.setActivity w activity).load c = p.load c ∨
      p.load c = job ::ₘ (p.setActivity w activity).load c :=
  hdue.imp (load_setActivity_of_eq hw) fun ⟨hold, hnew⟩ => load_eq_cons hw hold hnew

theorem le_of_passed {before after : Multiset Job}
    (h : before = after ∨ before = job ::ₘ after) : after ≤ before := by
  rcases h with rfl | rfl
  · exact le_rfl
  · exact Multiset.le_cons_self _ job

/-! ## The crew -/

theorem Crew.setActivity (hc : p.Crew handlers) (hw : p.workers[w]? = some worker)
    (hdead : ∀ fault, activity ≠ .dead fault)
    (hexited : activity = .exited → p.poolSenders = false ∧ p.queue worker.stage = [] ∧
      ∀ feeders ∈ p.feeders, feeders.pending worker.stage = []) :
    (p.setActivity w activity).Crew handlers where
  handlers_eq := hc.handlers_eq
  receivers := by
    rw [length_setActivity]
    exact hc.receivers
  reports := hc.reports
  staffed := by
    rw [map_stage_setActivity hw]
    exact hc.staffed
  alive := by
    intro other hother
    rcases mem_setActivity hw hother with hother | rfl
    · exact hc.alive other hother
    · exact hdead
  exited := by
    intro other hother
    rcases mem_setActivity hw hother with hother | rfl
    · exact hc.exited other hother
    · exact hexited
  closed := hc.closed
  checked := hc.checked

theorem Crew.setStation (hc : p.Crew handlers) {h : Nat} (hs : p.stations[h]? = some s)
    (hhandler : s'.handler = s.handler) : (p.setStation h s').Crew handlers where
  handlers_eq := by
    rw [← hc.handlers_eq]
    exact map_set_of_eq hs hhandler
  receivers := hc.receivers
  reports := hc.reports
  staffed := hc.staffed
  alive := hc.alive
  exited := hc.exited
  closed := hc.closed
  checked := hc.checked

/-! ## Moves of a worker that holds a job -/

namespace During

variable (hp : p.During calm handlers past work phase)

include hp

theorem note (event : Event) : (p.note event).During calm handlers past work phase :=
  { hp with
    crew := { hp.crew with }
    calls := hp.calls.congr rfl rfl rfl rfl
    traffic := { hp.traffic with } }

/-- Jobs that move without passing a checkpoint change nothing else. -/
theorem shift (hcrew : q.Crew handlers) (hload : ∀ c, q.load c = p.load c)
    (hcalls : q.Attends handlers work past.length phase) (hstations : q.stations = p.stations)
    (hrelay : q.relay = p.relay) (hfeeders : q.feeders.length = p.feeders.length)
    (hledger : q.ledger = p.ledger)
    (hactivities : ∀ worker ∈ q.workers, worker.activity.Fits handlers work) :
    q.During calm handlers past work phase where
  length_le := hp.length_le
  accepted := hp.accepted
  crew := hcrew
  feeders := hfeeders.trans hp.feeders
  calls := hcalls
  relay := by
    rw [hrelay]
    exact hp.relay
  traffic := hp.traffic.of_load_eq hload
  activities := hactivities
  stations := by
    rw [hstations, Phase.outstanding_eq phase hload]
    exact hp.stations
  ledger := by
    rw [hledger]
    exact hp.ledger

omit hp in
theorem fits_setActivity (hp : ∀ worker ∈ p.workers, worker.activity.Fits handlers work)
    (hw : p.workers[w]? = some worker) (hfits : activity.Fits handlers work) :
    ∀ worker ∈ (p.setActivity w activity).workers, worker.activity.Fits handlers work := by
  intro other hother
  rcases mem_setActivity hw hother with hother | rfl
  · exact hp other hother
  · exact hfits

theorem turn (activity : Activity F) (hw : p.workers[w]? = some worker)
    (hdue : ∀ c, activity.due c = worker.activity.due c) (hfits : activity.Fits handlers work)
    (hdead : ∀ fault, activity ≠ .dead fault)
    (hexited : activity = .exited → p.poolSenders = false ∧ p.queue worker.stage = [] ∧
      ∀ feeders ∈ p.feeders, feeders.pending worker.stage = []) :
    (p.setActivity w activity).During calm handlers past work phase :=
  hp.shift (hp.crew.setActivity hw hdead hexited)
    (fun c => load_setActivity_of_eq hw (hdue c)) (hp.calls.congr rfl rfl rfl rfl) rfl rfl rfl rfl
    (fits_setActivity hp.activities hw hfits)

/-- A worker passes checkpoints with its job, and changes the station of the job on the way. -/
theorem pass (job : Job) (hw : p.workers[w]? = some worker)
    (hs : p.stations[job.handler]? = some s)
    (hdue : ∀ c, activity.due c = worker.activity.due c ∨
      worker.activity.due c = {job} ∧ activity.due c = 0)
    (hfits : activity.Fits handlers work) (hdead : ∀ fault, activity ≠ .dead fault)
    (hexited : activity ≠ .exited) (hhandler : s'.handler = s.handler)
    (hsupplied : activity.due .supplied = worker.activity.due .supplied ∨
      job ∉ phase.outstanding p .deposited)
    (hs' : s'.Fits calm handlers past work job.handler
      (phase.outstanding (p.setActivity w activity))
      (phase.berth work.block.length job.handler)) :
    ((p.setStation job.handler s').setActivity w activity).During calm handlers past work
      phase := by
  -- the job leaves the load of the checkpoints that it passes, and no other changes
  have hload (c : Checkpoint) := load_of_passed hw (hdue c)
  have hout (c : Checkpoint) :
      phase.outstanding p c = phase.outstanding (p.setActivity w activity) c ∨
        phase.outstanding p c = job ::ₘ phase.outstanding (p.setActivity w activity) c :=
    Phase.outstanding_of_passed (hload c)
  have hmem (c : Checkpoint) {other : Job}
      (hother : other ∈ phase.outstanding (p.setActivity w activity) c) :
      other ∈ phase.outstanding p c := Multiset.mem_of_le (le_of_passed (hout c)) hother
  have hread (other : Job)
      (hother : other ∈ phase.outstanding (p.setActivity w activity) .deposited)
      (hbefore : other ∈ phase.outstanding p .supplied) :
      other ∈ phase.outstanding (p.setActivity w activity) .supplied := by
    rcases hsupplied with hsame | hnot
    · rwa [Phase.outstanding, load_setActivity_of_eq hw hsame]
    · rcases hout .supplied with h | h
      · rwa [← h]
      · rw [h, Multiset.mem_cons] at hbefore
        -- the job that is read now was written before
        apply hbefore.resolve_left
        rintro rfl
        exact hnot (hmem _ hother)
  exact { hp with
    crew := (hp.crew.setStation hs hhandler).setActivity hw hdead fun h => absurd h hexited
    calls := hp.calls.congr rfl rfl rfl rfl
    traffic := hp.traffic.mono (fun c => le_of_passed (hout c)) hread
      (fun c other hother => hp.traffic.mem_jobs c other
        (Multiset.mem_of_le (le_of_passed ((hload c).imp_left Eq.symm)) hother))
      fun other hother => hp.traffic.not_closed other (hmem _ hother)
    activities := fits_setActivity (p := p) hp.activities hw hfits
    stations := by
      intro h other hother
      have hget : (p.setStation job.handler s').stations[h]? = some other := hother
      rw [getElem?_setStation hs] at hget
      split at hget
      · rename_i heq
        cases hget
        rw [heq]
        exact hs'
      · rename_i hne
        exact (hp.stations h other hget).congr (agree_of_cons (Ne.symm hne) hout) }

theorem copy?_eq {c : Checkpoint} (hw : p.workers[w]? = some worker) (hj : job ∈ p.load c) :
    p.relay.copy? w = some work.store := by
  apply (hp.rests hj).copy?
  rw [hp.crew.receivers]
  exact (List.getElem?_eq_some_iff.mp hw).1

theorem station_eq {c : Checkpoint} (hj : job ∈ p.load c) (hs : p.stations[job.handler]? = some s) :
    handlers[job.handler]? = some s.handler ∧ ∃ progress,
      phase.berth work.block.length job.handler = .serving progress ∧
      s.Fits calm handlers past work job.handler (phase.outstanding p) (.serving progress) := by
  obtain ⟨s₀, progress, hs₀, hhandler, hberth, hfits⟩ := hp.serving hj
  obtain rfl : s₀ = s := by simpa [hs] using hs₀.symm
  exact ⟨hhandler, progress, hberth, hfits⟩

theorem gather {c : Checkpoint} (hj : job ∈ p.load c) (hs : p.stations[job.handler]? = some s)
    {common : F.Common} (hvalue : s.common.value = some common) :
    work.commonOf handlers job.handler = some common := by
  obtain ⟨-, progress, -, hfits⟩ := hp.station_eq hj hs
  exact hfits.commonOf hvalue

theorem passStage (activity : Activity F) (fault : Option Fault) {c : Checkpoint}
    (hw : p.workers[w]? = some worker) (hj : job ∈ p.load c)
    (hs : p.stations[job.handler]? = some s)
    (hdue : ∀ c, activity.due c = worker.activity.due c ∨
      worker.activity.due c = {job} ∧ activity.due c = 0)
    (hsame : ∀ c, c = .deposited ∨ c = .announced ∨ c = .settled →
      activity.due c = worker.activity.due c)
    (hfits : activity.Fits handlers work) (hdead : ∀ fault, activity ≠ .dead fault)
    (hexited : activity ≠ .exited)
    (hsupplied : activity.due .supplied = worker.activity.due .supplied ∨
      job ∉ phase.outstanding p .deposited)
    (hkept : Kept handlers work job.handler (phase.outstanding p .prefetched)
        (phase.outstanding p .processed) s.fault →
      Kept handlers work job.handler (phase.outstanding (p.setActivity w activity) .prefetched)
        (phase.outstanding (p.setActivity w activity) .processed) fault) :
    ((p.setStation job.handler { s with fault := fault }).setActivity w activity).During calm
      handlers past work phase := by
  obtain ⟨-, progress, hberth, hserves⟩ := hp.station_eq hj hs
  refine hp.pass job hw hs hdue hfits hdead hexited rfl hsupplied ?_
  rw [hberth]
  refine hserves.setFault ?_ hkept
  intro c hc
  rw [Phase.outstanding, load_setActivity_of_eq hw (hsame c hc)]
  rfl

omit hp in
theorem outstanding_setActivity (activity : Activity F) {c : Checkpoint}
    (hw : p.workers[w]? = some worker)
    (hdue : activity.due c = worker.activity.due c) :
    phase.outstanding (p.setActivity w activity) c = phase.outstanding p c := by
  rw [Phase.outstanding, Phase.outstanding, load_setActivity_of_eq hw hdue]

omit hp in
theorem outstanding_eq_cons {c : Checkpoint} (hw : p.workers[w]? = some worker)
    (hold : worker.activity.due c = {job}) (hnew : activity.due c = 0) :
    phase.outstanding p c = job ::ₘ phase.outstanding (p.setActivity w activity) c :=
  Phase.outstanding_eq_cons (load_eq_cons hw hold hnew)

theorem runPrefetch {stage : Stage} {common : F.Common}
    (hw : p.workers[w]? = some ⟨stage, .prefetchRun job common⟩)
    (hs : p.stations[job.handler]? = some s) {data : F.Data}
    (hok : s.handler.prefetch work.store job.tx common = .ok data) :
    (p.setActivity w (.prefetchDeposit job (some data))).During calm handlers past work phase := by
  have hcommon : work.commonOf handlers job.handler = some common :=
    hp.activities _ (List.mem_of_getElem? hw)
  have hj : job ∈ p.load .prefetched := mem_load_of_due hw (Multiset.mem_singleton_self job)
  have hhandler := (hp.station_eq hj hs).1
  have hnone : work.prefetchFault handlers job = none := by
    simp [Work.prefetchFault, hhandler, hcommon, hok]
  have hdata : some data = work.dataOf handlers job.handler job.tx := by
    simp [Work.dataOf, hhandler, hcommon, hok, Except.toOption]
  have hpass := hp.passStage (.prefetchDeposit job (some data)) s.fault hw hj hs
    (fun c => by cases c <;> simp [Activity.due, Checkpoint.stage])
    (fun c hc => by rcases hc with rfl | rfl | rfl <;> simp [Activity.due, Checkpoint.stage])
    ⟨hdata, by simp [hcommon]⟩ (by simp) (by simp) (.inl rfl) fun hkept => ?_
  · rwa [setStation_self hs] at hpass
  · rw [outstanding_setActivity (.prefetchDeposit job (some data)) hw (c := .processed) rfl]
    exact hkept.pass_prefetched (outstanding_eq_cons hw rfl rfl) hnone

theorem failPrefetch {stage : Stage} {common : F.Common}
    (hw : p.workers[w]? = some ⟨stage, .prefetchRun job common⟩)
    (hs : p.stations[job.handler]? = some s) {fault : Fault}
    (herror : s.handler.prefetch work.store job.tx common = .error fault) :
    ((p.catchFault .prefetch job s fault).setActivity w (.prefetchDeposit job none)).During calm
      handlers past work phase := by
  have hcommon : work.commonOf handlers job.handler = some common :=
    hp.activities _ (List.mem_of_getElem? hw)
  have hj : job ∈ p.load .prefetched := mem_load_of_due hw (Multiset.mem_singleton_self job)
  have hhandler := (hp.station_eq hj hs).1
  have hsome : work.prefetchFault handlers job = some fault := by
    simp [Work.prefetchFault, hhandler, hcommon, herror]
  have hdata : none = work.dataOf handlers job.handler job.tx := by
    simp [Work.dataOf, hhandler, hcommon, herror, Except.toOption]
  exact (hp.passStage (.prefetchDeposit job none) _ hw hj hs
    (fun c => by cases c <;> simp [Activity.due, Checkpoint.stage])
    (fun c hc => by rcases hc with rfl | rfl | rfl <;> simp [Activity.due, Checkpoint.stage])
    ⟨hdata, by simp [hcommon]⟩ (by simp) (by simp) (.inl rfl)
    fun hkept => hkept.keep (hp.traffic.mem_jobs _ _ hj) rfl (.inl hsome) _ _).note _

theorem deposit {stage : Stage} {data : Option F.Data}
    (hw : p.workers[w]? = some ⟨stage, .prefetchDeposit job data⟩)
    (hs : p.stations[job.handler]? = some s) :
    (p.advance w job.handler (s.deposit job.tx.index data) .idle).During calm handlers past work
      phase := by
  obtain ⟨rfl, hcommon⟩ : data = work.dataOf handlers job.handler job.tx ∧
      (work.commonOf handlers job.handler).isSome := hp.activities _ (List.mem_of_getElem? hw)
  have hj : job ∈ p.load .deposited := mem_load_of_due hw (Multiset.mem_singleton_self job)
  obtain ⟨-, progress, hberth, hfits⟩ := hp.station_eq hj hs
  obtain ⟨s', hdeposit, hhandler, hfits'⟩ := hfits.deposit
    (phase.outstanding (p.setActivity w .idle)) hp.length_le
    (hp.traffic.mem_jobs _ _ hj) hcommon (outstanding_eq_cons hw rfl rfl)
    hp.traffic.nodup_deposited
    fun c hc => outstanding_setActivity _ hw (by cases c <;> first | rfl | exact absurd rfl hc)
  rw [hdeposit]
  refine hp.pass job hw hs ?_ trivial (by simp) (by simp) hhandler (.inl rfl) ?_
  · intro c
    cases c <;> simp [Activity.due]
  · rwa [hberth]

/-- What a process reads of its data cell was made by the prefetch of the same job. -/
theorem await {stage : Stage} {common : F.Common}
    (hw : p.workers[w]? = some ⟨stage, .processAwait job common⟩)
    (hs : p.stations[job.handler]? = some s) :
    ∃ cell, s.data[job.tx.index]? = some cell ∧
      (∀ data, cell.value = some (some data) →
        (p.setActivity w (.processRun job common data)).During calm handlers past work phase) ∧
      (cell.value = some none →
        (p.setActivity w (.processAnnounce ⟨job.tx, none⟩ job.handler)).During calm handlers past
          work phase) := by
  have hcommon : work.commonOf handlers job.handler = some common :=
    hp.activities _ (List.mem_of_getElem? hw)
  have hj : job ∈ p.load .supplied := mem_load_of_due hw (Multiset.mem_singleton_self job)
  have hjob := hp.traffic.mem_jobs _ _ hj
  obtain ⟨hhandler, progress, hberth, hfits⟩ := hp.station_eq hj hs
  obtain ⟨cell, hcell, hread⟩ := hfits.dataOf hp.length_le hjob
  refine ⟨cell, hcell, ?_, ?_⟩
  · intro data hvalue
    obtain ⟨hdata, hnot⟩ := hread _ hvalue
    have hpass := hp.passStage (.processRun job common data) s.fault hw hj hs
      (fun c => by cases c <;> simp [Activity.due, Checkpoint.stage])
      (fun c hc => by rcases hc with rfl | rfl | rfl <;> simp [Activity.due, Checkpoint.stage])
      ⟨hcommon, hdata.symm⟩ (by simp) (by simp) (.inr hnot) fun hkept => ?_
    · rwa [setStation_self hs] at hpass
    · rw [outstanding_setActivity (.processRun job common data) hw (c := .prefetched) rfl,
        outstanding_setActivity (.processRun job common data) hw (c := .processed) rfl]
      exact hkept
  · intro hvalue
    obtain ⟨hdata, hnot⟩ := hread _ hvalue
    have hresult : (⟨job.tx, none⟩ : TxResult F.Output) =
        work.resultOf handlers job.handler job.tx := by
      rw [Work.resultOf_of_job hjob]
      simp [Work.outputOf, hhandler, hcommon, ← hdata]
    have hnone : work.processFault handlers job = none := by
      simp [Work.processFault, ← hdata]
    have hpass := hp.passStage (.processAnnounce ⟨job.tx, none⟩ job.handler) s.fault hw hj hs
      (fun c => by cases c <;> simp [Activity.due, Checkpoint.stage])
      (fun c hc => by rcases hc with rfl | rfl | rfl <;> simp [Activity.due, Checkpoint.stage])
      hresult (by simp) (by simp) (.inr hnot) fun hkept => ?_
    · rwa [setStation_self hs] at hpass
    · rw [outstanding_setActivity (.processAnnounce ⟨job.tx, none⟩ job.handler) hw
        (c := .prefetched) rfl]
      exact hkept.pass_processed (outstanding_eq_cons hw rfl rfl) hnone

theorem runProcess {stage : Stage} {common : F.Common} {data : F.Data}
    (hw : p.workers[w]? = some ⟨stage, .processRun job common data⟩)
    (hs : p.stations[job.handler]? = some s) {output : F.Output}
    (hok : s.handler.process work.store job.tx common data = .ok output) :
    (p.setActivity w (.processAnnounce ⟨job.tx, some output⟩ job.handler)).During calm handlers
      past work phase := by
  obtain ⟨hcommon, hdata⟩ : work.commonOf handlers job.handler = some common ∧
      work.dataOf handlers job.handler job.tx = some data :=
    hp.activities _ (List.mem_of_getElem? hw)
  have hj : job ∈ p.load .processed := mem_load_of_due hw (Multiset.mem_singleton_self job)
  have hhandler := (hp.station_eq hj hs).1
  have hresult : (⟨job.tx, some output⟩ : TxResult F.Output) =
      work.resultOf handlers job.handler job.tx := by
    rw [Work.resultOf_of_job (hp.traffic.mem_jobs _ _ hj)]
    simp [Work.outputOf, hhandler, hcommon, hdata, hok, Except.toOption]
  have hnone : work.processFault handlers job = none := by
    simp [Work.processFault, hhandler, hcommon, hdata, hok]
  have hpass := hp.passStage (.processAnnounce ⟨job.tx, some output⟩ job.handler) s.fault hw hj hs
    (fun c => by cases c <;> simp [Activity.due, Checkpoint.stage])
    (fun c hc => by rcases hc with rfl | rfl | rfl <;> simp [Activity.due, Checkpoint.stage])
    hresult (by simp) (by simp) (.inl rfl) fun hkept => ?_
  · rwa [setStation_self hs] at hpass
  · rw [outstanding_setActivity (.processAnnounce ⟨job.tx, some output⟩ job.handler) hw
      (c := .prefetched) rfl]
    exact hkept.pass_processed (outstanding_eq_cons hw rfl rfl) hnone

theorem failProcess {stage : Stage} {common : F.Common} {data : F.Data}
    (hw : p.workers[w]? = some ⟨stage, .processRun job common data⟩)
    (hs : p.stations[job.handler]? = some s) {fault : Fault}
    (herror : s.handler.process work.store job.tx common data = .error fault) :
    ((p.catchFault .process job s fault).setActivity w
      (.processAnnounce ⟨job.tx, none⟩ job.handler)).During calm handlers past work phase := by
  obtain ⟨hcommon, hdata⟩ : work.commonOf handlers job.handler = some common ∧
      work.dataOf handlers job.handler job.tx = some data :=
    hp.activities _ (List.mem_of_getElem? hw)
  have hj : job ∈ p.load .processed := mem_load_of_due hw (Multiset.mem_singleton_self job)
  have hjob := hp.traffic.mem_jobs _ _ hj
  have hhandler := (hp.station_eq hj hs).1
  have hresult : (⟨job.tx, none⟩ : TxResult F.Output) =
      work.resultOf handlers job.handler job.tx := by
    rw [Work.resultOf_of_job hjob]
    simp [Work.outputOf, hhandler, hcommon, hdata, herror, Except.toOption]
  have hsome : work.processFault handlers job = some fault := by
    simp [Work.processFault, hhandler, hcommon, hdata, herror]
  exact (hp.passStage (.processAnnounce ⟨job.tx, none⟩ job.handler) _ hw hj hs
    (fun c => by cases c <;> simp [Activity.due, Checkpoint.stage])
    (fun c hc => by rcases hc with rfl | rfl | rfl <;> simp [Activity.due, Checkpoint.stage])
    hresult (by simp) (by simp) (.inl rfl)
    fun hkept => hkept.keep hjob rfl (.inr hsome) _ _).note _

theorem announce {stage : Stage} {r : TxResult F.Output} {h : Nat}
    (hw : p.workers[w]? = some ⟨stage, .processAnnounce r h⟩) (hs : p.stations[h]? = some s) :
    (p.advance w h (s.announce r) (.processSettle r h)).During calm handlers past work phase := by
  have hresult : r = work.resultOf handlers h r.tx := hp.activities _ (List.mem_of_getElem? hw)
  have hj : ⟨h, r.tx⟩ ∈ p.load .announced := mem_load_of_due hw (Multiset.mem_singleton_self _)
  obtain ⟨-, progress, hberth, hfits⟩ := hp.station_eq hj hs
  obtain ⟨s', hannounce, hhandler, hfits'⟩ := hfits.announce
    (phase.outstanding (p.setActivity w (.processSettle r h))) hp.length_le
    (outstanding_eq_cons hw rfl rfl)
    fun c hc => outstanding_setActivity _ hw (by cases c <;> first | rfl | exact absurd rfl hc)
  rw [← hresult] at hannounce
  rw [hannounce]
  refine hp.pass ⟨h, r.tx⟩ hw hs ?_ hresult (by simp) (by simp) hhandler
    (.inl rfl) ?_
  · intro c
    cases c <;> simp [Activity.due]
  · rwa [hberth]

theorem settle {stage : Stage} {r : TxResult F.Output} {h : Nat}
    (hw : p.workers[w]? = some ⟨stage, .processSettle r h⟩) (hs : p.stations[h]? = some s) :
    (p.advance w h (s.settle r) .idle).During calm handlers past work phase := by
  have hresult : r = work.resultOf handlers h r.tx := hp.activities _ (List.mem_of_getElem? hw)
  have hj : ⟨h, r.tx⟩ ∈ p.load .settled := mem_load_of_due hw (Multiset.mem_singleton_self _)
  obtain ⟨-, progress, hberth, hfits⟩ := hp.station_eq hj hs
  obtain ⟨s', hsettle, hhandler, hfits'⟩ := hfits.settle
    (phase.outstanding (p.setActivity w .idle)) hp.length_le
    (Work.mem_jobs.mp (hp.traffic.mem_jobs _ _ hj)).1 (outstanding_eq_cons hw rfl rfl)
    hp.traffic.nodup_settled
    fun c hc => outstanding_setActivity _ hw (by cases c <;> first | rfl | exact absurd rfl hc)
  rw [← hresult] at hsettle
  rw [hsettle]
  refine hp.pass ⟨h, r.tx⟩ hw hs ?_ trivial (by simp) (by simp) hhandler
    (.inl rfl) ?_
  · intro c
    cases c <;> simp [Activity.due]
  · rwa [hberth]

theorem work? (hstep : p.work? w = some q) : q.During calm handlers past work phase := by
  obtain ⟨⟨stage, activity⟩, hw, hmove⟩ := workMove_of_work? hstep
  have hheld {c : Checkpoint} {job : Job} (hj : job ∈ activity.due c) : job ∈ p.load c :=
    mem_load_of_due hw hj
  have hown {c : Checkpoint} {job : Job} {store : F.Store} (hj : job ∈ activity.due c)
      (hstore : p.relay.copy? w = some store) : work.store = store := by
    rw [hp.copy?_eq hw (hheld hj)] at hstore
    exact Option.some.inj hstore
  cases hmove with
  | prefetchGather job common s hs hvalue =>
      have hj := hheld (c := .deposited) (Multiset.mem_singleton_self job)
      exact hp.turn (.prefetchRun job common) hw (fun _ => rfl) (hp.gather hj hs hvalue) (by simp)
        (by simp)
  | prefetchRun job common s store data hs hstore hresult =>
      obtain rfl := hown (c := .deposited) (Multiset.mem_singleton_self job) hstore
      exact hp.runPrefetch hw hs hresult
  | prefetchFault job common s store fault hs hstore hresult =>
      obtain rfl := hown (c := .deposited) (Multiset.mem_singleton_self job) hstore
      exact hp.failPrefetch hw hs hresult
  | prefetchDeposit job data s hs => exact hp.deposit hw hs
  | processGather job common s hs hvalue =>
      have hj := hheld (c := .settled) (Multiset.mem_singleton_self job)
      exact hp.turn (.processAwait job common) hw (fun _ => rfl) (hp.gather hj hs hvalue) (by simp)
        (by simp)
  | outOfBounds job common s hs hnone =>
      obtain ⟨cell, hcell, -⟩ := hp.await hw hs
      rw [hnone] at hcell
      cases hcell
  | processAwait job common s cell data hs hcell hvalue =>
      obtain ⟨cell', hcell', hdata, -⟩ := hp.await hw hs
      obtain rfl : cell = cell' := Option.some.inj (hcell.symm.trans hcell')
      exact hdata data hvalue
  | processSkip job common s cell hs hcell hvalue =>
      obtain ⟨cell', hcell', -, hnone⟩ := hp.await hw hs
      obtain rfl : cell = cell' := Option.some.inj (hcell.symm.trans hcell')
      exact hnone hvalue
  | processRun job common data s store output hs hstore hresult =>
      obtain rfl := hown (c := .settled) (Multiset.mem_singleton_self job) hstore
      exact hp.runProcess hw hs hresult
  | processFault job common data s store fault hs hstore hresult =>
      obtain rfl := hown (c := .settled) (Multiset.mem_singleton_self job) hstore
      exact hp.failProcess hw hs hresult
  | processAnnounce r h s hs => exact hp.announce hw hs
  | processSettle r h s hs => exact hp.settle hw hs

end During

end TxPipeline.Pipeline
