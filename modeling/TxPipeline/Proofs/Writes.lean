import TxPipeline.Proofs.Course
import TxPipeline.Proofs.Results
import TxPipeline.Proofs.Slots

/-!
# Every cell is written once

The cells of a station are used again for every block. In a clean run each of them is set at most
once for a block, by one thread that is known beforehand, and it is set before the block is done:
what all stages share by the preparation, the aggregate by the aggregation, a data cell by a worker
if the transaction was dispatched and by nobody if it was not, a result by a worker or by the call
that declines the transaction. Hence no write finds a cell that is set already or missing.
-/

namespace TxPipeline

variable {F : Flow} {calm : Prop} {handlers : List (Handler F)} {past : List (Work F)}
  {work : Work F} {phase phase' : Phase F} {p q : Pipeline F} {actor : Actor} {c h : Nat}
  {slot : Slot} {due : Checkpoint → Multiset Job} {s s' : Station F}

/-! ## Cells that are to be written -/

/-- Whether a cell of station `h` is to be written for the block. -/
def Work.Requires (handlers : List (Handler F)) (work : Work F) (h : Nat) : Slot → Prop
  | .common => h < handlers.length
  | .data i => ∃ tx, work.block.indexed[i]? = some tx ∧ ⟨h, tx⟩ ∈ work.jobs handlers
  | .result i => h < handlers.length ∧ i < work.block.length
  | .aggregated => h < handlers.length

/-- Who may write a cell of station `h` for the block that call `c` has started. -/
inductive Work.Author (handlers : List (Handler F)) (work : Work F) (c h : Nat) :
    Slot → Actor → Prop
  | prepare (lane : Nat) : Author handlers work c h .common (.preparation h lane)
  | deposit (w i : Nat) (tx : IndexedTx) (htx : work.block.indexed[i]? = some tx)
      (hjob : ⟨h, tx⟩ ∈ work.jobs handlers) : Author handlers work c h (.data i) (.worker w)
  | decline (i : Nat) (tx : IndexedTx) (htx : work.block.indexed[i]? = some tx)
      (hdeclined : ⟨h, tx⟩ ∉ work.jobs handlers) : Author handlers work c h (.result i) (.caller c)
  | settle (w i : Nat) (tx : IndexedTx) (htx : work.block.indexed[i]? = some tx)
      (hjob : ⟨h, tx⟩ ∈ work.jobs handlers) : Author handlers work c h (.result i) (.worker w)
  | aggregate (lane : Nat) : Author handlers work c h .aggregated (.aggregation h lane)

/-- Whether a cell was emptied again. -/
def Berth.Clears (handlers : List (Handler F)) (work : Work F) (h : Nat) : Berth → Slot → Prop
  | .closed, slot => work.Requires handlers h slot
  | .serving progress, .result i => i < progress.drained
  | .serving progress, .aggregated => progress.concluded = true
  | _, _ => False

theorem Aggregates.eq_none_of_concluded {progress : Progress} {lane : Nat} {receiver : Option Nat}
    {aggregated : Option F.Aggregate} {l : Lane F} {aggregation : Aggregation F}
    (ha : Aggregates calm handlers work h progress lane receiver aggregated l aggregation)
    (hconcluded : progress.concluded = true) : aggregated = none := by
  cases ha with
  | ended a _ _ hsome _ _ => rw [hsome, if_pos hconcluded]
  | idle _ _ _ hnone _ => exact hnone
  | claiming _ _ _ hnone _ => exact hnone
  | gathering _ _ _ hnone _ => exact hnone
  | reading _ _ _ _ hnone _ _ => exact hnone
  | joining _ _ _ _ hnone _ => exact hnone
  | dead _ _ _ _ _ hnone _ _ => exact hnone

theorem Prepares.isSome_of_joined {progress : Progress} {common : Option F.Common}
    {preparation : Preparation F}
    (hp : Prepares calm handlers work h progress common preparation)
    (hjoined : progress.joined = true) : common.isSome = true := by
  cases hp with
  | ended _ hsome _ => exact hsome
  | idle _ hj _ => simp [hjoined] at hj
  | ready _ hj _ => simp [hjoined] at hj
  | dead _ _ _ hj _ _ => simp [hjoined] at hj

theorem Station.Clear.isSet_eq (hs : s.Clear) (slot : Slot) : s.isSet slot = false := by
  cases slot with
  | common => simp [isSet, hs.common]
  | data i => simp [isSet, valueAt_eq_none hs.data]
  | result i => simp [isSet, valueAt_eq_none hs.results]
  | aggregated => simp [isSet, hs.aggregated]

namespace Station.Fits

variable {berth : Berth} (hs : s.Fits calm handlers past work h due berth)

include hs

theorem isSet_of_clears (hclears : berth.Clears handlers work h slot) : s.isSet slot = false := by
  cases berth with
  | unopened => exact hs.1.isSet_eq slot
  | closed => exact hs.1.isSet_eq slot
  | serving progress =>
      obtain ⟨old, l, -, -, hserves⟩ := hs
      cases slot with
      | common => exact hclears.elim
      | data i => exact hclears.elim
      | result i =>
          have hnot : ¬ progress.drained ≤ i := Nat.not_le_of_lt hclears
          simp [isSet, hserves.settled.values, hnot]
      | aggregated => simp [isSet, hserves.aggregates.eq_none_of_concluded hclears]

theorem requires_of_isSet (hh : h < handlers.length) (hset : s.isSet slot = true) :
    work.Requires handlers h slot := by
  have hclear (hs : s.Clear) : work.Requires handlers h slot := by
    rw [hs.isSet_eq] at hset
    cases hset
  cases berth with
  | unopened => exact hclear hs.1
  | closed => exact hclear hs.1
  | serving progress =>
      obtain ⟨old, l, -, -, hserves⟩ := hs
      cases slot with
      | common => exact hh
      | aggregated => exact hh
      | data i =>
          obtain ⟨value, hvalue⟩ := Option.isSome_iff_exists.mp hset
          rw [hserves.supplied.values] at hvalue
          obtain ⟨tx, htx, hif⟩ := Option.bind_eq_some_iff.mp hvalue
          split at hif
          · rename_i hjob
            exact ⟨tx, htx, hjob.1⟩
          · cases hif
      | result i =>
          obtain ⟨value, hvalue⟩ := Option.isSome_iff_exists.mp hset
          rw [hserves.settled.values] at hvalue
          obtain ⟨tx, htx, -⟩ := Option.bind_eq_some_iff.mp hvalue
          refine ⟨hh, ?_⟩
          rw [← Block.length_indexed]
          exact (List.getElem?_eq_some_iff.mp htx).1

end Station.Fits

/-- When a station is closed, every cell that was to be written is set, or was emptied before. -/
theorem Station.Fits.isSet_or_clears {progress : Progress}
    (hs : s.Fits calm handlers past work h due (.serving progress))
    (hincluded : ∀ c, ∀ job ∈ due c, job ∈ due .settled)
    (hdrained : progress.drained = work.block.length) (hjoined : progress.joined = true)
    (hconcluded : progress.concluded = true) (hrequires : work.Requires handlers h slot) :
    s.isSet slot = true ∨ (Berth.serving progress).Clears handlers work h slot := by
  have hnot {tx : IndexedTx} (ht : tx ∈ work.block.indexed) : ⟨h, tx⟩ ∉ due .deposited :=
    hs.not_due_of_drained hincluded hdrained ht
  obtain ⟨old, l, -, -, hserves⟩ := hs
  cases slot with
  | common => exact .inl (hserves.prepares.isSome_of_joined hjoined)
  | data i =>
      obtain ⟨tx, htx, hjob⟩ := hrequires
      left
      simp [isSet, hserves.supplied.values, htx, hjob, hnot (List.mem_of_getElem? htx)]
  | result i =>
      right
      change i < progress.drained
      rw [hdrained]
      exact hrequires.2
  | aggregated => exact .inr hconcluded

/-! ## Cells that were written -/

namespace Phase

/-- Whether a cell of station `h` was emptied again. -/
def Clears (handlers : List (Handler F)) (work : Work F) (phase : Phase F) (h : Nat)
    (slot : Slot) : Prop :=
  h < handlers.length ∧ (phase.berth work.block.length h).Clears handlers work h slot

/-- Whether a cell of station `h` was written for the block: it is set, or was emptied again. -/
def Written (handlers : List (Handler F)) (work : Work F) (phase : Phase F) (p : Pipeline F)
    (h : Nat) (slot : Slot) : Prop :=
  p.isSet h slot = true ∨ phase.Clears handlers work h slot

end Phase

theorem Phase.not_clears_starting {d : Nat} {next : Starting} :
    ¬ (Phase.starting d next : Phase F).Clears handlers work h slot := by
  rintro ⟨-, hclears⟩
  cases next with
  | opening plan k =>
      simp only [berth, Starting.berth] at hclears
      split at hclears <;> cases slot <;> simp [Berth.Clears, Progress.opened] at hclears
  | _ => cases slot <;> simp [berth, Starting.berth, Berth.Clears, Progress.opened] at hclears

namespace Pipeline

theorem isSet_eq (hs : p.stations[h]? = some s) (slot : Slot) : p.isSet h slot = s.isSet slot := by
  rw [isSet, hs, Option.any_some]

theorem exists_of_isSet (hset : p.isSet h slot = true) :
    ∃ s, p.stations[h]? = some s ∧ s.isSet slot = true :=
  (Option.any_eq_true _ _).mp hset

namespace During

variable (hp : p.During calm handlers past work phase)

include hp

theorem isSet_of_clears (hclears : phase.Clears handlers work h slot) :
    p.isSet h slot = false := by
  obtain ⟨s, hs, -⟩ := hp.exists_station hclears.1
  rw [isSet_eq hs]
  exact (hp.stations h s hs).isSet_of_clears hclears.2

theorem requires_of_isSet (hset : p.isSet h slot = true) : work.Requires handlers h slot := by
  obtain ⟨s, hs, hset⟩ := exists_of_isSet hset
  exact (hp.stations h s hs).requires_of_isSet (hp.crew.lt_of_station hs) hset

end During

/-- A station at which one cell is emptied that counts as emptied from then on. -/
theorem written_of_empties {emptied : Slot} (hh : h < handlers.length)
    (hs : p.stations[h]? = some s) (hs' : q.stations[h]? = some s')
    (hempties : s.Empties s' emptied)
    (hclears : ∀ slot, (phase'.berth work.block.length h).Clears handlers work h slot ↔
      (phase.berth work.block.length h).Clears handlers work h slot ∨ slot = emptied) :
    (phase'.Written handlers work q h slot ↔ phase.Written handlers work p h slot) ∧
      (q.isSet h slot = true → p.isSet h slot = true) := by
  rw [Phase.Written, Phase.Written, Phase.Clears, Phase.Clears, isSet_eq hs, isSet_eq hs',
    hempties.isSet_iff, hclears]
  refine ⟨⟨?_, ?_⟩, And.left⟩
  · rintro (⟨hset, -⟩ | ⟨-, hclears | rfl⟩)
    · exact .inl hset
    · exact .inr ⟨hh, hclears⟩
    · exact .inl hempties.isSet_eq
  · rintro (hset | ⟨-, hclears⟩)
    · by_cases hslot : slot = emptied
      · exact .inr ⟨hh, .inr hslot⟩
      · exact .inl ⟨hset, hslot⟩
    · exact .inr ⟨hh, .inl hclears⟩

/-- A station at which nothing happens. -/
theorem written_of_same (hstation : q.stations[h]? = p.stations[h]?)
    (hclears : h < handlers.length →
      ((phase'.berth work.block.length h).Clears handlers work h slot ↔
        (phase.berth work.block.length h).Clears handlers work h slot)) :
    (phase'.Written handlers work q h slot ↔ phase.Written handlers work p h slot) ∧
      (q.isSet h slot = true → p.isSet h slot = true) := by
  rw [Phase.Written, Phase.Written, Phase.Clears, Phase.Clears, isSet, isSet, hstation]
  exact ⟨or_congr_right (and_congr_right hclears), id⟩

theorem During.written_closeStation {f : Nat} {origin store : F.Store} {block : Block}
    {receipts : List Receipt} {active : ActiveBlock} {kept kept' : Option Fault}
    (hp : p.During calm handlers past work
      (.finishing f origin store block receipts (.closing active h kept)))
    (hs : p.stations[h]? = some s) (hq : q.stations[h]? = some s.closeBlock) :
    ((Phase.finishing f origin store block receipts (.ending active (h + 1) kept')).Written
        handlers work q h slot ↔
      (Phase.finishing f origin store block receipts (.closing active h kept)).Written
        handlers work p h slot) ∧
      (q.isSet h slot = true → p.isSet h slot = true) := by
  have hh := hp.crew.lt_of_station hs
  have hfits := hp.stations h s hs
  simp only [Phase.berth, Finishing.berth, Nat.lt_irrefl, if_false, if_true] at hfits
  have hsub (hset : s.closeBlock.isSet slot = true) : s.isSet slot = true := by
    cases slot with
    | result i => exact hset
    | data i =>
        have hnone : valueAt (s.data.map Cell.reset) i = none := valueAt_eq_none (by simp) i
        simp [Station.isSet, Station.closeBlock, hnone] at hset
    | _ => simp [Station.isSet, Station.closeBlock] at hset
  simp only [Phase.Written, Phase.Clears, isSet_eq hs, isSet_eq hq, Phase.berth, Finishing.berth,
    Nat.lt_irrefl, Nat.lt_succ_self, if_false, if_true, hh, true_and]
  refine ⟨⟨?_, ?_⟩, hsub⟩
  · rintro (hset | hrequires)
    · exact .inl (hsub hset)
    · exact hfits.isSet_or_clears (fun _ _ hj => hp.traffic.mem_settled hj) rfl rfl rfl hrequires
  · rintro (hset | hclears)
    · exact .inr (hfits.requires_of_isSet hh hset)
    · right
      cases slot with
      | result i => exact ⟨hh, hclears⟩
      | aggregated => exact hh
      | common => exact hclears.elim
      | data i => exact hclears.elim

/-- A call that finishes the block goes on: it sets no cell, and what it empties was written. -/
theorem During.written_finish {f : Nat} {origin store store' : F.Store} {block : Block}
    {receipts : List Receipt} {next next' : Finishing}
    (hp : p.During calm handlers past work (.finishing f origin store block receipts next))
    (hmove : p.FinishMove f store block receipts next q)
    (hnext : q.calls[f]? = some (.finish store' block receipts next')) (h : Nat) (slot : Slot) :
    ((Phase.finishing f origin store' block receipts next').Written handlers work q h slot ↔
      (Phase.finishing f origin store block receipts next).Written handlers work p h slot) ∧
    (q.isSet h slot = true → p.isSet h slot = true) := by
  have hvalid := hp.finish_valid
  have heq {call : Call F} (hcalls : q.calls = p.calls.set f call) :
      call = .finish store' block receipts next' :=
    eq_of_set_calls hp.finish_eq hcalls hnext
  have hother {k : Nat} {s' : Station F} (hne : h ≠ k)
      (hstations : q.stations = p.stations.set k s') : q.stations[h]? = p.stations[h]? := by
    rw [hstations, List.getElem?_set_ne (Ne.symm hne)]
  have hself {k : Nat} {s s' : Station F} (hs : p.stations[k]? = some s)
      (hstations : q.stations = p.stations.set k s') : q.stations[k]? = some s' := by
    rw [hstations, List.getElem?_set_self (List.getElem?_eq_some_iff.mp hs).1]
  cases hmove with
  | miss | mismatch | take => exact hvalid.elim
  | preparationDead | aggregationDead | concludeFault | leaveFault | leave => cases heq rfl
  | prepared | joinPreparation | joinFeeders | joinAggregation =>
      cases heq rfl
      refine written_of_same rfl fun _ => ?_
      cases slot <;> simp [Phase.berth, Finishing.berth, Berth.Clears]
  | aggregated active k hs =>
      cases heq rfl
      refine written_of_same rfl fun hh => ?_
      have hlt : h < k := Nat.lt_of_lt_of_le hh (hp.crew.length_le hs)
      cases slot <;> simp [Phase.berth, Finishing.berth, Berth.Clears, hlt]
  | reset active k kept hs =>
      cases heq rfl
      refine written_of_same rfl fun hh => ?_
      have hlt : h < k := Nat.lt_of_lt_of_le hh (hp.crew.length_le hs)
      simp [Phase.berth, Finishing.berth, hlt]
  | beginReset active k kept s hs =>
      cases heq rfl
      refine written_of_same rfl fun _ => ?_
      simp [Phase.berth, Finishing.berth]
  | drained active k i length kept hle =>
      cases heq rfl
      refine written_of_same rfl fun _ => ?_
      obtain ⟨-, -, hi, hlength, -⟩ := hvalid
      obtain rfl : i = work.block.length := by omega
      rfl
  | conclude active k s s' a store' hs htake hafter =>
      cases heq rfl
      by_cases hh : h = k
      · obtain rfl := hh
        refine written_of_empties (hp.crew.lt_of_station hs) hs (hself hs rfl)
          (Station.empties_of_takeAggregate? htake) fun slot => ?_
        cases slot <;> simp [Phase.berth, Finishing.berth, Berth.Clears]
      · refine written_of_same (hother hh rfl) fun _ => ?_
        have hiff : h < k + 1 ↔ h < k := by omega
        cases slot <;> simp [Phase.berth, Finishing.berth, Berth.Clears, hiff]
  | drain active k i length kept s s' hlt hs hdrain =>
      cases heq rfl
      by_cases hh : h = k
      · obtain rfl := hh
        refine written_of_empties (hp.crew.lt_of_station hs) hs (hself hs rfl)
          (Station.empties_of_drain? hdrain) fun slot => ?_
        cases slot with
        | result j =>
            have hiff : j < i + 1 ↔ j < i ∨ j = i := Nat.lt_succ_iff_lt_or_eq
            simpa [Phase.berth, Finishing.berth, Berth.Clears] using hiff
        | _ => simp [Phase.berth, Finishing.berth, Berth.Clears]
      · refine written_of_same (hother hh rfl) fun _ => ?_
        simp [Phase.berth, Finishing.berth, hh]
  | closeStation active k kept s hs =>
      cases heq rfl
      by_cases hh : h = k
      · obtain rfl := hh
        exact hp.written_closeStation hs (hself hs rfl)
      · refine written_of_same (hother hh rfl) fun _ => ?_
        have hiff : h < k + 1 ↔ h < k := by omega
        simp [Phase.berth, Finishing.berth, hh, hiff]

/-! ## Who has written a cell -/

theorem During.author {past : List (Work F)} (hp : p.During calm handlers past work phase)
    (hphase : ∀ d next, phase = .starting d next → d = c) (hwrites : p.Writes actor h slot) :
    work.Author handlers c h slot actor := by
  have hwork (check : Checkpoint) {w : Nat} {stage : Stage} {activity : Activity F} {job : Job}
      (hw : p.workers[w]? = some ⟨stage, activity⟩) (hj : job ∈ activity.due check) :
      work.block.indexed[job.tx.index]? = some job.tx ∧ job ∈ work.jobs handlers := by
    have hjob := hp.traffic.mem_jobs check job (mem_load_of_due hw hj)
    exact ⟨(Work.getElem?_of_mem hp.length_le (Work.mem_jobs.mp hjob).1).2, hjob⟩
  cases hwrites with
  | prepare h lane s s' hs hmove => exact .prepare lane
  | aggregate h lane s s' hs hmove => exact .aggregate lane
  | deposit w stage job data hw =>
      obtain ⟨htx, hjob⟩ := hwork .deposited hw (Multiset.mem_singleton_self job)
      exact .deposit w _ job.tx htx hjob
  | settle w stage r h hw =>
      obtain ⟨htx, hjob⟩ := hwork .settled hw
        (Multiset.mem_singleton_self (Job.mk h r.tx))
      exact .settle w _ r.tx htx hjob
  | decline d store rules block plan job rest hcall =>
      obtain ⟨rfl, -, hrest⟩ := hp.eq_starting hcall (by simp)
      obtain rfl := hphase d _ rfl
      have hdeclined := hrest.subset List.mem_cons_self
      have htx := Work.getElem?_of_mem hp.length_le (Work.mem_declined.mp hdeclined).1
      exact .decline _ job.tx htx.2 (Work.disjoint_declined_jobs hdeclined)

/-- A cell that was written has one author, and one that was not has none. -/
inductive Credits (handlers : List (Handler F)) (work : Work F) (c : Nat) (phase : Phase F)
    (p : Pipeline F) (h : Nat) (slot : Slot) : List Actor → Prop
  | blank (hnot : ¬ phase.Written handlers work p h slot) :
      Credits handlers work c phase p h slot []
  | written (author : Actor) (hwritten : phase.Written handlers work p h slot)
      (hauthor : work.Author handlers c h slot author) :
      Credits handlers work c phase p h slot [author]

/-- The actor, if its next move sets this cell. -/
def setBy (h : Nat) (slot : Slot) (p : Pipeline F) (actor : Actor) : List Actor :=
  match p.step? actor with
  | none => []
  | some q => if p.isSet h slot = false ∧ q.isSet h slot = true then [actor] else []

/-- Who sets this cell in a run, in the order in which it is set. -/
def setters (p : Pipeline F) (h : Nat) (slot : Slot) (moves : List (Move F)) : List Actor :=
  p.collect (setBy h slot) moves

theorem setBy_eq_nil (hstep : p.step? actor = some q)
    (hset : q.isSet h slot = true → p.isSet h slot = true) : setBy h slot p actor = [] := by
  rw [setBy, hstep]
  cases hp : p.isSet h slot with
  | true => simp
  | false => simpa [hp] using hset

section Credits

variable {authors : List Actor} (hcredits : Credits handlers work c phase p h slot authors)

include hcredits

theorem Credits.congr (hwritten : phase'.Written handlers work q h slot ↔
    phase.Written handlers work p h slot) :
    Credits handlers work c phase' q h slot authors := by
  cases hcredits with
  | blank hnot => exact .blank (mt hwritten.mp hnot)
  | written author hold hauthor => exact .written author (hwritten.mpr hold) hauthor

/-- As long as no cell counts as emptied that did not before, a cell is credited to the one who
sets it. -/
theorem Credits.fill (hp : p.During calm handlers past work phase)
    (hq : q.During calm handlers past work phase') (hstep : p.step? actor = some q)
    (hphase : ∀ d next, phase = .starting d next → d = c) (hfills : p.Fills actor q)
    (hclears : phase'.Clears handlers work h slot ↔ phase.Clears handlers work h slot) :
    Credits handlers work c phase' q h slot (authors ++ setBy h slot p actor) := by
  obtain ⟨filled, hiff, hwrites⟩ := hfills
  by_cases hfilled : filled = some (h, slot) ∧ p.isSet h slot = false
  · obtain ⟨hfilled, hnot⟩ := hfilled
    have hset : q.isSet h slot = true := (hiff h slot).mpr (.inr hfilled)
    have hblank : ¬ phase.Written handlers work p h slot := by
      rintro (hset' | hcleared)
      · rw [hnot] at hset'
        cases hset'
      · rw [hq.isSet_of_clears (hclears.mpr hcleared)] at hset
        cases hset
    cases hcredits with
    | written author hwritten _ => exact absurd hwritten hblank
    | blank _ =>
        rw [setBy, hstep]
        simp only [hnot, hset, and_self, if_true, List.nil_append]
        exact .written actor (.inl hset) (hp.author hphase (hwrites h slot hfilled))
  · have hsame : q.isSet h slot = true ↔ p.isSet h slot = true := by
      rw [hiff]
      constructor
      · rintro (hset | hset)
        · exact hset
        · simpa [hset] using hfilled
      · exact .inl
    rw [setBy_eq_nil hstep hsame.mp, List.append_nil]
    exact hcredits.congr (or_congr hsame hclears)

theorem Credits.advance (hp : p.During calm handlers past work phase)
    (hq : q.During calm handlers past work phase') (hstep : p.step? actor = some q)
    (hphase : ∀ d next, phase = .starting d next → d = c)
    (hadvance : Advance work past.length p actor q phase phase') :
    Credits handlers work c phase' q h slot (authors ++ setBy h slot p actor) := by
  cases hadvance with
  | thread _ hactor =>
      exact hcredits.fill hp hq hstep hphase (fills_of_stepThread? hactor hstep) Iff.rfl
  | aside _ haside =>
      exact hcredits.fill hp hq hstep hphase (.of_eq haside.stations_eq) Iff.rfl
  | start i next next' hactor hmove hnext =>
      subst hactor
      refine hcredits.fill hp hq hstep hphase (fills_of_stepStart? hp.call_eq hmove) ?_
      simp only [Phase.not_clears_starting]
  | activate i plan haside hreturned =>
      refine hcredits.fill hp hq hstep hphase (.of_eq haside.stations_eq) ?_
      simp only [Phase.not_clears_starting, iff_false]
      cases slot <;> simp [Phase.Clears, Phase.berth, Berth.Clears]
  | take f store block receipts haside =>
      refine hcredits.fill hp hq hstep hphase (.of_eq haside.stations_eq) ?_
      cases slot <;> simp [Phase.Clears, Phase.berth, Finishing.berth, Berth.Clears]
  | finish f origin store store' block receipts next next' hactor hmove hnext =>
      obtain ⟨hwritten, hset⟩ := hp.written_finish hmove hnext h slot
      rw [setBy_eq_nil hstep hset, List.append_nil]
      exact hcredits.congr hwritten

end Credits

/-! ## In a run -/

theorem Between.isSet_eq_false (hp : p.Between calm handlers past) (h : Nat) (slot : Slot) :
    p.isSet h slot = false := by
  by_contra hset
  obtain ⟨s, hs, hset⟩ := exists_of_isSet (by simpa using hset)
  rw [(hp.stations h s hs).1.isSet_eq] at hset
  cases hset

theorem During.isSet_eq_false {d : Nat} {plan : Plan}
    (hp : p.During calm handlers past work (.starting d (.opening plan 0))) (h : Nat)
    (slot : Slot) : p.isSet h slot = false := by
  by_contra hset
  obtain ⟨s, hs, hset⟩ := exists_of_isSet (by simpa using hset)
  have hfits := hp.stations h s hs
  simp only [Phase.berth, Starting.berth, Nat.not_lt_zero, if_false] at hfits
  rw [hfits.1.isSet_eq] at hset
  cases hset

/-- Whoever has set a cell since the block came into work is its only author. -/
theorem carries_credits (calm : Prop) (handlers : List (Handler F)) (work : Work F) (c h : Nat)
    (slot : Slot) : Carries calm handlers work c (setBy h slot) fun _ phase p authors =>
      (∀ d next, phase = .starting d next → d = c) ∧
        Credits handlers work c phase p h slot authors where
  rest := by
    intro past p actor q hp hgoes hstep
    refine setBy_eq_nil hstep fun hset => ?_
    rcases hp.step? hgoes hstep with ⟨hq, -⟩ | ⟨d, store, rules, block, plan, -, -, hq⟩
    · rw [hq.isSet_eq_false] at hset
      cases hset
    · rw [hq.isSet_eq_false] at hset
      cases hset
  begin := by
    intro past p plan hp
    refine ⟨?_, .blank ?_⟩
    · rintro d next ⟨⟩
      rfl
    · rintro (hset | hclears)
      · rw [hp.isSet_eq_false] at hset
        cases hset
      · exact Phase.not_clears_starting hclears
  invoke := fun _ hcredits => hcredits.imp_right fun hcredits => hcredits.congr Iff.rfl
  advance := by
    rintro past phase phase' p actor q authors hp hq - hstep hadvance ⟨hphase, hcredits⟩
    refine ⟨?_, hcredits.advance hp hq hstep hphase hadvance⟩
    cases hadvance with
    | thread => exact hphase
    | aside => exact hphase
    | start i next next' =>
        rintro d other ⟨⟩
        exact hphase i next rfl
    | activate | take | finish =>
        rintro d other ⟨⟩

theorem Credits.length_le {authors : List Actor}
    (hcredits : Credits handlers work c phase p h slot authors) : authors.length ≤ 1 := by
  cases hcredits with
  | blank _ => exact Nat.zero_le 1
  | written _ _ _ => exact le_rfl

/-- When the last station is closed, every cell that was to be written has its author. -/
theorem Credits.of_leaving {f : Nat} {origin store : F.Store} {block : Block}
    {receipts : List Receipt} {active : ActiveBlock} {kept : Option Fault} {authors : List Actor}
    (hp : p.During calm handlers past work
      (.finishing f origin store block receipts (.leaving active kept)))
    (hcredits : Credits handlers work c
      (.finishing f origin store block receipts (.leaving active kept)) p h slot authors) :
    (work.Requires handlers h slot → ∃ author, authors = [author] ∧
        work.Author handlers c h slot author) ∧
      (¬ work.Requires handlers h slot → authors = []) := by
  have hlt (hrequires : work.Requires handlers h slot) : h < handlers.length := by
    cases slot with
    | data i =>
        obtain ⟨tx, -, hjob⟩ := hrequires
        exact Work.lt_of_mem_jobs hp.accepted hjob
    | result i => exact hrequires.1
    | common => exact hrequires
    | aggregated => exact hrequires
  cases hcredits with
  | blank hnot =>
      refine ⟨fun hrequires => ?_, fun _ => rfl⟩
      exact absurd (.inr ⟨hlt hrequires, hrequires⟩) hnot
  | written author hwritten hauthor =>
      refine ⟨fun _ => ⟨author, rfl, hauthor⟩, fun hnot => ?_⟩
      rcases hwritten with hset | hclears
      · exact absurd (hp.requires_of_isSet hset) hnot
      · exact absurd hclears.2 hnot

end Pipeline

end TxPipeline
