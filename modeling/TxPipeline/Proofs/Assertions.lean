import TxPipeline.Proofs.Writes

/-!
# No assertion is reached

In a clean run nothing goes wrong but in `prefetch` and `process`. No write finds a cell that is set
or missing, no aggregation misses the completion stream of its block, no worker ends before the
pools are closed, and the answers of calls tell of no other fault.
-/

namespace TxPipeline

variable {F : Flow} {handlers : List (Handler F)} {past : List (Work F)} {work : Work F}
  {phase : Phase F} {p q r b : Pipeline F} {actor : Actor} {c h : Nat} {s : Station F}

/-! ## What can go wrong -/

/-- Whether `prefetch` or `process` of a handler can raise this fault. -/
def Handler.Raises (handler : Handler F) (fault : Fault) : Prop :=
  (∃ store tx common, handler.prefetch store tx common = .error fault) ∨
    ∃ store tx common data, handler.process store tx common data = .error fault

/-- An answer tells of no fault but those of `prefetch` and `process`. -/
def Answer.IsTame (handlers : List (Handler F)) : Answer F → Prop
  | .started (.error (.fault _)) => False
  | .finished (some fault) _ => ∃ handler ∈ handlers, handler.Raises fault
  | _ => True

/-- No thread of the station has ended with a fault, and none is about to look beyond the cells. -/
structure Station.Sound (s : Station F) : Prop where
  preparations : ∀ l ∈ s.lanes, ∀ fault, l.preparation ≠ .dead fault
  aggregations : ∀ l ∈ s.lanes, ∀ fault, l.aggregation ≠ .dead fault
  replays : ∀ l ∈ s.lanes, ∀ i, l.replay = .reading i →
    i < s.blockLength ∧ i < s.results.length

/-- Nothing has gone wrong but in `prefetch` and `process`. -/
structure Pipeline.Sound (handlers : List (Handler F)) (p : Pipeline F) : Prop where
  workers : ∀ worker ∈ p.workers, ∀ fault, worker.activity ≠ .dead fault
  stations : ∀ s ∈ p.stations, s.Sound
  drains : ∀ (f : Nat) (store : F.Store) (block : Block) (receipts : List Receipt)
    (active : ActiveBlock) (h i length : Nat) (kept : Option Fault),
    p.calls[f]? = some (.finish store block receipts (.draining active h i length kept)) →
    i < length → ∃ s : Station F, p.stations[h]? = some s ∧ i < s.results.length
  answers : ∀ (c : Nat) (answer : Answer F), p.calls[c]? = some (.returned answer) →
    answer.IsTame handlers

/-! ## Stations -/

theorem Lane.Done.ne_reading {i : Nat} {l : Lane F} (hl : l.Done handlers h work) :
    l.replay ≠ .reading i := by
  rw [hl.replay]
  simp

theorem Aggregates.lt_of_reading {calm : Prop} {progress : Progress} {lane i : Nat}
    {receiver : Option Nat} {aggregated : Option F.Aggregate} {l : Lane F}
    {aggregation : Aggregation F}
    (ha : Aggregates calm handlers work h progress lane receiver aggregated l aggregation)
    (hreading : l.replay = .reading i) : i < work.block.length := by
  have huntouched (hu : l.Untouched) : i < work.block.length := by
    rw [hu.replay] at hreading
    cases hreading
  have hreads {reader : Reader (TxResult F.Output) F.Aggregate}
      (hr : l.Reads handlers work h reader) : i < work.block.length := by
    have hreplays := hr.replays
    rw [hreading] at hreplays
    cases hreplays with
    | reading _ hi _ => simpa using hi
  cases ha with
  | idle _ _ _ _ hu => exact huntouched hu
  | claiming _ _ _ _ hu => exact huntouched hu
  | gathering _ _ _ _ hu => exact huntouched hu
  | reading _ _ _ _ _ _ hr => exact hreads hr
  | joining _ _ _ _ _ hr => exact hreads hr
  | ended _ _ _ _ _ hr => exact hreads hr
  | dead _ hcalm _ _ _ _ _ hr => exact hreads hr

theorem Station.sound_of_done {works : List (Work F)}
    (hdone : List.Forall₂ (Lane.Done handlers h) works s.lanes) : s.Sound := by
  have hlane {l : Lane F} (hl : l ∈ s.lanes) : ∃ work, l.Done handlers h work := by
    obtain ⟨i, hi⟩ := List.mem_iff_getElem?.mp hl
    exact exists_done_of_getElem? hdone hi
  refine ⟨fun l hl fault => ?_, fun l hl fault => ?_, fun l hl i hreading => ?_⟩
  · obtain ⟨work, hl⟩ := hlane hl
    rw [hl.preparation]
    simp
  · obtain ⟨work, hl⟩ := hlane hl
    rw [hl.aggregation]
    simp
  · obtain ⟨work, hl⟩ := hlane hl
    exact absurd hreading hl.ne_reading

theorem Station.Fits.sound {due : Checkpoint → Multiset Job} {berth : Berth}
    (hs : s.Fits True handlers past work h due berth) : s.Sound := by
  cases berth with
  | unopened => exact sound_of_done hs.2
  | closed => exact sound_of_done hs.2
  | serving progress =>
      obtain ⟨old, l, hlanes, hold, hserves⟩ := hs
      have hlast {other : Lane F} (hmem : other ∈ s.lanes) :
          other = l ∨ ∃ work, other.Done handlers h work := by
        rw [hlanes, List.mem_append, List.mem_singleton] at hmem
        refine hmem.symm.imp_right fun hmem => ?_
        obtain ⟨i, hi⟩ := List.mem_iff_getElem?.mp hmem
        exact exists_done_of_getElem? hold hi
      refine ⟨fun other hmem fault hdead => ?_, fun other hmem fault hdead => ?_,
        fun other hmem i hreading => ?_⟩
      · rcases hlast hmem with rfl | ⟨work, hdone⟩
        · have hprepares := hserves.prepares
          rw [hdead] at hprepares
          cases hprepares with
          | dead _ hcalm => exact hcalm trivial
        · rw [hdone.preparation] at hdead
          cases hdead
      · rcases hlast hmem with rfl | ⟨work, hdone⟩
        · have haggregates := hserves.aggregates
          rw [hdead] at haggregates
          cases haggregates with
          | dead _ hcalm => exact hcalm trivial
        · rw [hdone.aggregation] at hdead
          cases hdead
      · rcases hlast hmem with rfl | ⟨work, hdone⟩
        · have hlt := hserves.aggregates.lt_of_reading hreading
          rw [hserves.length_eq]
          exact ⟨hlt, Nat.lt_of_lt_of_le hlt hserves.settled.length_le⟩
        · exact absurd hreading hdone.ne_reading

/-! ## Answers -/

theorem Work.Raises.exists_handler {job : Job} {fault : Fault}
    (hraises : work.Raises handlers job fault) :
    ∃ handler ∈ handlers, handler.Raises fault := by
  rcases hraises with hfault | hfault
  · obtain ⟨handler, common, hhandler, -, herror⟩ := exists_of_prefetchFault hfault
    exact ⟨handler, List.mem_of_getElem? hhandler, .inl ⟨_, _, _, herror⟩⟩
  · obtain ⟨handler, common, data, hhandler, -, -, herror⟩ := exists_of_processFault hfault
    exact ⟨handler, List.mem_of_getElem? hhandler, .inr ⟨_, _, _, _, herror⟩⟩

theorem Work.Collects.isTame {fault : Option Fault} {k : Nat} (store : F.Store)
    (hcollects : work.Collects handlers k fault) :
    (Answer.finished fault store).IsTame handlers := by
  cases fault with
  | none => exact trivial
  | some fault =>
      obtain ⟨job, -, -, hraises, -⟩ := hcollects.raised fault rfl
      exact hraises.exists_handler

namespace Pipeline

section Answers

variable {answer : Answer F}

theorem tame_of_stepStart? {store : F.Store} {rules : Rules} {block : Block} {next : Starting}
    (hnext : next = .acquire ∨ next = .enter ∨ next = .scan)
    (hcall : p.calls[c]? = some (.start store rules block next))
    (hraises : p.raises (.caller c) = false)
    (hstep : p.stepStart? c store rules block next = some q)
    (hreturned : q.calls[c]? = some (.returned answer)) : answer.IsTame handlers := by
  have heq {call : Call F} (hcalls : q.calls = p.calls.set c call) : call = .returned answer :=
    eq_of_set_calls hcall hcalls hreturned
  cases startMove_of_stepStart? hstep with
  | refuse | closed | scanError =>
      cases heq rfl
      exact trivial
  | acquire | enter | scan => cases heq rfl
  | scanFault fault tx ledger log hscan => simp [raises, callRaises, hcall, hscan] at hraises
  | _ => rcases hnext with h | h | h <;> cases h

theorem tame_of_stepClose? {next : Closing} (hcall : p.calls[c]? = some (.close next))
    (hclose : p.stepClose? c next = some q) (hreturned : q.calls[c]? = some (.returned answer)) :
    answer.IsTame handlers := by
  obtain ⟨call, hturns, hcalls⟩ := turns_of_stepClose? hclose
  rw [getElem?_of_set_calls hcall hcalls] at hreturned
  cases hreturned
  cases hturns
  exact trivial

theorem Between.tame_of_stepCall? (hp : p.Between True handlers past)
    (hraises : p.raises (.caller c) = false) (hstep : p.stepCall? c = some q)
    (hreturned : q.calls[c]? = some (.returned answer)) : answer.IsTame handlers := by
  cases callMove_of_stepCall? hstep with
  | start store rules block next hcall hstart =>
      refine tame_of_stepStart? ?_ hcall hraises hstart hreturned
      by_cases hnext : next = .acquire
      · exact .inl hnext
      · exact .inr ((hp.enters_of_call hcall hnext).next_eq.imp_right And.left)
  | finish store block receipts next hcall hfinish =>
      obtain ⟨rfl, hactive⟩ := hp.eq_take hcall
      cases finishMove_of_stepFinish? hfinish with
      | miss =>
          rw [getElem?_of_set_calls hcall rfl] at hreturned
          cases hreturned
          exact trivial
      | take _ _ hsome | mismatch _ _ hsome =>
          rw [hactive] at hsome
          cases hsome
  | close next hcall hclose => exact tame_of_stepClose? hcall hclose hreturned

theorem During.tame_of_stepCall? (hp : p.During True handlers past work phase)
    (hon : phase.isOn = true) (hraises : p.raises (.caller c) = false)
    (hstep : p.stepCall? c = some q) (hreturned : q.calls[c]? = some (.returned answer)) :
    answer.IsTame handlers := by
  have hgoes : p.Proceeds True (.caller c) := .of_clean hraises
  cases callMove_of_stepCall? hstep with
  | start store rules block next hcall hstart =>
      by_cases hnext : next = .acquire
      · exact tame_of_stepStart? (.inl hnext) hcall hraises hstart hreturned
      obtain ⟨rfl, -⟩ := hp.eq_starting hcall hnext
      have hsame := hp.call_eq
      rw [hcall] at hsame
      cases hsame
      rcases hp.stepStart? hstart with ⟨next', hq⟩ | ⟨hq, hreturned'⟩
      · have hsame := hq.call_eq
        rw [hreturned] at hsame
        cases hsame
      · rw [hreturned] at hreturned'
        cases hreturned'
        exact trivial
  | finish store block receipts next hcall hfinish =>
      rcases hp.eq_finishing hcall with ⟨rfl, rfl | ⟨_, _, rfl⟩⟩ | ⟨origin, rfl⟩
      · have hsame := (hp.take hcall hfinish).finish_eq
        rw [hreturned] at hsame
        cases hsame
      · cases hon
      · rcases hp.stepFinish? hgoes hfinish with
          ⟨made, next', hq⟩ | ⟨-, _, _, -, hfinished, -, hrest⟩
        · have hsame := hq.finish_eq
          rw [hreturned] at hsame
          cases hsame
        · rw [hreturned] at hfinished
          cases hfinished
          exact hrest.isTame _
  | close next hcall hclose => exact tame_of_stepClose? hcall hclose hreturned

end Answers

/-! ## In every state -/

/-- The answers that a state tells of are tame if those of the calls are that have just returned. -/
theorem tame_of_step? (hstep : p.step? actor = some q)
    (hp : ∀ (c : Nat) (answer : Answer F), p.calls[c]? = some (.returned answer) →
      answer.IsTame handlers)
    (hnew : ∀ (c : Nat) (answer : Answer F), p.stepCall? c = some q →
      q.calls[c]? = some (.returned answer) → actor = .caller c → answer.IsTame handlers)
    (c : Nat) (answer : Answer F) (hreturned : q.calls[c]? = some (.returned answer)) :
    answer.IsTame handlers := by
  by_cases hactor : actor = .caller c
  · subst hactor
    exact hnew c answer hstep hreturned rfl
  · exact hp c answer ((getElem?_calls_of_step? hstep hactor).symm.trans hreturned)

theorem Chronicle.tame_of_step? {ts : List (Task F)} (hq : Chronicle True handlers ts p)
    (hraises : p.raises actor = false) (hstep : p.step? actor = some q)
    (hp : ∀ (c : Nat) (answer : Answer F), p.calls[c]? = some (.returned answer) →
      answer.IsTame handlers)
    (c : Nat) (answer : Answer F) (hreturned : q.calls[c]? = some (.returned answer)) :
    answer.IsTame handlers := by
  refine Pipeline.tame_of_step? hstep hp ?_ c answer hreturned
  rintro c answer hcall hreturned rfl
  cases hq with
  | between past hp hover => exact hp.tame_of_stepCall? hraises hcall hreturned
  | starting past work d next hp htask hover =>
      exact hp.tame_of_stepCall? rfl hraises hcall hreturned
  | started past work phase d hp hphase htask hstarted hover =>
      exact hp.tame_of_stepCall? (Phase.isOn_of_isAttended hphase) hraises hcall hreturned

theorem During.sound (hp : p.During True handlers past work phase)
    (hanswers : ∀ (c : Nat) (answer : Answer F), p.calls[c]? = some (.returned answer) →
      answer.IsTame handlers) : p.Sound handlers where
  workers := hp.crew.alive
  stations := by
    intro s hs
    obtain ⟨h, hs⟩ := List.mem_iff_getElem?.mp hs
    exact (hp.stations h s hs).sound
  drains := by
    intro f store block receipts active h i length kept hcall hlt
    rcases hp.eq_finishing hcall with ⟨hnext, -⟩ | ⟨origin, rfl⟩
    · cases hnext
    obtain ⟨-, hh, -, rfl, -⟩ := hp.finish_valid
    obtain ⟨s, hs, -⟩ := hp.exists_station hh
    have hfits := hp.stations h s hs
    simp only [Phase.berth, Finishing.berth, Nat.lt_irrefl, if_false] at hfits
    obtain ⟨old, l, -, -, hserves⟩ := hfits
    exact ⟨s, hs, Nat.lt_of_lt_of_le hlt hserves.settled.length_le⟩
  answers := hanswers

theorem Between.sound (hp : p.Between True handlers past)
    (hanswers : ∀ (c : Nat) (answer : Answer F), p.calls[c]? = some (.returned answer) →
      answer.IsTame handlers) : p.Sound handlers where
  workers := hp.crew.alive
  stations := by
    intro s hs
    obtain ⟨h, hs⟩ := List.mem_iff_getElem?.mp hs
    exact Station.sound_of_done (hp.stations h s hs).2
  drains := by
    intro f store block receipts active h i length kept hcall
    cases (hp.eq_take hcall).1
  answers := hanswers

variable {config : Config} {registry : Registry F} {moves before : List (Move F)}

/-- Every state of a clean run is sound. -/
theorem sound_of_cleanRun? (hcreate : create config registry = .ok p)
    (hrun : p.cleanRun? moves = some q) : q.Sound registry.handlers := by
  have hanswers : ∀ (c : Nat) (answer : Answer F), q.calls[c]? = some (.returned answer) →
      answer.IsTame registry.handlers := by
    refine cleanRun?_induction (P := fun _ q => ∀ (c : Nat) (answer : Answer F),
      q.calls[c]? = some (.returned answer) → answer.IsTame registry.handlers) hrun ?_ ?_ ?_ ?_
    · intro c answer hreturned
      simp [calls_create hcreate] at hreturned
    · intro moves q task _ ih _ c answer hreturned
      rcases getElem?_of_invoke hreturned with hreturned | ⟨-, heq⟩
      · exact ih c answer hreturned
      · cases task <;> cases heq
    · intro moves q actor next hrun ih hraises hstep
      exact (Chronicle.of_cleanRun? hcreate hrun).tame_of_step? hraises hstep ih
    · intro moves q d reason next _ ih hdeny c answer hreturned
      by_cases hd : c = d
      · subst hd
        rw [getElem?_of_deny? hdeny] at hreturned
        cases hreturned
        exact trivial
      · exact ih c answer ((getElem?_calls_of_deny? hdeny hd).symm.trans hreturned)
  cases Chronicle.of_cleanRun? hcreate hrun with
  | between past hq hover => exact hq.sound hanswers
  | starting past work c next hq htask hover => exact hq.sound hanswers
  | started past work phase c hq hphase htask hstarted hover => exact hq.sound hanswers

/-- Between two blocks every cell is empty. -/
theorem isSet_eq_false_of_quiet (hcreate : create config registry = .ok p)
    (hrun : p.cleanRun? moves = some q) (hquiet : q.isQuiet = true) (hactive : q.active = none)
    (h : Nat) (slot : Slot) : q.isSet h slot = false := by
  cases Chronicle.of_cleanRun? hcreate hrun with
  | between past hq hover => exact hq.isSet_eq_false h slot
  | starting past work c next hq htask hover => exact absurd hquiet hq.not_quiet
  | started past work phase c hq hphase htask hstarted hover =>
      obtain rfl := hq.eq_started hphase hquiet
      have hsome := hq.calls.active_eq
      rw [hactive] at hsome
      cases hsome

/-- Nothing goes wrong in a clean run but in `prefetch` and `process`, and between two blocks all
cells are empty. While the block that a call asks for is in work, each cell was set at most once
since that call. With the move by which the block is done, each cell that was to be written was set
exactly once, by a thread that is to write it, and no other cell was set. -/
theorem written_once (work : Work F) (hcreate : create config registry = .ok p)
    (hbefore : p.cleanRun? before = some b)
    (hrun : b.cleanRun? (.call work.task :: moves) = some q) :
    q.Sound registry.handlers ∧
    (q.isQuiet = true → q.active = none → ∀ h slot, q.isSet h slot = false) ∧
    (q.InWork b.calls.length → ∀ h slot,
      ((b.invoke work.task).setters h slot moves).length ≤ 1 ∧
      ∀ actor r, q.raises actor = false → q.step? actor = some r → r.Over b.calls.length →
        (work.Requires registry.handlers h slot → ∃ author,
          (b.invoke work.task).setters h slot (moves ++ [.act actor]) = [author] ∧
          work.Author registry.handlers b.calls.length h slot author) ∧
        (¬ work.Requires registry.handlers h slot →
          (b.invoke work.task).setters h slot (moves ++ [.act actor]) = [])) := by
  have hwhole : p.cleanRun? (before ++ .call work.task :: moves) = some q := by
    rw [cleanRun?_append, hbefore, Option.bind_some, hrun]
  refine ⟨sound_of_cleanRun? hcreate hwhole,
    fun hquiet hactive => isSet_eq_false_of_quiet hcreate hwhole hquiet hactive, ?_⟩
  intro hwork h slot
  obtain ⟨past, phase, hq, hon, -, hcredits⟩ := (Course.of_cleanRun?
    (carries_credits True registry.handlers work b.calls.length h slot)
    (Chronicle.of_cleanRun? hcreate hbefore) hrun).exists_reading hwork
  refine ⟨hcredits.length_le, ?_⟩
  intro actor r hraises hstep hover
  obtain ⟨-, ⟨f, origin, store, block, receipts, active, kept, rfl, -⟩, hstations⟩ :=
    hq.departs hon (.of_clean hraises) hstep hwork.2 hover
  have hlast : (b.invoke work.task).setters h slot (moves ++ [.act actor]) =
      (b.invoke work.task).setters h slot moves := by
    have hinvoked : (b.invoke work.task).run? moves = some q := by
      simpa [run?, move?] using run?_of_cleanRun? hrun
    rw [setters, collect_act hinvoked, setBy_eq_nil hstep fun hset => ?_, List.append_nil, setters]
    rwa [isSet, hstations] at hset
  rw [hlast]
  exact hcredits.of_leaving hq

open Sample in
/-- When `pair` is done, the result of its second transaction was written by the call that declined
it, and nothing was prefetched for it. -/
theorem written_once_finished : ∃ q r,
    (ofConfig oneEach adders).cleanRun?
      (.call (.start (3 : Nat) .latest pair) :: finished.tail.dropLast) = some q ∧
    q.InWork 0 ∧ q.step? (.caller 1) = some r ∧ r.Over 0 ∧ q.Sound adders.handlers ∧
    ((ofConfig oneEach adders).invoke (.start (3 : Nat) .latest pair)).setters 0 (.result 1)
      finished.tail = [.caller 0] ∧
    ((ofConfig oneEach adders).invoke (.start (3 : Nat) .latest pair)).setters 0 (.data 1)
      finished.tail = [] := by
  obtain ⟨q, hrun, hwork, hraises, r, hstep, hover⟩ : ∃ q, (ofConfig oneEach adders).cleanRun?
      (.call (.start (3 : Nat) .latest pair) :: finished.tail.dropLast) = some q ∧ q.InWork 0 ∧
        q.raises (.caller 1) = false ∧ ∃ r, q.step? (.caller 1) = some r ∧ r.Over 0 := by
    decide +kernel
  have hmoves : finished.tail.dropLast ++ [.act (.caller 1)] = finished.tail :=
    List.dropLast_append_getLast? _ rfl
  have hcreate : create oneEach adders = .ok (ofConfig oneEach adders) := rfl
  have hbefore : (ofConfig oneEach adders).cleanRun? [] = some (ofConfig oneEach adders) := rfl
  obtain ⟨hsound, -, hcells⟩ :=
    written_once (⟨(3 : Nat), .latest, pair⟩ : Work flow) hcreate hbefore hrun
  have hcells := hcells hwork
  refine ⟨q, r, hrun, hwork, hstep, hover, hsound, ?_, ?_⟩
  · have hrequires : Work.Requires adders.handlers ⟨(3 : Nat), .latest, pair⟩ 0 (.result 1) :=
      ⟨by decide, by decide⟩
    obtain ⟨author, hset, hauthor⟩ := ((hcells 0 (.result 1)).2 _ r hraises hstep hover).1 hrequires
    rw [hmoves] at hset
    cases hauthor with
    | decline i tx htx hdeclined => exact hset
    | settle w i tx htx hjob =>
        cases htx
        exact absurd hjob (by decide +kernel)
  · have hspared : ¬ Work.Requires adders.handlers ⟨(3 : Nat), .latest, pair⟩ 0 (.data 1) := by
      rintro ⟨tx, htx, hjob⟩
      cases htx
      exact absurd hjob (by decide +kernel)
    have hset := ((hcells 0 (.data 1)).2 _ r hraises hstep hover).2 hspared
    rwa [hmoves] at hset

end Pipeline

end TxPipeline
