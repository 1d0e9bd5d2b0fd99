import Mathlib.Data.List.Forall2
import TxPipeline.Proofs.Load
import TxPipeline.Proofs.Run
import TxPipeline.Proofs.Station.Moves

/-!
# What a move does to stations

A move either does nothing to a station, or it is one of the things that can be done to one.
Whatever all of these keep holds of every station in every run.
-/

namespace TxPipeline

variable {F : Flow}

/-- What can be done to a station that no thread of its lanes notices, unless it looks at the cells
or at the completion stream. -/
inductive Station.Edits : Station F → Station F → Prop
  | stay (s : Station F) : Edits s s
  | announce {s s' : Station F} (r : TxResult F.Output) (h : s.announce r = .ok s') : Edits s s'
  | settle {s s' : Station F} (r : TxResult F.Output) (h : s.settle r = .ok s') : Edits s s'
  | deposit {s s' : Station F} (i : Nat) (data : Option F.Data) (h : s.deposit i data = .ok s') :
      Edits s s'
  | keep (s : Station F) (fault : Fault) : Edits s (s.keep fault)
  | drain {s s' : Station F} (i : Nat) (h : s.drain? i = some s') : Edits s s'
  | takeAggregate {s s' : Station F} (a : F.Aggregate) (h : s.takeAggregate? = some (a, s')) :
      Edits s s'
  | closeBlock (s : Station F) : Edits s s.closeBlock

/-- What one move can make of a station. -/
inductive Station.Turns : Station F → Station F → Prop
  | edit {s s' : Station F} (h : s.Edits s') : Turns s s'
  | openBlock (s : Station F) (n : Nat) : Turns s (s.openBlock n)
  | prepare (s : Station F) (lane : Nat) (store : F.Store) (rules : Rules) (block : Block) :
      Turns s (s.prepare lane store rules block)
  | aggregate (s : Station F) (lane : Nat) : Turns s (s.aggregate lane)
  | preparation {s s' : Station F} (lane : Nat) (h : s.stepPreparation? lane = some s') : Turns s s'
  | replay {s s' : Station F} (lane : Nat) (h : s.stepReplay? lane = some s') : Turns s s'
  | aggregation {s s' : Station F} (lane : Nat) (h : s.stepAggregation? lane = some s') : Turns s s'

theorem map_modify_of_eq {α β : Type} {f : α → β} {g : α → α} (hg : ∀ a, f (g a) = f a)
    (l : List α) (i : Nat) : (l.modify i g).map f = l.map f := by
  cases hl : l[i]? with
  | none => rw [List.modify_eq_self (List.getElem?_eq_none_iff.mp hl)]
  | some a => rw [modify_eq_set hl, map_set_of_eq hl (hg a)]

namespace Station

variable {s s' : Station F}

/-- Each way to edit a station leaves the handler alone, and of the lanes whatever does not depend
on what was announced. -/
theorem Edits.map_lanes {α : Type} (h : s.Edits s') (f : Lane F → α)
    (hf : ∀ (l : Lane F) (completions : Stream (TxResult F.Output)),
      f { l with completions := completions } = f l) :
    s'.handler = s.handler ∧ s'.lanes.map f = s.lanes.map f := by
  cases h with
  | stay => exact ⟨rfl, rfl⟩
  | keep fault => exact ⟨rfl, rfl⟩
  | closeBlock => exact ⟨rfl, rfl⟩
  | announce r h =>
      obtain ⟨-, lanes, rfl, ⟨-, rfl⟩ | ⟨lane, -, rfl⟩⟩ := eq_of_announce h
      · exact ⟨rfl, rfl⟩
      · exact ⟨rfl, map_modify_of_eq (fun l => hf l _) _ _⟩
  | settle r h =>
      obtain ⟨cell, cell', -, -, rfl⟩ := eq_of_settle h
      exact ⟨rfl, rfl⟩
  | deposit i data h =>
      obtain ⟨cell, cell', -, -, rfl⟩ := eq_of_deposit h
      exact ⟨rfl, rfl⟩
  | drain i h =>
      obtain ⟨cell, r, cell', -, -, rfl⟩ := eq_of_drain? h
      exact ⟨rfl, rfl⟩
  | takeAggregate a h =>
      obtain ⟨cell, -, rfl⟩ := eq_of_takeAggregate? h
      exact ⟨rfl, rfl⟩

theorem Turns.handler_eq (h : s.Turns s') : s'.handler = s.handler := by
  cases h with
  | edit h => exact (h.map_lanes (fun _ => ()) fun _ _ => rfl).1
  | openBlock n => rfl
  | prepare lane store rules block => rfl
  | aggregate lane => rfl
  | preparation lane h => cases preparationMove_of_stepPreparation? h <;> rfl
  | replay lane h => cases replayMove_of_stepReplay? h <;> rfl
  | aggregation lane h =>
      cases aggregationMove_of_stepAggregation? h with
      | read l feed source reader hl hreading hfeed hmove => cases hmove <;> rfl
      | _ => rfl

end Station

namespace Pipeline

variable {p q : Pipeline F} {c w h : Nat}

/-- Every station of `after` is the station of `before` in its place, edited. -/
def Edited (before after : List (Station F)) : Prop := List.Forall₂ Station.Edits before after

/-- Every station of `after` is what became of the station of `before` in its place. -/
def Evolves (before after : List (Station F)) : Prop := List.Forall₂ Station.Turns before after

theorem forall₂_set {α : Type} {R : α → α → Prop} (hrefl : ∀ a, R a a) {l : List α} {i : Nat}
    {a b : α} (ha : l[i]? = some a) (hab : R a b) : List.Forall₂ R l (l.set i b) := by
  refine List.forall₂_iff_get.mpr ⟨List.length_set.symm, ?_⟩
  intro j hj hj'
  simp only [List.get_eq_getElem, List.getElem_set]
  split
  · rename_i heq
    subst heq
    obtain rfl : l[i] = a := (List.getElem?_eq_some_iff.mp ha).2
    exact hab
  · exact hrefl _

theorem Edited.refl (stations : List (Station F)) : Edited stations stations :=
  List.forall₂_same.mpr fun s _ => .stay s

theorem Edited.set {stations : List (Station F)} {s s' : Station F}
    (hs : stations[h]? = some s) (hedits : s.Edits s') : Edited stations (stations.set h s') :=
  forall₂_set .stay hs hedits

theorem Edited.evolves {before after : List (Station F)} (h : Edited before after) :
    Evolves before after :=
  List.Forall₂.imp (fun _ _ => .edit) h

theorem Evolves.refl (stations : List (Station F)) : Evolves stations stations :=
  (Edited.refl stations).evolves

theorem Evolves.set {stations : List (Station F)} {s s' : Station F}
    (hs : stations[h]? = some s) (hturns : s.Turns s') : Evolves stations (stations.set h s') :=
  forall₂_set (fun s => .edit (.stay s)) hs hturns

theorem Evolves.map (stations : List (Station F)) {f : Station F → Station F}
    (hf : ∀ s : Station F, s.Turns (f s)) : Evolves stations (stations.map f) :=
  List.forall₂_map_right_iff.mpr (List.forall₂_same.mpr fun s _ => hf s)

theorem edited_of_advance {s : Station F} {outcome : Except Fault (Station F)}
    (hs : p.stations[h]? = some s) (hedits : ∀ s', outcome = .ok s' → s.Edits s')
    (activity : Activity F) : Edited p.stations (p.advance w h outcome activity).stations := by
  cases outcome with
  | ok s' => exact .set hs (hedits s' rfl)
  | error fault => exact .refl _

theorem edited_of_work? (hstep : p.work? w = some q) : Edited p.stations q.stations := by
  obtain ⟨⟨stage, activity⟩, -, hmove⟩ := workMove_of_work? hstep
  cases hmove with
  | prefetchFault job common s store fault hs => exact .set hs (.keep s _)
  | processFault job common data s store fault hs => exact .set hs (.keep s _)
  | prefetchDeposit job data s hs => exact edited_of_advance hs (fun _ h => .deposit _ _ h) _
  | processAnnounce r h s hs => exact edited_of_advance hs (fun _ h => .announce _ h) _
  | processSettle r h s hs => exact edited_of_advance hs (fun _ h => .settle _ h) _
  | _ => exact .refl _

theorem evolves_of_stepStart? {store : F.Store} {rules : Rules} {block : Block} {next : Starting}
    (hstep : p.stepStart? c store rules block next = some q) : Evolves p.stations q.stations := by
  cases startMove_of_stepStart? hstep with
  | openStation plan h s hs => exact .set hs (.openBlock s _)
  | prepare plan => exact .map _ fun s => .prepare s _ _ _ _
  | announce plan job rest s s' hs hannounce => exact .set hs (.edit (.announce _ hannounce))
  | settle plan job rest s s' hs hsettle => exact .set hs (.edit (.settle _ hsettle))
  | dispatch plan => exact .map _ fun s => .aggregate s _
  | _ => exact .refl _

theorem edited_of_stepFinish? {store : F.Store} {block : Block} {receipts : List Receipt}
    {next : Finishing} (hstep : p.stepFinish? c store block receipts next = some q) :
    Edited p.stations q.stations := by
  cases finishMove_of_stepFinish? hstep with
  | concludeFault active h s s' a fault store' hs htake hafter =>
      exact .set hs (.takeAggregate a htake)
  | conclude active h s s' a store' hs htake hafter => exact .set hs (.takeAggregate a htake)
  | drain active h i length kept s s' hlt hs hdrain => exact .set hs (.drain i hdrain)
  | closeStation active h kept s hs => exact .set hs (.closeBlock s)
  | _ => exact .refl _

theorem evolves_of_stepStation? {move : Station F → Option (Station F)}
    (hstep : p.stepStation? h move = some q)
    (hmove : ∀ s s', move s = some s' → s.Turns s') : Evolves p.stations q.stations := by
  obtain ⟨s, s', hs, hs', rfl⟩ := eq_of_stepStation? hstep
  exact .set hs (hmove s s' hs')

/-- Whoever moves, each station stays or turns into what one operation makes of it. -/
theorem evolves_of_step? {actor : Actor} (hstep : p.step? actor = some q) :
    Evolves p.stations q.stations := by
  cases actor with
  | caller c =>
      cases callMove_of_stepCall? hstep with
      | start store rules block next hcall hstart => exact evolves_of_stepStart? hstart
      | finish store block receipts next hcall hfinish =>
          exact (edited_of_stepFinish? hfinish).evolves
      | close next hcall hclose =>
          obtain ⟨isOpen, poolSenders, calls, log, rfl⟩ := eq_of_stepClose? hclose
          exact .refl _
  | worker w => exact (edited_of_work? hstep).evolves
  | refresher w =>
      obtain ⟨relay, copies, rfl, -⟩ := eq_of_refresh? hstep
      exact .refl _
  | receiver w =>
      obtain ⟨prefetchQueue, processQueue, workers, rfl⟩ := eq_of_receive? hstep
      exact .refl _
  | feeder lane stage =>
      obtain ⟨prefetchQueue, processQueue, feeders, rfl⟩ := eq_of_feed? hstep
      exact .refl _
  | handOver lane w =>
      obtain ⟨feeders, workers, rfl⟩ := eq_of_handOver? hstep
      exact .refl _
  | preparation h lane => exact evolves_of_stepStation? hstep fun _ _ => .preparation lane
  | replay h lane => exact evolves_of_stepStation? hstep fun _ _ => .replay lane
  | aggregation h lane => exact evolves_of_stepStation? hstep fun _ _ => .aggregation lane

theorem map_handler_of_step? {actor : Actor} (hstep : p.step? actor = some q) :
    q.stations.map (·.handler) = p.stations.map (·.handler) := by
  have hevolves := evolves_of_step? hstep
  apply List.ext_getElem (by simp [hevolves.length_eq])
  intro i hi hi'
  simp only [List.getElem_map]
  rw [List.length_map] at hi hi'
  exact (List.forall₂_iff_get.mp hevolves |>.2 i hi' hi).handler_eq

/-- What every operation on a station keeps holds of all stations after a run. -/
theorem forall_stations_of_run? {P : Station F → Prop} {moves : List (Move F)}
    (hturns : ∀ s s', s.Turns s' → P s → P s') (hp : ∀ s ∈ p.stations, P s)
    (hrun : p.run? moves = some q) : ∀ s ∈ q.stations, P s := by
  refine run?_induction (P := fun p => ∀ s ∈ p.stations, P s) hrun hp (fun _ _ hp => hp) ?_ ?_
  · intro p actor q hp hstep s hs
    have hevolves := evolves_of_step? hstep
    obtain ⟨i, hi, rfl⟩ := List.mem_iff_getElem.mp hs
    have hlt : i < p.stations.length := hevolves.length_eq ▸ hi
    exact hturns _ _ (List.forall₂_iff_get.mp hevolves |>.2 i hlt hi) (hp _ (List.getElem_mem hlt))
  · intro p c reason q hp hdeny
    obtain ⟨_, _, _, _, rfl⟩ := eq_of_deny? hdeny
    exact hp

end Pipeline

end TxPipeline
