import TxPipeline.Proofs.Outcomes
import TxPipeline.Proofs.Termination
import TxPipeline.Proofs.Writes

/-!
# How a block is concluded

The call that finishes a block always returns, whichever stages of whichever handlers have failed.
A failed preparation is raised first, and nothing is written then. Otherwise the handlers are
concluded in their order up to the first one that has no aggregate, or whose `afterBlock` fails, and
that is raised. Only if there is none the call raises what a worker stage has failed of.
-/

namespace TxPipeline

variable {F : Flow} {calm : Prop} {handlers : List (Handler F)} {past : List (Work F)}
  {work : Work F} {p q : Pipeline F} {c f h k : Nat} {due : Checkpoint → Multiset Job}
  {s : Station F} {origin store store' : F.Store} {block : Block} {receipts : List Receipt}
  {next : Finishing} {outcomes : List (Nat × Except Fault F.Aggregate)} {fault : Option Fault}

namespace Work

/-- `beforeBlock` of the first `k` handlers raises no fault. -/
def Prepared (handlers : List (Handler F)) (work : Work F) (k : Nat) : Prop :=
  ∀ handler ∈ handlers.take k, ∃ common,
    handler.beforeBlock work.store work.rules work.block = .ok common

/-- What the call that finishes the block raises, and the store that it has made of `origin`, when
the aggregations have come to these outcomes. -/
inductive EndsWith (handlers : List (Handler F)) (work : Work F)
    (outcomes : List (Nat × Except Fault F.Aggregate)) (block : Block) (receipts : List Receipt)
    (origin : F.Store) : Option Fault → F.Store → Prop
  /-- Handler `k` is the first one that is not prepared. Nothing is written. -/
  | unprepared {k : Nat} {handler : Handler F} {raised : Fault}
      (hhandler : handlers[k]? = some handler) (hbelow : work.Prepared handlers k)
      (hraised : handler.beforeBlock work.store work.rules work.block = .error raised) :
      EndsWith handlers work outcomes block receipts origin (some raised) origin
  /-- Handler `k` is the first one that is not concluded. It has no aggregate. -/
  | unaggregated {k : Nat} {store : F.Store} {raised : Fault}
      (hprepared : work.Prepared handlers handlers.length)
      (happlies : Applies handlers outcomes block receipts origin k store)
      (hraised : (k, .error raised) ∈ outcomes) :
      EndsWith handlers work outcomes block receipts origin (some raised) store
  /-- Handler `k` is the first one that is not concluded. Its `afterBlock` has failed, and what it
  has written is kept. -/
  | unconcluded {k : Nat} {store : F.Store} {handler : Handler F} {a : F.Aggregate} {raised : Fault}
      (hprepared : work.Prepared handlers handlers.length)
      (happlies : Applies handlers outcomes block receipts origin k store)
      (hhandler : handlers[k]? = some handler) (houtcome : (k, .ok a) ∈ outcomes)
      (hraised : (handler.afterBlock store a block receipts).2 = some raised) :
      EndsWith handlers work outcomes block receipts origin (some raised)
        (handler.afterBlock store a block receipts).1
  /-- All handlers are concluded, and a fault is one of the first that has failed over a job. -/
  | concluded {store : F.Store} {fault : Option Fault}
      (hprepared : work.Prepared handlers handlers.length)
      (happlies : Applies handlers outcomes block receipts origin handlers.length store)
      (hcollects : work.Collects handlers handlers.length fault) :
      EndsWith handlers work outcomes block receipts origin fault store

theorem Prepared.exists_common (hp : work.Prepared handlers handlers.length) :
    ∀ handler ∈ handlers, ∃ common,
      handler.beforeBlock work.store work.rules work.block = .ok common := by
  rwa [Prepared, List.take_length] at hp

end Work

/-! ## Preparations -/

/-- Whether the preparation was waited for. -/
def Berth.joined : Berth → Bool
  | .unopened => false
  | .serving progress => progress.joined
  | .closed => true

theorem Station.Fits.exists_common {berth : Berth}
    (hs : s.Fits calm handlers past work h due berth) (hjoined : berth.joined = true) :
    ∃ common, work.commonOf handlers h = some common := by
  cases berth with
  | unopened => cases hjoined
  | serving progress =>
      obtain ⟨old, l, -, -, hserves⟩ := id hs
      have hsome := hserves.prepares.isSome_of_joined hjoined
      obtain ⟨common, hcommon⟩ := Option.isSome_iff_exists.mp hsome
      exact ⟨common, hs.commonOf hcommon⟩
  | closed =>
      obtain ⟨l, -, hdone⟩ := Pipeline.exists_last_of_done hs.2
      obtain ⟨a, hreads⟩ := hdone.reads
      obtain ⟨handler, common, -, -, -, hcommon, -⟩ := hreads.follows
      exact ⟨common, hcommon⟩

theorem Station.Fits.error_of_dead {progress : Progress} {raised : Fault}
    (hs : s.Fits calm handlers past work h due (.serving progress))
    (hdead : s.preparation? past.length = some (.dead raised)) :
    ∃ handler, handlers[h]? = some handler ∧
      handler.beforeBlock work.store work.rules work.block = .error raised := by
  obtain ⟨old, l, hlanes, hold, hserves⟩ := hs
  have hprepares := hserves.prepares
  have hl : l.preparation = .dead raised := by
    simpa [Station.preparation?, hlanes, hold.length_eq] using hdead
  rw [hl] at hprepares
  cases hprepares with
  | dead _ _ _ _ _ hfault => exact hfault

/-- How many of `n` preparations were waited for. -/
def Finishing.prepared (n : Nat) : Finishing → Nat
  | .take => 0
  | .joinPreparation _ k => k
  | _ => n

theorem Finishing.joined_berth {n : Nat} (hlt : h < next.prepared k) :
    (next.berth n h).joined = true := by
  cases next with
  | take => exact absurd hlt (Nat.not_lt_zero h)
  | joinPreparation active k => exact decide_eq_true hlt
  | ending active k kept =>
      simp only [Finishing.berth]
      split <;> rfl
  | draining active k i length kept =>
      simp only [Finishing.berth]
      split <;> rfl
  | closing active k kept =>
      simp only [Finishing.berth]
      split <;> rfl
  | _ => rfl

namespace Pipeline

namespace During

variable (hp : p.During calm handlers past work (.finishing f origin store block receipts next))

include hp

/-- What was waited for has not failed. -/
theorem prepared : work.Prepared handlers (next.prepared handlers.length) := by
  intro handler hmem
  obtain ⟨h, hlt, rfl⟩ := List.mem_take_iff_getElem.mp hmem
  obtain ⟨hprepared, hh⟩ := Nat.lt_min.mp hlt
  obtain ⟨s, hs, -⟩ := hp.exists_station hh
  obtain ⟨common, hcommon⟩ :=
    (hp.stations h s hs).exists_common (Finishing.joined_berth hprepared)
  exact ⟨common, Work.beforeBlock_eq (List.getElem?_eq_getElem hh) hcommon⟩

/-- With its last move the call has found the first fault, or there is none. -/
theorem endsWith
    (ht : Tells handlers work past (.finishing f origin store block receipts next) p outcomes)
    (hstep : p.step? (.caller f) = some q)
    (hreturned : q.calls[f]? = some (.returned (.finished fault store'))) :
    work.EndsWith handlers outcomes block receipts origin fault store' := by
  rw [step?_of_finish hp.finish_eq] at hstep
  have happlies := ht.applies f origin store block receipts next rfl
  have hprepared := hp.prepared
  have hlast {call : Call F} (hcalls : q.calls = p.calls.set f call) :
      call = .returned (.finished fault store') :=
    eq_of_set_calls hp.finish_eq hcalls hreturned
  cases finishMove_of_stepFinish? hstep with
  | take | miss | mismatch => exact hp.finish_valid.elim
  | preparationDead active k s raised hs hdead =>
      cases hlast rfl
      obtain ⟨rfl, rfl⟩ := hp.finish_valid
      obtain ⟨handler, hhandler, hraised⟩ := (hp.stations k s hs).error_of_dead hdead
      exact .unprepared hhandler hprepared hraised
  | aggregationDead active k s raised hs hdead =>
      cases hlast rfl
      obtain ⟨rfl, -⟩ := hp.finish_valid
      exact .unaggregated hprepared happlies (ht.gathers.dead k s raised hs hdead)
  | concludeFault active k s s' a raised made hs htake hafter =>
      cases hlast rfl
      obtain ⟨⟨taken, cell⟩, htaken, heq⟩ := Option.bind_eq_some_iff.mp htake
      cases heq
      have hhandler : handlers[k]? = some s.handler := by
        rw [hp.crew.getElem?_handlers, hs, Option.map_some]
      have hends := Work.EndsWith.unconcluded hprepared happlies hhandler
        (ht.gathers.kept k s a hs (Cell.eq_of_take? htaken).1) (congrArg Prod.snd hafter)
      rwa [hafter] at hends
  | leave active =>
      cases hlast rfl
      exact .concluded hprepared happlies hp.finish_valid.2.2
  | leaveFault active raised =>
      cases hlast rfl
      exact .concluded hprepared happlies hp.finish_valid.2.2
  | _ => cases hlast rfl

end During

/-! ## The whole call -/

/-- What has come of call `f`, which was given the store `origin` to finish the block with, when the
aggregations have come to these outcomes. -/
inductive Concluding (handlers : List (Handler F)) (past : List (Work F)) (work : Work F) (f : Nat)
    (origin : F.Store) (block : Block) (receipts : List Receipt)
    (outcomes : List (Nat × Except Fault F.Aggregate)) (p : Pipeline F) : Prop
  | called (hp : p.During False handlers past work .started)
      (ht : Tells handlers work past .started p outcomes)
      (hcall : p.calls[f]? = some (.finish origin block receipts .take))
  | going (store : F.Store) (next : Finishing)
      (hp : p.During False handlers past work (.finishing f origin store block receipts next))
      (ht : Tells handlers work past (.finishing f origin store block receipts next) p outcomes)
  | ended (fault : Option Fault) (store : F.Store)
      (told : List (Nat × Except Fault F.Aggregate)) (hp : p.Aftermath handlers past work)
      (hreturned : p.calls[f]? = some (.returned (.finished fault store)))
      (htold : told <+: outcomes) (hpermits : work.Permits handlers told)
      (hends : work.EndsWith handlers told block receipts origin fault store)

namespace Concluding

theorem aftermath (hp : Concluding handlers past work f origin block receipts outcomes p) :
    p.Aftermath handlers past work := by
  cases hp with
  | called hp _ _ => exact .served _ hp rfl
  | going store next hp _ => exact .served _ hp rfl
  | ended fault store told hp _ _ _ _ => exact hp

theorem invoke_close (hp : Concluding handlers past work f origin block receipts outcomes p) :
    Concluding handlers past work f origin block receipts outcomes (p.invoke .close) := by
  cases hp with
  | called hp ht hcall =>
      exact .called (hp.invoke rfl) (ht.invoke .close) (getElem?_append_calls hcall rfl)
  | going store next hp ht => exact .going store next (hp.invoke rfl) (ht.invoke .close)
  | ended fault store told hp hreturned htold hpermits hends =>
      exact .ended fault store told hp.invoke_close (getElem?_append_calls hreturned rfl) htold
        hpermits hends

section Step

variable {actor : Actor} (hstep : p.step? actor = some q)

include hstep

/-- Until the call takes the block nothing changes, and nobody else can take it. -/
theorem step?_called (hp : p.During False handlers past work .started)
    (ht : Tells handlers work past .started p outcomes)
    (hcall : p.calls[f]? = some (.finish origin block receipts .take)) :
    Concluding handlers past work f origin block receipts (outcomes ++ p.conclusions actor) q := by
  have hgoes : p.Proceeds False actor := ⟨False.elim, .inr (hp.cutsShort_of_started hstep)⟩
  by_cases hactor : actor = .caller f
  · obtain rfl := hactor
    have hfinish := (step?_of_finish hcall).symm.trans hstep
    have hq := hp.take hcall hfinish
    have haside : p.Aside (.caller f) q := by
      cases finishMove_of_stepFinish? hfinish <;> exact ⟨⟨f, rfl⟩, rfl, fun _ => rfl⟩
    apply Concluding.going origin _ hq
    exact ht.advance hp hq hstep (.take f origin block receipts haside)
  have hstays := (getElem?_calls_of_step? hstep hactor).trans hcall
  obtain ⟨phase', hq, hadvance⟩ := hp.advance_started hgoes hstep
  have ht' := ht.advance hp hq hstep hadvance
  cases hadvance with
  | thread _ _ => exact .called hq ht' hstays
  | aside _ _ => exact .called hq ht' hstays
  | take g _ _ _ _ => rcases hq.eq_finishing hstays with ⟨-, h | ⟨_, _, h⟩⟩ | ⟨_, h⟩ <;> cases h

/-- The call goes on, or it returns: at its end, or because a fault has cut it short. -/
theorem step?_going
    (hp : p.During False handlers past work (.finishing f origin store block receipts next))
    (ht : Tells handlers work past (.finishing f origin store block receipts next) p outcomes) :
    Concluding handlers past work f origin block receipts (outcomes ++ p.conclusions actor) q := by
  have hends {fault : Option Fault} {store' : F.Store} (hactor : actor = .caller f)
      (hreturned : q.calls[f]? = some (.returned (.finished fault store'))) :
      Concluding handlers past work f origin block receipts
        (outcomes ++ p.conclusions actor) q := by
    obtain rfl := hactor
    apply Concluding.ended fault store' outcomes ((Aftermath.served _ hp rfl).step? hstep) hreturned
    · exact List.prefix_append _ _
    · exact ht.gathers.toPermits
    · exact hp.endsWith ht hstep hreturned
  rcases p.proceeds_or_cutsShort actor with hgoes | hcut
  · rcases hp.advance_finishing hgoes hstep with ⟨phase', hq, hadvance⟩ | ⟨-, hdeparts⟩
    · have ht' := ht.advance hp hq hstep hadvance
      cases hadvance with
      | thread _ _ => exact .going store next hq ht'
      | aside _ _ => exact .going store next hq ht'
      | finish => exact .going _ _ hq ht'
    · obtain ⟨g, _, _, _, _, active, kept, heq, hactor, hreturned, -⟩ := hdeparts.departs
      cases heq
      exact hends hactor hreturned
  · obtain ⟨g, _, _, _, _, raised, store', hactor, hcall, -, hreturned⟩ :=
      exists_of_cutsShort hcut hstep
    obtain rfl := hp.finish_minds.eq hcall rfl
    exact hends hactor hreturned

theorem step? (hp : Concluding handlers past work f origin block receipts outcomes p) :
    Concluding handlers past work f origin block receipts (outcomes ++ p.conclusions actor) q := by
  cases hp with
  | called hp ht hcall => exact step?_called hstep hp ht hcall
  | going store next hp ht => exact step?_going hstep hp ht
  | ended fault store told hp hreturned htold hpermits hends =>
      obtain ⟨turned, hturned, hturns⟩ := exists_turns_of_step? hstep hreturned
      cases hturns
      apply Concluding.ended fault store told (hp.step? hstep) hturned
      · exact htold.trans (List.prefix_append _ _)
      · exact hpermits
      · exact hends

end Step

theorem run? {moves : List (Move F)}
    (hp : Concluding handlers past work f origin block receipts outcomes p)
    (hrun : p.run? moves = some q) (hcloses : ∀ task ∈ tasks moves, task = .close) :
    Concluding handlers past work f origin block receipts
      (outcomes ++ p.collect conclusions moves) q := by
  induction moves generalizing p outcomes with
  | nil =>
      cases hrun
      rwa [collect, List.append_nil]
  | cons move rest ih =>
      obtain ⟨r, hmove, hrest⟩ := Option.bind_eq_some_iff.mp hrun
      cases move with
      | call task =>
          cases hmove
          have hall : ∀ other ∈ task :: tasks rest, other = .close := hcloses
          obtain rfl := hall task List.mem_cons_self
          exact ih hp.invoke_close hrest fun other hother =>
            hall other (List.mem_cons_of_mem _ hother)
      | act actor =>
          have hstep : p.step? actor = some r := hmove
          rw [collect, hstep, Option.map_some, Option.getD_some, ← List.append_assoc]
          exact ih (Concluding.step? hstep hp) hrest hcloses
      | deny c reason =>
          cases (hp.aftermath.deny?_eq_none c reason).symm.trans hmove

theorem exists_told (hp : Concluding handlers past work f origin block receipts outcomes p)
    (hreturned : p.calls[f]? = some (.returned (.finished fault store))) :
    ∃ told, told <+: outcomes ∧ work.Permits handlers told ∧
      work.EndsWith handlers told block receipts origin fault store := by
  cases hp with
  | called _ _ hcall =>
      rw [hcall] at hreturned
      cases hreturned
  | going made next hp _ =>
      rw [hp.finish_eq] at hreturned
      cases hreturned
  | ended other made told _ hother htold hpermits hends =>
      rw [hother] at hreturned
      cases hreturned
      exact ⟨told, htold, hpermits, hends⟩

end Concluding

/-! ## Nobody is left waiting -/

theorem During.stepPreparation?_ne_none {active : ActiveBlock}
    (hp : p.During calm handlers past work
      (.finishing f origin store block receipts (.joinPreparation active k)))
    (hhalted : p.Halted) :
    p.stepFinish? f store block receipts (.joinPreparation active k) ≠ none := by
  obtain ⟨rfl, -⟩ := hp.finish_valid
  cases hs : p.stations[k]? with
  | none => simp [Pipeline.stepFinish?, hs]
  | some s =>
      obtain ⟨old, l, hlanes, hold, hserves⟩ := hp.stations k s hs
      have hl : s.lanes[past.length]? = some l := by simp [hlanes, hold.length_eq]
      have hprepares := hserves.prepares
      have hpreparation : s.preparation? (work.active past.length).lane = some l.preparation := by
        rw [Station.preparation?, Work.active, hl, Option.map_some]
      cases hcase : l.preparation with
      | idle =>
          rw [hcase] at hprepares
          cases hprepares with
          | idle hprepared _ _ => cases hprepared
      | ready store rules block =>
          exact absurd ((hhalted.station hs).preparation past.length)
            (Station.stepPreparation?_ne_none hl hcase)
      | ended => simp [Pipeline.stepFinish?, hs, hpreparation, hcase]
      | dead raised => simp [Pipeline.stepFinish?, hs, hpreparation, hcase]

/-- When nobody can move, the call has returned. -/
theorem Concluding.returned_of_stuck
    (hp : Concluding handlers past work f origin block receipts outcomes p)
    (horderly : p.Orderly) (hstuck : p.Stuck) :
    ∃ fault store, p.calls[f]? = some (.returned (.finished fault store)) := by
  have hwaits {store : F.Store} {next : Finishing}
      (hcall : p.calls[f]? = some (.finish store block receipts next)) :
      p.stepFinish? f store block receipts next = none :=
    (step?_of_finish hcall).symm.trans (hstuck (.caller f))
  cases hp with
  | ended fault store told _ hreturned _ _ _ => exact ⟨fault, store, hreturned⟩
  | called hp _ hcall => exact absurd (hwaits hcall) (stepFinish?_take_ne_none hp.calls.unlocked)
  | going store next hp _ =>
      exfalso
      have hnone := hwaits hp.finish_eq
      by_cases hprepared : next.prepared handlers.length = handlers.length
      · have hbefore := (hprepared ▸ hp.prepared : work.Prepared handlers handlers.length)
        exact (Aftermath.served _ hp rfl).stepFinish?_ne_none horderly hbefore.exists_common
          hstuck.halted hp.finish_eq hnone
      · cases next with
        | take => exact hp.finish_valid
        | joinPreparation active k => exact hp.stepPreparation?_ne_none hstuck.halted hnone
        | _ => exact hprepared rfl

/-! ## The first fault -/

/-- A call that finishes a started block comes to its end, and the first fault says what it raises
and what it has written by then. No earlier call was cut short before it had reset its block, but of
this block any stage of any handler may fail. From when the call is made, whatever the schedule and
however often closing is asked for, the others cannot keep it waiting: nobody goes on for ever, and
when nobody can move the call has returned. The outcomes are what the aggregations of the block had
come to when it did. -/
theorem finish_ends_with (work : Work F) {config : Config} {registry : Registry F}
    {moves : List (Move F)} (hcreate : create config registry = .ok p)
    (hrun : p.steadyRun? moves = some q) (htask : (tasks moves)[c]? = some work.task)
    (hstarted : q.calls[c]? = some (.returned (.started (.ok ())))) (hover : ¬ q.Over c)
    (hcall : q.calls[f]? = some (.finish origin block receipts .take)) :
    ∀ (more : List (Move F)) (r : Pipeline F), q.run? more = some r →
      (∀ task ∈ tasks more, task = .close) →
      (∃ bound, ∀ (actors : List Actor) (t : Pipeline F), r.run? (actors.map .act) = some t →
        actors.length ≤ bound) ∧
      (r.Stuck → ∃ fault store, r.calls[f]? = some (.returned (.finished fault store))) ∧
      ∀ fault store, r.calls[f]? = some (.returned (.finished fault store)) →
        ∃ outcomes, outcomes <+: p.since c conclusions (moves ++ more) ∧
          work.Permits registry.handlers outcomes ∧
          work.EndsWith registry.handlers outcomes block receipts origin fault store := by
  have hmoves := run?_of_runWhile? hrun
  obtain ⟨past, phase, hq, hon, ht⟩ := (Course.since_steadyRun? hcreate
    (carries_tells False registry.handlers work c) hrun htask).exists_reading
    ⟨⟨_, hstarted, rfl⟩, hover⟩
  obtain rfl : phase = .started := by
    rcases hq.eq_finishing hcall with ⟨-, h | ⟨_, _, rfl⟩⟩ | ⟨_, rfl⟩
    · exact h
    · cases hon
    · exact hq.finish_valid.elim
  intro more r hmore hcloses
  have hr := (Concluding.called hq ht hcall).run? hmore hcloses
  rw [since_run? hcreate hmoves htask]
  have horderly := orderly_of_run? (orderly_of_run? (orderly_create hcreate) hmoves) hmore
  refine ⟨⟨r.effort registry.handlers work, fun actors t ht => ?_⟩, fun hstuck => ?_,
    fun fault store hreturned => ?_⟩
  · exact (Nat.le_add_right _ _).trans (hr.aftermath.length_le_effort ht)
  · exact hr.returned_of_stuck horderly hstuck
  · exact hr.exists_told hreturned

end Pipeline

/-! ## A run -/

namespace Sample

open Pipeline

/-- The handler `adder`, but it raises a fault when it has changed the store. -/
def choking : Handler flow :=
  { adder with afterBlock := fun store a _ _ => (store + a, some (.raised "choked")) }

def chokers : Registry flow := ⟨[choking]⟩

/-- The block is started, and a call was made to finish it. -/
def called : List (Move flow) := started ++ [.call (.finish (3 : Nat) pair [])]

end Sample

open Pipeline Sample in
/-- What `choking` has written to the store is kept, and its fault is raised. -/
theorem finish_ends_with_choked : ∃ q r outcomes,
    (ofConfig oneEach chokers).steadyRun? called = some q ∧
    q.run? ((concluding 1).take 13) = some r ∧
    r.outcome? 1 = some (some (.raised "choked"), 9) ∧
    outcomes <+: (ofConfig oneEach chokers).since 0 conclusions
      (called ++ (concluding 1).take 13) ∧
    Work.EndsWith [choking] ⟨(3 : Nat), .latest, pair⟩ outcomes pair [] (3 : Nat)
      (some (.raised "choked")) (9 : Nat) := by
  obtain ⟨q, hrun, ⟨_, hcall, rfl⟩, hover, hcalled, r, hr, houtcome⟩ : ∃ q,
      (ofConfig oneEach chokers).steadyRun? called = some q ∧
        (∃ call, q.calls[0]? = some call ∧ call = .returned (.started (.ok ()))) ∧ ¬ q.Over 0 ∧
        q.isAboutToFinish 1 pair = true ∧ ∃ r, q.run? ((concluding 1).take 13) = some r ∧
          r.outcome? 1 = some (some (.raised "choked"), 9) := by
    decide +kernel
  obtain ⟨-, -, hends⟩ := finish_ends_with ⟨(3 : Nat), .latest, pair⟩
    (show create oneEach chokers = .ok _ from rfl) hrun rfl hcall hover
    (calls_of_isAboutToFinish hcalled) _ r hr
    (by simp [concluding, concludingIn, tasks, Move.task?])
  obtain ⟨outcomes, htold, -, hends⟩ := hends _ _ (calls_of_outcome? houtcome)
  exact ⟨q, r, outcomes, hrun, hr, houtcome, htold, hends⟩

end TxPipeline
