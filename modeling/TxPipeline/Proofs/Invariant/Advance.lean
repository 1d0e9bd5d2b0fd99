import TxPipeline.Proofs.Invariant.Step

/-!
# How a block goes on

While a block is in work, whoever moves is a thread, a call that has nothing to do with the block,
or the call that starts or finishes it. Only the last takes the block on to its next phase, and with
the very last move of that call the block is done.
-/

namespace TxPipeline

variable {F : Flow} {calm : Prop} {handlers : List (Handler F)} {past : List (Work F)}
  {work : Work F} {phase phase' : Phase F} {p q : Pipeline F} {actor : Actor} {c : Checkpoint}
  {lane : Nat}

/-- Whether a call is starting the block, or the block is started and was not given up. -/
def Phase.isOn : Phase F → Bool
  | .abandoned _ _ => false
  | _ => true

theorem Phase.isOn_of_isAttended (hphase : phase.isAttended = true) : phase.isOn = true := by
  cases phase <;> first | rfl | cases hphase

namespace Pipeline

/-- A call moves, and neither a station nor a job does. -/
structure Aside (p : Pipeline F) (actor : Actor) (q : Pipeline F) : Prop where
  exists_caller : ∃ i, actor = .caller i
  stations_eq : q.stations = p.stations
  load_eq : ∀ c, q.load c = p.load c

/-- A move that takes `work`, in lane `lane`, from one phase to the next. -/
inductive Advance (work : Work F) (lane : Nat) (p : Pipeline F) (actor : Actor) (q : Pipeline F) :
    Phase F → Phase F → Prop
  | thread (phase : Phase F) (hactor : ∀ i, actor ≠ .caller i) :
      Advance work lane p actor q phase phase
  | aside (phase : Phase F) (haside : p.Aside actor q) : Advance work lane p actor q phase phase
  | start (i : Nat) (next next' : Starting) (hactor : actor = .caller i)
      (hmove : p.StartMove i work.store work.rules work.block next q)
      (hnext : q.calls[i]? = some (.start work.store work.rules work.block next')) :
      Advance work lane p actor q (.starting i next) (.starting i next')
  | activate (i : Nat) (plan : Plan) (haside : p.Aside actor q)
      (hreturned : q.calls[i]? = some (.returned (.started (.ok ())))) :
      Advance work lane p actor q (.starting i (.activating plan)) .started
  | take (f : Nat) (store : F.Store) (block : Block) (receipts : List Receipt)
      (haside : p.Aside actor q) :
      Advance work lane p actor q .started
        (.finishing f store store block receipts (.joinPreparation (work.active lane) 0))
  | finish (f : Nat) (origin store store' : F.Store) (block : Block) (receipts : List Receipt)
      (next next' : Finishing) (hactor : actor = .caller f)
      (hmove : p.FinishMove f store block receipts next q)
      (hnext : q.calls[f]? = some (.finish store' block receipts next')) :
      Advance work lane p actor q (.finishing f origin store block receipts next)
        (.finishing f origin store' block receipts next')

/-- The last move of call `f`, which had made `store` of `origin` and has collected `kept`. -/
structure Departs (handlers : List (Handler F)) (past : List (Work F)) (work : Work F)
    (p : Pipeline F) (actor : Actor) (q : Pipeline F) (phase : Phase F) : Prop where
  departs : ∃ f origin store block receipts active kept,
    phase = .finishing f origin store block receipts (.leaving active kept) ∧
    actor = .caller f ∧ q.calls[f]? = some (.returned (.finished kept store)) ∧
    work.Concludes handlers block receipts origin handlers.length store ∧
    work.Collects handlers handlers.length kept
  stations_eq : q.stations = p.stations

theorem aside_of_stepClose? {i : Nat} {next : Closing} (hstep : p.stepClose? i next = some q) :
    p.Aside (.caller i) q := by
  obtain ⟨isOpen, poolSenders, calls, log, rfl⟩ := eq_of_stepClose? hstep
  exact ⟨⟨i, rfl⟩, rfl, fun _ => rfl⟩

namespace During

theorem advance_starting {i : Nat} {next : Starting}
    (hp : p.During calm handlers past work (.starting i next)) (hgoes : p.Proceeds calm actor)
    (hstep : p.step? actor = some q) :
    ∃ phase', q.During calm handlers past work phase' ∧
      Advance work past.length p actor q (.starting i next) phase' := by
  rcases hp.call_minds.mover hstep with hthread | ⟨j, closing, hcall, rfl, hclose⟩ | rfl
  · exact ⟨_, hp.stepThread? hgoes hthread hstep, .thread _ hthread⟩
  · exact ⟨_, hp.stepClose? hcall hclose, .aside _ (aside_of_stepClose? hclose)⟩
  rw [step?_of_start hp.call_eq] at hstep
  have hmove := startMove_of_stepStart? hstep
  rcases hp.stepStart? hstep with ⟨next', hq⟩ | ⟨hq, hreturned⟩
  · exact ⟨_, hq, .start i next next' rfl hmove hq.call_eq⟩
  · refine ⟨_, hq, ?_⟩
    cases hmove with
    | activate plan => exact .activate i plan ⟨⟨i, rfl⟩, rfl, fun _ => rfl⟩ hreturned
    | _ =>
        rw [getElem?_of_set_calls hp.call_eq rfl] at hreturned
        cases hreturned

theorem advance_started (hp : p.During calm handlers past work .started)
    (hgoes : p.Proceeds calm actor) (hstep : p.step? actor = some q) :
    ∃ phase', q.During calm handlers past work phase' ∧
      Advance work past.length p actor q .started phase' := by
  rcases thread_or_callMove hstep with hthread | ⟨j, rfl, hmove⟩
  · exact ⟨_, hp.stepThread? hgoes hthread hstep, .thread _ hthread⟩
  cases hmove with
  | close next hcall hclose =>
      exact ⟨_, hp.stepClose? hcall hclose, .aside _ (aside_of_stepClose? hclose)⟩
  | start store rules block next hcall hstart =>
      obtain rfl := Waits.eq_acquire hp.calls hcall
      refine ⟨_, (hp.refuse hcall hstart).1, .aside _ ?_⟩
      cases startMove_of_stepStart? hstart with
      | refuse active _ _ => exact ⟨⟨j, rfl⟩, rfl, fun _ => rfl⟩
      | acquire _ hnone =>
          rw [hp.calls.active_eq] at hnone
          cases hnone
  | finish store block receipts next hcall hfinish =>
      obtain rfl := Waits.eq_take hp.calls hcall
      refine ⟨_, hp.take hcall hfinish, .take j store block receipts ?_⟩
      cases finishMove_of_stepFinish? hfinish <;> exact ⟨⟨j, rfl⟩, rfl, fun _ => rfl⟩

theorem advance_finishing {f : Nat} {origin store : F.Store} {block : Block}
    {receipts : List Receipt} {next : Finishing}
    (hp : p.During calm handlers past work (.finishing f origin store block receipts next))
    (hgoes : p.Proceeds calm actor) (hstep : p.step? actor = some q) :
    (∃ phase', q.During calm handlers past work phase' ∧
      Advance work past.length p actor q (.finishing f origin store block receipts next) phase') ∨
    q.Between calm handlers (past ++ [work]) ∧
      Departs handlers past work p actor q (.finishing f origin store block receipts next) := by
  rcases hp.finish_minds.mover hstep with hthread | ⟨j, closing, hcall, rfl, hclose⟩ | rfl
  · exact .inl ⟨_, hp.stepThread? hgoes hthread hstep, .thread _ hthread⟩
  · exact .inl ⟨_, hp.stepClose? hcall hclose, .aside _ (aside_of_stepClose? hclose)⟩
  rw [step?_of_finish hp.finish_eq] at hstep
  rcases hp.stepFinish? hgoes hstep with ⟨store', next', hq⟩ | ⟨hq, active, kept, rfl, hrest⟩
  · exact .inl ⟨_, hq, .finish f origin store store' block receipts next next' rfl
      (finishMove_of_stepFinish? hstep) hq.finish_eq⟩
  · refine .inr ⟨hq, ⟨f, origin, store, block, receipts, active, kept, rfl, rfl, hrest⟩, ?_⟩
    cases finishMove_of_stepFinish? hstep <;> rfl

/-- A block in work goes on to its next phase, or is done. -/
theorem advance (hp : p.During calm handlers past work phase) (hon : phase.isOn = true)
    (hgoes : p.Proceeds calm actor) (hstep : p.step? actor = some q) :
    (∃ phase', q.During calm handlers past work phase' ∧
      Advance work past.length p actor q phase phase') ∨
    q.Between calm handlers (past ++ [work]) ∧ Departs handlers past work p actor q phase := by
  cases phase with
  | starting i next => exact .inl (hp.advance_starting hgoes hstep)
  | started => exact .inl (hp.advance_started hgoes hstep)
  | finishing f origin store block receipts next => exact hp.advance_finishing hgoes hstep
  | abandoned joined concluded => cases hon

/-- The block is done with the move by which a call to finish a block returns. -/
theorem departs {i : Nat} (hp : p.During calm handlers past work phase) (hon : phase.isOn = true)
    (hgoes : p.Proceeds calm actor) (hstep : p.step? actor = some q) (hnot : ¬ p.Over i)
    (hover : q.Over i) :
    q.Between calm handlers (past ++ [work]) ∧ Departs handlers past work p actor q phase := by
  obtain ⟨f, fault, store, hlt, hreturned⟩ := hover
  have hactor : actor = .caller f := by
    by_contra hne
    exact hnot ⟨f, fault, store, hlt, (getElem?_calls_of_step? hstep hne).symm.trans hreturned⟩
  obtain ⟨old, hold, hturns⟩ := exists_turned_of_step? hstep hreturned
  cases hturns with
  | returned => exact absurd ⟨f, fault, store, hlt, hold⟩ hnot
  | finished given _ block receipts next _ =>
      rcases hp.advance hon hgoes hstep with ⟨phase', hq, -⟩ | hdone
      swap
      · exact hdone
      -- as long as the block goes on, its call has not returned, and no other is finishing one
      obtain rfl := hactor
      rw [step?_of_finish hold] at hstep
      rcases hp.eq_finishing hold with ⟨rfl, rfl | ⟨_, _, rfl⟩⟩ | ⟨origin, rfl⟩
      · have hsame := (hp.take hold hstep).finish_eq
        rw [hreturned] at hsame
        cases hsame
      · cases hon
      · rcases hp.stepFinish? hgoes hstep with
          ⟨made, next, hq⟩ | ⟨hq, active, kept, rfl, hrest⟩
        · have hsame := hq.finish_eq
          rw [hreturned] at hsame
          cases hsame
        · refine ⟨hq, ⟨f, origin, _, block, receipts, active, kept, rfl, rfl, hrest⟩, ?_⟩
          cases finishMove_of_stepFinish? hstep <;> rfl

end During

/-- Only workers, and calls that decline transactions, bring a job past a checkpoint. -/
theorem Advance.outstanding_eq (hadvance : Advance work past.length p actor q phase phase')
    (hp : p.During calm handlers past work phase) (hstep : p.step? actor = some q)
    (hworker : ∀ w, actor ≠ .worker w) (hannounced : c ≠ .announced) (hsettled : c ≠ .settled) :
    phase'.outstanding q c = phase.outstanding p c := by
  cases hadvance with
  | thread _ hactor =>
      rw [Phase.outstanding, Phase.outstanding, hp.load_eq_of_step? hactor hworker hstep]
  | aside _ haside => rw [Phase.outstanding, Phase.outstanding, haside.load_eq]
  | activate i plan haside _ => exact congrArg _ (haside.load_eq c)
  | take f store block receipts haside => exact congrArg _ (haside.load_eq c)
  | finish f origin store store' block receipts next next' _ hmove _ => cases hmove <;> rfl
  | start i next next' _ hmove hnext =>
      have hvalid := hp.valid
      have heq {call : Call F} (hcalls : q.calls = p.calls.set i call) :
          call = .start work.store work.rules work.block next' :=
        eq_of_set_calls hp.call_eq hcalls hnext
      cases hmove with
      | refuse | acquire | enter | closed | scanFault | scanError | scan => exact hvalid.elim
      | dispatch plan =>
          cases heq rfl
          have hload : _ = _ + p.load c := hp.load_dispatchAll c
          exact (zero_add _).trans hload
      | activate | announceFault | settleFault => cases heq rfl
      | openStation | opened | distribute | distributed | prepare =>
          cases heq rfl
          rfl
      | declined | skipAnnounce | announce | skipSettle | settle =>
          -- declined transactions are due at the last two checkpoints only
          cases heq rfl
          simp only [Phase.outstanding, Phase.due, Starting.due, Checkpoint.owed, hannounced,
            hsettled, or_self, if_false]
          rfl

end Pipeline

end TxPipeline
