import TxPipeline.Proofs.Independence
import TxPipeline.Proofs.Outcomes

/-!
# The order in which handlers change the store

While a block is finished, `afterBlock` runs once for each handler, in the order in which they are
registered, each time with the aggregate of that very handler and with the store that the one before
has left. What the call returns is the store that the last one leaves.
-/

namespace TxPipeline

variable {F : Flow} {handlers : List (Handler F)} {past : List (Work F)} {work : Work F}
  {phase : Phase F} {p q b r : Pipeline F} {actor : Actor} {f k : Nat} {origin store : F.Store}
  {executed : Block} {receipts : List Receipt} {given : List (Nat × F.Aggregate)}
  {fault : Option Fault}

/-- The handler whose `afterBlock` runs with the next move of an actor, and the aggregate that it is
given. -/
def Pipeline.settlements (p : Pipeline F) : Actor → List (Nat × F.Aggregate)
  | .caller c =>
      match p.calls[c]? with
      | some (.finish _ _ _ (.conclude _ h)) =>
          ((p.stations[h]?).bind fun s => s.takeAggregate?.map fun a => (h, a.1)).toList
      | _ => []
  | _ => []

/-- What `afterBlock` of one handler after the other makes of a store, when they are given these
aggregates. -/
def settledStore (handlers : List (Handler F)) (block : Block) (receipts : List Receipt)
    (origin : F.Store) (given : List (Nat × F.Aggregate)) : F.Store :=
  given.foldl
    (fun store entry =>
      match handlers[entry.1]? with
      | some handler => (handler.afterBlock store entry.2 block receipts).1
      | none => store)
    origin

/-- `afterBlock` of the first `k` handlers has made `store` of `origin`, and was given these
aggregates. -/
inductive Work.Settles (handlers : List (Handler F)) (work : Work F) (block : Block)
    (receipts : List Receipt) (origin : F.Store) :
    Nat → List (Nat × F.Aggregate) → F.Store → Prop
  | start : Settles handlers work block receipts origin 0 [] origin
  | next {k : Nat} {given : List (Nat × F.Aggregate)} {store : F.Store} {handler : Handler F}
      {a : F.Aggregate} (hbefore : Settles handlers work block receipts origin k given store)
      (hhandler : handlers[k]? = some handler) (haggregate : work.Aggregates handlers k a)
      (hfault : (handler.afterBlock store a block receipts).2 = none) :
      Settles handlers work block receipts origin (k + 1) (given ++ [(k, a)])
        (handler.afterBlock store a block receipts).1

namespace Work.Settles

theorem le (hs : work.Settles handlers executed receipts origin k given store) :
    k ≤ handlers.length := by
  cases hs with
  | start => exact Nat.zero_le _
  | next _ hhandler _ _ => exact (List.getElem?_eq_some_iff.mp hhandler).1

/-- The handlers come in their order, and each comes once. -/
theorem order (hs : work.Settles handlers executed receipts origin k given store) :
    given.map Prod.fst = List.range k := by
  induction hs with
  | start => rfl
  | next _ _ _ _ ih => rw [List.map_append, ih, List.range_succ, List.map_singleton]

theorem aggregates (hs : work.Settles handlers executed receipts origin k given store) {h : Nat}
    {a : F.Aggregate} (hmem : (h, a) ∈ given) : work.Aggregates handlers h a := by
  induction hs with
  | start => cases hmem
  | next _ _ haggregate _ ih =>
      rcases List.mem_append.mp hmem with hmem | hmem
      · exact ih hmem
      · cases List.mem_singleton.mp hmem
        exact haggregate

/-- The aggregates that were given determine the store. -/
theorem store_eq (hs : work.Settles handlers executed receipts origin k given store) :
    store = settledStore handlers executed receipts origin given := by
  induction hs with
  | start => rfl
  | next _ hhandler _ _ ih =>
      rw [settledStore, List.foldl_append, List.foldl_cons, List.foldl_nil]
      rw [settledStore] at ih
      simp only [← ih, hhandler]

end Work.Settles

namespace Pipeline

/-! ## One move -/

/-- Nobody but the call that finishes the block runs an `afterBlock`. -/
theorem During.settlements_eq_nil (hp : p.During True handlers past work phase)
    (hnot : ∀ f origin store block receipts next,
      phase = .finishing f origin store block receipts next → actor ≠ .caller f) :
    p.settlements actor = [] := by
  cases actor with
  | caller c =>
      simp only [settlements]
      split
      · rename_i store block receipts active h hcall
        rcases hp.eq_finishing hcall with ⟨htake, -⟩ | ⟨origin, rfl⟩
        · cases htake
        · exact absurd rfl (hnot _ _ _ _ _ _ rfl)
      · rfl
  | _ => rfl

/-- What was settled before a move of the call that finishes the block, with what the move settles,
is settled after it. -/
theorem During.settles_of_finishMove {next next' : Finishing} {store' : F.Store}
    (hp : p.During True handlers past work (.finishing f origin store executed receipts next))
    (hsettles : work.Settles handlers executed receipts origin (next.concluded handlers.length)
      given store)
    (hmove : p.FinishMove f store executed receipts next q)
    (hnext : q.calls[f]? = some (.finish store' executed receipts next')) :
    work.Settles handlers executed receipts origin (next'.concluded handlers.length)
      (given ++ p.settlements (.caller f)) store' := by
  have hgoes {call : Call F} (hcalls : q.calls = p.calls.set f call) :
      call = .finish store' executed receipts next' :=
    eq_of_set_calls hp.finish_eq hcalls hnext
  have hnil (hnot : ∀ active h, next ≠ .conclude active h) :
      given ++ p.settlements (.caller f) = given := by
    have hnone : p.settlements (.caller f) = [] := by
      simp only [settlements, hp.finish_eq]
      split
      · rename_i heq
        cases heq
        exact absurd rfl (hnot _ _)
      · rfl
    rw [hnone, List.append_nil]
  cases hmove with
  | take | miss | mismatch => exact hp.finish_valid.elim
  | preparationDead | aggregationDead | concludeFault | leave | leaveFault => cases hgoes rfl
  | aggregated active k hs =>
      cases hgoes rfl
      obtain rfl : k = handlers.length := Nat.le_antisymm hsettles.le (hp.crew.length_le hs)
      rw [hnil (by simp)]
      exact hsettles
  | conclude active k s s' a made hs htake hafter =>
      cases hgoes rfl
      have hgiven : p.settlements (.caller f) = [(k, a)] := by
        simp only [settlements, hp.finish_eq, hs, htake, Option.bind_some, Option.map_some,
          Option.toList_some]
      have hhandler : handlers[k]? = some s.handler := by
        rw [hp.crew.getElem?_handlers, hs, Option.map_some]
      have haggregate : work.Aggregates handlers k a := by
        have hfits := hp.stations k s hs
        simp only [Phase.berth, Finishing.berth, Nat.lt_irrefl, decide_false] at hfits
        exact (hfits.takeAggregate? htake).2.1
      have hnext := hsettles.next hhandler haggregate (by rw [hafter])
      rw [hafter] at hnext
      rw [hgiven]
      exact hnext
  | _ =>
      cases hgoes rfl
      rw [hnil (by simp)]
      exact hsettles

/-! ## The whole call -/

/-- What has come of call `f` to finish `work`, which has given these aggregates to `afterBlock` so
far. -/
structure Settling (handlers : List (Handler F)) (work : Work F) (origin : F.Store)
    (executed : Block) (receipts : List Receipt) (f : Nat) (p : Pipeline F)
    (given : List (Nat × F.Aggregate)) : Prop where
  finishes : p.Finishes handlers work origin executed receipts f
  settles : ∀ store next, p.calls[f]? = some (.finish store executed receipts next) →
    work.Settles handlers executed receipts origin (next.concluded handlers.length) given store

theorem Finishes.exists_call (hp : p.Finishes handlers work origin executed receipts f) :
    ∃ call, p.calls[f]? = some call := by
  cases hp with
  | waiting past hp hcall => exact ⟨_, hcall⟩
  | finishing past store next hp => exact ⟨_, hp.finish_eq⟩
  | returned fault store hcall _ _ => exact ⟨_, hcall⟩

namespace Settling

theorem invoke {task : Task F} (hp : p.Settling handlers work origin executed receipts f given)
    (hadmits : p.admits task = true) :
    (p.invoke task).Settling handlers work origin executed receipts f given where
  finishes := hp.finishes.invoke hadmits
  settles := by
    intro store next hcall
    obtain ⟨call, hold⟩ := hp.finishes.exists_call
    rw [getElem?_append_calls hold rfl] at hcall
    exact hp.settles store next (hold.trans hcall)

theorem deny? {d : Nat} {reason : String}
    (hp : p.Settling handlers work origin executed receipts f given)
    (hdeny : p.deny? d reason = some q) :
    q.Settling handlers work origin executed receipts f given where
  finishes := hp.finishes.deny? hdeny
  settles := by
    intro store next hcall
    by_cases hd : f = d
    · rw [hd, getElem?_of_deny? hdeny] at hcall
      cases hcall
    · exact hp.settles store next ((getElem?_calls_of_deny? hdeny hd).symm.trans hcall)

theorem step? (hp : p.Settling handlers work origin executed receipts f given)
    (hraises : p.raises actor = false) (hstep : p.step? actor = some q) :
    q.Settling handlers work origin executed receipts f (given ++ p.settlements actor) where
  finishes := hp.finishes.step? hraises hstep
  settles := by
    intro store next hcall
    by_cases hactor : actor = .caller f
    · obtain rfl := hactor
      cases hp.finishes with
      | waiting past hwaits hold =>
          -- the call takes the block, and nobody is settled yet
          have hq := hwaits.take hold ((step?_of_finish hold).symm.trans hstep)
          rw [hq.finish_eq] at hcall
          cases hcall
          rw [hwaits.settlements_eq_nil (by simp), List.append_nil]
          have hnobody := hp.settles _ _ hold
          exact hnobody
      | finishing past made next' hgoes =>
          have hfinish := (step?_of_finish hgoes.finish_eq).symm.trans hstep
          exact hgoes.settles_of_finishMove (hp.settles _ _ hgoes.finish_eq)
            (finishMove_of_stepFinish? hfinish) hcall
      | returned fault made hreturned _ _ =>
          change p.stepCall? f = some q at hstep
          simp [stepCall?, hreturned] at hstep
    · rw [getElem?_calls_of_step? hstep hactor] at hcall
      have hnone : p.settlements actor = [] := by
        cases hp.finishes with
        | waiting past hwaits _ => exact hwaits.settlements_eq_nil (by simp)
        | finishing past made next' hgoes =>
            refine hgoes.settlements_eq_nil fun g _ _ _ _ _ heq => ?_
            cases heq
            exact hactor
        | returned fault made hreturned _ _ =>
            rw [hreturned] at hcall
            cases hcall
      rw [hnone, List.append_nil]
      exact hp.settles store next hcall

/-- From the call on, in a clean run. -/
theorem of_cleanRun? (hq : q.During True handlers past work phase)
    (hstarted : q.isQuiet = true → phase = .started) {moves : List (Move F)}
    (hrun : q.cleanRun? (.call (.finish origin executed receipts) :: moves) = some r) :
    r.Settling handlers work origin executed receipts q.calls.length
      (q.collect settlements (.call (.finish origin executed receipts) :: moves)) := by
  obtain ⟨hadmits, hrest⟩ := Option.ite_none_right_eq_some.mp hrun
  have hnone : (q.invoke (.finish origin executed receipts)).Settling handlers work origin executed
      receipts q.calls.length [] := by
    have hcalled : q.cleanRun? [.call (.finish origin executed receipts)] =
        some (q.invoke (.finish origin executed receipts)) := by
      rw [cleanRun?, if_pos hadmits]
      rfl
    refine ⟨Finishes.of_cleanRun? hq hstarted hcalled, fun store next hcall => ?_⟩
    rw [show (q.invoke _).calls = q.calls ++ [_] from rfl, List.getElem?_concat_length] at hcall
    cases hcall
    exact .start
  refine cleanRun?_induction (P := fun moves r => r.Settling handlers work origin executed receipts
    q.calls.length ((q.invoke (.finish origin executed receipts)).collect settlements moves))
    hrest hnone (fun moves r task hmoves hr hadmits => ?_)
    (fun moves r actor next hmoves hr hraises hstep => ?_)
    fun moves r d reason next hmoves hr hdeny => ?_
  · rw [collect_call (run?_of_cleanRun? hmoves)]
    exact hr.invoke hadmits
  · rw [collect_act (run?_of_cleanRun? hmoves)]
    exact hr.step? hraises hstep
  · rw [collect_deny (run?_of_cleanRun? hmoves)]
    exact hr.deny? hdeny

end Settling

/-- With the move by which the call returns all handlers are settled, and nothing is reserved any
more. -/
theorem settles_of_return (hq : q.During True handlers past work phase)
    (hstarted : q.isQuiet = true → phase = .started) {moves : List (Move F)}
    (hrun : q.cleanRun? (.call (.finish origin executed receipts) :: moves) = some r)
    (hlast : moves.getLast? = some (.act (.caller q.calls.length)))
    (hreturned : r.calls[q.calls.length]? = some (.returned (.finished fault store))) :
    work.Settles handlers executed receipts origin handlers.length
        (q.collect settlements (.call (.finish origin executed receipts) :: moves)) store ∧
      work.Collects handlers handlers.length fault ∧
      ∀ hash, r.charge hash = .error (.unknownTransaction hash) := by
  obtain ⟨before, rfl⟩ := List.getLast?_eq_some_iff.mp hlast
  rw [← List.cons_append, cleanRun?_append] at hrun
  obtain ⟨b, hbefore, hmove⟩ := Option.bind_eq_some_iff.mp hrun
  obtain ⟨hclean, hmove⟩ := Option.ite_none_right_eq_some.mp hmove
  obtain ⟨_, hstep, heq⟩ := Option.bind_eq_some_iff.mp hmove
  cases heq
  have hraises : b.raises (.caller q.calls.length) = false := by simpa [isClean] using hclean
  have hstep : b.step? (.caller q.calls.length) = some r := hstep
  have hb := Settling.of_cleanRun? hq hstarted hbefore
  rw [← List.cons_append, collect_act (run?_of_cleanRun? hbefore)]
  cases hb.finishes with
  | waiting past hwaits hold =>
      have hr := hwaits.take hold ((step?_of_finish hold).symm.trans hstep)
      have hgoes := hr.finish_eq
      rw [hreturned] at hgoes
      cases hgoes
  | finishing past made next hgoes =>
      have hfinish := (step?_of_finish hgoes.finish_eq).symm.trans hstep
      rcases hgoes.stepFinish? (.of_clean hraises) hfinish with
        ⟨_, _, hr⟩ | ⟨hbetween, active, kept, rfl, hkept, -, hcollects⟩
      · have hgoes := hr.finish_eq
        rw [hreturned] at hgoes
        cases hgoes
      · rw [hreturned] at hkept
        cases hkept
        have hnone : b.settlements (.caller q.calls.length) = [] := by
          simp only [settlements, hgoes.finish_eq]
        rw [hnone, List.append_nil]
        exact ⟨hb.settles _ _ hgoes.finish_eq, hcollects,
          fun hash => charge_eq_error (hbetween.ledger trivial hash)⟩
  | returned other made hcall _ _ =>
      change b.stepCall? _ = some r at hstep
      simp [stepCall?, hcall] at hstep

end Pipeline

end TxPipeline
