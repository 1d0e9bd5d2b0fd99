import TxPipeline.Proofs.History
import TxPipeline.Proofs.Invariant.Finish

/-!
# One move

Whoever moves in a clean run or a steady one, the block in work goes on to one of its next phases,
or comes into work with a scan, or is done with the last move of the call that finishes it.
-/

namespace TxPipeline.Pipeline

variable {F : Flow} {calm : Prop} {handlers : List (Handler F)} {past : List (Work F)}
  {work : Work F} {phase : Phase F} {p q : Pipeline F} {actor : Actor} {c i : Nat}

namespace During

theorem stepThread? (hp : p.During calm handlers past work phase) (hgoes : p.Proceeds calm actor)
    (hactor : ∀ c, actor ≠ .caller c) (hstep : p.step? actor = some q) :
    q.During calm handlers past work phase := by
  cases actor with
  | caller c => exact absurd rfl (hactor c)
  | refresher w => exact hp.refresh? hstep
  | receiver w => exact hp.receive? hstep
  | worker w => exact hp.work? hstep
  | feeder lane stage => exact hp.feed? hstep
  | handOver lane w => exact hp.handOver? hstep
  | preparation h lane => exact hp.stepPreparation? hgoes.raises hstep
  | replay h lane => exact hp.stepReplay? hstep
  | aggregation h lane => exact hp.stepAggregation? hgoes.raises hstep

theorem step?_starting {next : Starting} (hp : p.During calm handlers past work (.starting c next))
    (hgoes : p.Proceeds calm actor) (hstep : p.step? actor = some q) :
    (∃ next', q.During calm handlers past work (.starting c next')) ∨
      q.During calm handlers past work .started ∧
        q.calls[c]? = some (.returned (.started (.ok ()))) := by
  rcases hp.call_minds.mover hstep with hthread | ⟨i, closing, hcall, rfl, hclose⟩ | rfl
  · exact .inl ⟨next, hp.stepThread? hgoes hthread hstep⟩
  · exact .inl ⟨next, hp.stepClose? hcall hclose⟩
  · rw [step?_of_start hp.call_eq] at hstep
    exact hp.stepStart? hstep

theorem step?_started (hp : p.During calm handlers past work .started)
    (hgoes : p.Proceeds calm actor) (hstep : p.step? actor = some q) :
    q.During calm handlers past work .started ∨ ∃ f store block receipts,
      p.calls[f]? = some (.finish store block receipts .take) ∧
      q.During calm handlers past work (.finishing f store store block receipts
        (.joinPreparation (work.active past.length) 0)) := by
  rcases thread_or_callMove hstep with hthread | ⟨i, rfl, hmove⟩
  · exact .inl (hp.stepThread? hgoes hthread hstep)
  cases hmove with
  | start store rules block next hcall hstart =>
      obtain rfl := Waits.eq_acquire hp.calls hcall
      exact .inl (hp.refuse hcall hstart).1
  | finish store block receipts next hcall hfinish =>
      obtain rfl := Waits.eq_take hp.calls hcall
      exact .inr ⟨i, store, block, receipts, hcall, hp.take hcall hfinish⟩
  | close next hcall hclose => exact .inl (hp.stepClose? hcall hclose)

theorem step?_finishing {origin store : F.Store} {block : Block} {receipts : List Receipt}
    {next : Finishing}
    (hp : p.During calm handlers past work (.finishing c origin store block receipts next))
    (hgoes : p.Proceeds calm actor) (hstep : p.step? actor = some q) :
    (∃ store' next', q.During calm handlers past work
        (.finishing c origin store' block receipts next')) ∨
      q.Between calm handlers (past ++ [work]) ∧ ∃ fault store',
        q.calls[c]? = some (.returned (.finished fault store')) ∧
        work.Concludes handlers block receipts origin handlers.length store' ∧
        work.Collects handlers handlers.length fault := by
  rcases hp.finish_minds.mover hstep with hthread | ⟨i, closing, hcall, rfl, hclose⟩ | rfl
  · exact .inl ⟨store, next, hp.stepThread? hgoes hthread hstep⟩
  · exact .inl ⟨store, next, hp.stepClose? hcall hclose⟩
  · rw [step?_of_finish hp.finish_eq] at hstep
    rcases hp.stepFinish? hgoes hstep with hserving | ⟨hbetween, active, fault, -, hrest⟩
    · exact .inl hserving
    · exact .inr ⟨hbetween, fault, store, hrest⟩

/-- A call that has got the lock to start a block is the one that starts the block in work. -/
theorem eq_starting {store : F.Store} {rules : Rules} {block : Block} {next : Starting}
    (hp : p.During calm handlers past work phase)
    (hcall : p.calls[i]? = some (.start store rules block next)) (hnext : next ≠ .acquire) :
    phase = .starting i next ∧ next.Valid handlers work past.length := by
  cases phase with
  | starting d other =>
      obtain rfl := hp.call_minds.eq hcall rfl
      have hsame := hp.call_eq
      rw [hcall] at hsame
      cases hsame
      exact ⟨rfl, hp.valid⟩
  | finishing f origin made executed receipts other =>
      obtain rfl := hp.finish_minds.eq hcall rfl
      have hsame := hp.finish_eq
      rw [hcall] at hsame
      cases hsame
  | started => exact absurd (Waits.eq_acquire hp.calls hcall) hnext
  | abandoned joined concluded => exact absurd (Waits.eq_acquire hp.calls hcall) hnext

/-- No call can be denied a thread while a block is in work. -/
theorem deny?_eq_none (hp : p.During calm handlers past work phase) (c : Nat) (reason : String) :
    p.deny? c reason = none :=
  Pipeline.deny?_eq_none (fun _ _ _ hcall => (hp.eq_starting hcall (by simp)).2.elim) reason

/-- A call to finish a block waits for the active one, or it is the one that finishes the block in
work. -/
theorem eq_finishing {f : Nat} {store : F.Store} {block : Block}
    {receipts : List Receipt} {next : Finishing} (hp : p.During calm handlers past work phase)
    (hcall : p.calls[f]? = some (.finish store block receipts next)) :
    next = .take ∧ (phase = .started ∨ ∃ joined concluded, phase = .abandoned joined concluded) ∨
      ∃ origin, phase = .finishing f origin store block receipts next := by
  cases phase with
  | started => exact .inl ⟨Waits.eq_take hp.calls hcall, .inl rfl⟩
  | abandoned joined concluded =>
      exact .inl ⟨Waits.eq_take hp.calls hcall, .inr ⟨joined, concluded, rfl⟩⟩
  | starting d other =>
      obtain rfl := hp.call_minds.eq hcall rfl
      have hsame := hp.call_eq
      rw [hcall] at hsame
      cases hsame
  | finishing d origin made executed receipts' other =>
      obtain rfl := hp.finish_minds.eq hcall rfl
      have hsame := hp.finish_eq
      rw [hcall] at hsame
      cases hsame
      exact .inr ⟨origin, rfl⟩

theorem accepted_of_step? (hp : p.During calm handlers past work phase)
    (hstep : p.step? actor = some q) (haccepted : q.Accepted i) : p.Accepted i := by
  rcases Pipeline.accepted_of_step? hstep haccepted with h | ⟨-, store, rules, block, hcall⟩
  · exact h
  · exact (hp.eq_starting hcall (by simp)).2.elim

end During

namespace Between

theorem stepThread? (hp : p.Between calm handlers past) (hactor : ∀ c, actor ≠ .caller c)
    (hstep : p.step? actor = some q) : q.Between calm handlers past := by
  cases actor with
  | caller c => exact absurd rfl (hactor c)
  | receiver w => exact hp.receive? hstep
  | refresher w =>
      change p.refresh? w = some q at hstep
      rw [hp.refresh?] at hstep
      cases hstep
  | worker w =>
      change p.work? w = some q at hstep
      rw [hp.work?] at hstep
      cases hstep
  | feeder lane stage =>
      change p.feed? lane stage = some q at hstep
      rw [hp.feed?] at hstep
      cases hstep
  | handOver lane w =>
      change p.handOver? lane w = some q at hstep
      rw [hp.handOver?] at hstep
      cases hstep
  | preparation h lane =>
      change p.stepStation? h _ = some q at hstep
      rw [hp.stepStation? fun _ _ => stepPreparation?_of_done] at hstep
      cases hstep
  | replay h lane =>
      change p.stepStation? h _ = some q at hstep
      rw [hp.stepStation? fun _ _ => stepReplay?_of_done] at hstep
      cases hstep
  | aggregation h lane =>
      change p.stepStation? h _ = some q at hstep
      rw [hp.stepStation? fun _ _ => stepAggregation?_of_done] at hstep
      cases hstep

theorem eq_take {f : Nat} {store : F.Store} {block : Block}
    {receipts : List Receipt} {next : Finishing} (hp : p.Between calm handlers past)
    (hcall : p.calls[f]? = some (.finish store block receipts next)) :
    next = .take ∧ p.active = none := by
  rcases hp.calls with hwaits | ⟨d, other, next', henters⟩
  · exact ⟨hwaits.eq_take hcall, hwaits.active_eq⟩
  · by_cases hf : f = d
    · have hsame := henters.call
      rw [← hf, hcall] at hsame
      cases hsame
    · cases henters.minds f _ hcall hf

/-- Between two blocks a move changes nothing, unless it is a scan that brings a block into work. -/
theorem step? (hp : p.Between calm handlers past) (hgoes : p.Proceeds calm actor)
    (hstep : p.step? actor = some q) :
    q.Between calm handlers past ∧ (∀ i, q.Accepted i → p.Accepted i) ∨
      ∃ c store rules block plan, p.calls[c]? = some (.start store rules block .scan) ∧
        actor = .caller c ∧
        q.During calm handlers past ⟨store, rules, block⟩ (.starting c (.opening plan 0)) := by
  by_cases hscan : ∃ c store rules block, actor = .caller c ∧
      p.calls[c]? = some (.start store rules block .scan)
  · obtain ⟨c, store, rules, block, rfl, hcall⟩ := hscan
    have hstart := (step?_of_start hcall).symm.trans hstep
    rcases hp.scan hcall hgoes.raises hstart with ⟨hbetween, failure, hq⟩ | ⟨plan, hduring⟩
    · refine .inl ⟨hbetween, ?_⟩
      intro i haccepted
      rcases accepted_of_step? hstep haccepted with h | ⟨heq, -⟩
      · exact h
      · cases heq
        obtain ⟨call, hcall, haccepted⟩ := haccepted
        rw [hq] at hcall
        cases hcall
        cases haccepted
    · exact .inr ⟨c, store, rules, block, plan, hcall, rfl, hduring⟩
  have haccepted (i : Nat) (h : q.Accepted i) : p.Accepted i := by
    rcases accepted_of_step? hstep h with h | ⟨heq, store, rules, block, hcall⟩
    · exact h
    · exact absurd ⟨i, store, rules, block, heq, hcall⟩ hscan
  refine .inl ⟨?_, haccepted⟩
  rcases thread_or_callMove hstep with hthread | ⟨i, rfl, hmove⟩
  · exact hp.stepThread? hthread hstep
  cases hmove with
  | start store rules block next hcall hstart =>
      cases hnext : next with
      | acquire =>
          obtain rfl := hnext
          exact (hp.acquire hcall hstart).1
      | enter =>
          obtain rfl := hnext
          exact (hp.enter hcall hstart).1
      | scan =>
          obtain rfl := hnext
          exact absurd ⟨i, store, rules, block, rfl, hcall⟩ hscan
      | _ =>
          have henters := (hp.enters_of_call hcall (by simp [hnext])).next_eq
          simp [hnext] at henters
  | finish store block receipts next hcall hfinish =>
      obtain ⟨rfl, -⟩ := hp.eq_take hcall
      exact hp.take hcall hfinish
  | close next hcall hclose => exact hp.stepClose? hcall hclose

/-- As long as a block is in work, or was not given up, the pipeline is not between two blocks. -/
theorem not_during (hp : p.Between calm handlers past) {past' : List (Work F)}
    (hq : p.During calm handlers past' work phase) :
    ∃ joined concluded, phase = .abandoned joined concluded := by
  cases phase with
  | abandoned joined concluded => exact ⟨joined, concluded, rfl⟩
  | finishing f origin store block receipts next =>
      obtain ⟨rfl, -⟩ := hp.eq_take hq.finish_eq
      exact hq.finish_valid.elim
  | started =>
      have hactive := hq.calls.active_eq
      rcases hp.calls with hwaits | ⟨d, other, next, henters⟩
      · rw [hwaits.active_eq] at hactive
        cases hactive
      · rw [henters.active_eq] at hactive
        cases hactive
  | starting c next =>
      have hvalid := hq.valid
      have hnext : next ≠ .acquire := by
        rintro rfl
        exact hvalid
      rcases (hp.enters_of_call hq.call_eq hnext).next_eq with rfl | ⟨rfl, -⟩
      · exact hvalid.elim
      · exact hvalid.elim

end Between

end TxPipeline.Pipeline
