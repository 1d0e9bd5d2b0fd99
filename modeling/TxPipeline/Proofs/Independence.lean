import TxPipeline.Proofs.Charges
import TxPipeline.Proofs.Streams

/-!
# Blocks do not depend on each other

Cells, counters, streams and the ledger are used again for every block, and are reset in several
places. Still nothing of a block shows in a later one: whatever was worked on before, everything
that can be observed of a block is as it is in a pipeline that sees no other block.
-/

namespace TxPipeline

variable {F : Flow} {handlers : List (Handler F)} {past : List (Work F)} {work : Work F}
  {phase : Phase F} {p q r : Pipeline F} {c f k : Nat} {origin store store' : F.Store}
  {block executed : Block} {receipts : List Receipt} {moves : List (Pipeline.Move F)}

/-! ## The end of a block -/

theorem Work.Concludes.unique
    (haggregate : ∀ h a a', work.Aggregates handlers h a → work.Aggregates handlers h a' → a = a')
    (hc : work.Concludes handlers executed receipts origin k store)
    (hc' : work.Concludes handlers executed receipts origin k store') : store = store' := by
  induction hc generalizing store' with
  | start =>
      cases hc'
      rfl
  | next hbefore hhandler ha hfault ih =>
      cases hc' with
      | next hbefore' hhandler' ha' hfault' =>
          obtain rfl := ih hbefore'
          rw [hhandler] at hhandler'
          cases hhandler'
          rw [haggregate _ _ _ ha ha']

/-- A handler that reads nothing but the ordered stream makes the same of it in every run. -/
theorem Work.Aggregates.unique {a a' : F.Aggregate}
    (hordered : ∀ handler common, handlers[k]? = some handler →
      (handler.postProcess common work.block.length).IsOrdered)
    (ha : work.Aggregates handlers k a) (ha' : work.Aggregates handlers k a') : a = a' := by
  obtain ⟨handler, common, completed, i, j, hhandler, hcommon, -, hfollows⟩ := ha
  obtain ⟨handler', common', completed', i', j', hhandler', hcommon', -, hfollows'⟩ := ha'
  rw [hhandler] at hhandler'
  cases hhandler'
  rw [hcommon] at hcommon'
  cases hcommon'
  exact Except.ok.inj (hfollows.outcome_unique hfollows' (hordered handler common hhandler))

/-- `fault` is one of handler `k`, and no handler before it has raised any. -/
def Work.RaisedFirstBy (handlers : List (Handler F)) (work : Work F) (k : Nat) (fault : Fault) :
    Prop :=
  (∃ job ∈ work.jobs handlers, job.handler = k ∧ work.Raises handlers job fault) ∧
    ∀ job ∈ work.jobs handlers, job.handler < k → ∀ f, ¬ work.Raises handlers job f

theorem Work.Collects.exists_first {fault : Fault}
    (hc : work.Collects handlers k (some fault)) : ∃ h, work.RaisedFirstBy handlers h fault := by
  obtain ⟨job, hjob, -, hraises, hfirst⟩ := hc.raised fault rfl
  exact ⟨job.handler, ⟨job, hjob, rfl, hraises⟩, hfirst⟩

theorem Work.RaisedFirstBy.unique {h h' : Nat} {fault fault' : Fault}
    (hf : work.RaisedFirstBy handlers h fault) (hf' : work.RaisedFirstBy handlers h' fault') :
    h = h' := by
  obtain ⟨⟨job, hjob, rfl, hraises⟩, hfirst⟩ := hf
  obtain ⟨⟨job', hjob', rfl, hraises'⟩, hfirst'⟩ := hf'
  rcases Nat.lt_trichotomy job.handler job'.handler with hlt | heq | hlt
  · exact absurd hraises (hfirst' job hjob hlt fault)
  · exact heq
  · exact absurd hraises' (hfirst job' hjob' hlt fault')

/-- Two finishes of one block blame the same handler. -/
theorem Work.Collects.exists_first_of_both {k' : Nat} {fault fault' : Fault}
    (hc : work.Collects handlers k (some fault)) (hc' : work.Collects handlers k' (some fault')) :
    ∃ h, work.RaisedFirstBy handlers h fault ∧ work.RaisedFirstBy handlers h fault' := by
  obtain ⟨h, hfirst⟩ := hc.exists_first
  obtain ⟨h', hfirst'⟩ := hc'.exists_first
  obtain rfl := hfirst.unique hfirst'
  exact ⟨h, hfirst, hfirst'⟩

theorem Work.Collects.isSome_eq {fault fault' : Option Fault} {n : Nat}
    (hc : work.Collects handlers n fault) (hc' : work.Collects handlers n fault') :
    fault.isSome = fault'.isSome := by
  cases fault with
  | none =>
      cases fault' with
      | none => rfl
      | some f =>
          obtain ⟨job, hjob, hlt, hraises, -⟩ := hc'.raised f rfl
          exact absurd hraises (hc.missed rfl job hjob hlt f)
  | some f =>
      cases fault' with
      | some f' => rfl
      | none =>
          obtain ⟨job, hjob, hlt, hraises, -⟩ := hc.raised f rfl
          exact absurd hraises (hc'.missed rfl job hjob hlt f)

namespace Pipeline

/-- What has come of call `f` to finish `work`. -/
inductive Finishes (handlers : List (Handler F)) (work : Work F) (origin : F.Store)
    (executed : Block) (receipts : List Receipt) (f : Nat) (p : Pipeline F) : Prop
  | waiting (past : List (Work F)) (hp : p.During True handlers past work .started)
      (hcall : p.calls[f]? = some (.finish origin executed receipts .take))
  | finishing (past : List (Work F)) (store : F.Store) (next : Finishing)
      (hp : p.During True handlers past work (.finishing f origin store executed receipts next))
  | returned (fault : Option Fault) (store : F.Store)
      (hcall : p.calls[f]? = some (.returned (.finished fault store)))
      (hconcludes : work.Concludes handlers executed receipts origin handlers.length store)
      (hcollects : work.Collects handlers handlers.length fault)

namespace Finishes

theorem invoke {task : Task F} (hp : p.Finishes handlers work origin executed receipts f)
    (hadmits : p.admits task = true) :
    (p.invoke task).Finishes handlers work origin executed receipts f := by
  cases hp with
  | waiting past hp hcall =>
      exact .waiting past (hp.invoke hadmits) (getElem?_append_calls hcall rfl)
  | finishing past store next hp => exact .finishing past store next (hp.invoke hadmits)
  | returned fault store hcall hconcludes hcollects =>
      exact .returned fault store (getElem?_append_calls hcall rfl) hconcludes hcollects

theorem step? {actor : Actor} (hp : p.Finishes handlers work origin executed receipts f)
    (hraises : p.raises actor = false) (hstep : p.step? actor = some q) :
    q.Finishes handlers work origin executed receipts f := by
  cases hp with
  | waiting past hp hcall =>
      by_cases hactor : actor = .caller f
      · obtain rfl := hactor
        rw [step?_of_finish hcall] at hstep
        exact .finishing past origin _ (hp.take hcall hstep)
      rcases hp.step?_started (.of_clean hraises) hstep with
        hq | ⟨g, store, block, receipts', hg, hq⟩
      · exact .waiting past hq ((getElem?_calls_of_step? hstep hactor).trans hcall)
      · -- only one call waits, so that it is `f` that was made to move
        obtain rfl := (hp.calls.minds hcall rfl).eq hg rfl
        have hsame := hq.finish_eq
        rw [getElem?_calls_of_step? hstep hactor, hcall] at hsame
        cases hsame
  | finishing past store next hp =>
      rcases hp.step?_finishing (.of_clean hraises) hstep with
        ⟨store', next', hq⟩ | ⟨-, fault, store', hreturned, hconcludes, hcollects⟩
      · exact .finishing past store' next' hq
      · exact .returned fault store' hreturned hconcludes hcollects
  | returned fault store hcall hconcludes hcollects =>
      obtain ⟨next, hnext, hturns⟩ := exists_turns_of_step? hstep hcall
      cases hturns
      exact .returned fault store hnext hconcludes hcollects

theorem deny? {d : Nat} {reason : String}
    (hp : p.Finishes handlers work origin executed receipts f)
    (hdeny : p.deny? d reason = some q) :
    q.Finishes handlers work origin executed receipts f := by
  cases hp with
  | waiting past hp hcall => cases (hp.deny?_eq_none d reason).symm.trans hdeny
  | finishing past store next hp => cases (hp.deny?_eq_none d reason).symm.trans hdeny
  | returned fault store hcall hconcludes hcollects =>
      obtain ⟨next, hnext, hturns⟩ := exists_turns_of_deny? hdeny hcall
      cases hturns
      exact .returned fault store hnext hconcludes hcollects

theorem of_cleanRun? (hq : q.During True handlers past work phase)
    (hstarted : q.isQuiet = true → phase = .started)
    (hrun : q.cleanRun? (.call (.finish origin executed receipts) :: moves) = some r) :
    r.Finishes handlers work origin executed receipts q.calls.length := by
  rw [cleanRun?] at hrun
  split at hrun
  · rename_i hadmits
    change q.admits (.finish origin executed receipts) = true at hadmits
    have hquiet : q.isQuiet = true := (Bool.and_eq_true_iff.mp hadmits).1
    obtain rfl := hstarted hquiet
    have hfirst : (q.invoke (.finish origin executed receipts)).Finishes handlers work origin
        executed receipts q.calls.length :=
      .waiting past (hq.invoke hadmits) List.getElem?_concat_length
    exact cleanRun?_induction
      (P := fun _ r => r.Finishes handlers work origin executed receipts q.calls.length) hrun hfirst
      (fun _ _ _ _ hp hadmits => hp.invoke hadmits)
      (fun _ _ _ _ _ hp hraises hstep => hp.step? hraises hstep)
      fun _ _ _ _ _ _ hp hdeny => hp.deny? hdeny
  · cases hrun

theorem eq_returned {fault : Option Fault}
    (hp : p.Finishes handlers work origin executed receipts f)
    (hcall : p.calls[f]? = some (.returned (.finished fault store))) :
    work.Concludes handlers executed receipts origin handlers.length store ∧
      work.Collects handlers handlers.length fault := by
  cases hp with
  | waiting past hp hcall' =>
      rw [hcall] at hcall'
      cases hcall'
  | finishing past store' next hp =>
      have hcall' := hp.finish_eq
      rw [hcall] at hcall'
      cases hcall'
  | returned fault' store' hcall' hconcludes hcollects =>
      rw [hcall] at hcall'
      cases hcall'
      exact ⟨hconcludes, hcollects⟩

end Finishes

/-! ## Refusals -/

variable {config config' : Config} {registry : Registry F} {p' q' : Pipeline F}
  {moves' : List (Move F)} {c' : Nat} {failure : Failure}

/-- A call that is refused finds the pipeline closed, or another block in work, or a transaction
that is not accepted. -/
def Refuses (handlers : List (Handler F)) (work : Work F) (failure : Failure) : Prop :=
  failure = .error .closed ∨ (∃ n, failure = .error (.blockInProgress n)) ∨ ¬ work.Accepted handlers

theorem refuses_of_stepStart? {next : Starting} (hhandlers : p.stations.map (·.handler) = handlers)
    (hnext : next = .acquire ∨ next = .enter ∨ next = .scan)
    (hcall : p.calls[c]? = some (.start work.store work.rules work.block next))
    (hstep : p.stepStart? c work.store work.rules work.block next = some q)
    (hnew : q.calls[c]? = some (.returned (.started (.error failure)))) :
    Refuses handlers work failure := by
  have hset {call : Call F} (hcalls : q.calls = p.calls.set c call) :
      call = .returned (.started (.error failure)) :=
    eq_of_set_calls hcall hcalls hnew
  -- a scan that ends with an error has met a transaction that is not accepted
  have hrefused {failure' : Failure} {tx : IndexedTx} {q' : Pipeline F}
      (hscan : p.scan work.rules work.block.indexed = (.error (failure', tx), q')) :
      ¬ work.Accepted handlers := by
    intro haccepted
    obtain ⟨before, after, hsplit, -, hverdict, -⟩ := scan_eq_error hhandlers hscan
    obtain ⟨reservation, hok⟩ := haccepted tx (by simp [hsplit])
    rw [hverdict] at hok
    cases hok
  cases startMove_of_stepStart? hstep with
  | refuse active =>
      cases hset rfl
      exact .inr (.inl ⟨_, rfl⟩)
  | closed =>
      cases hset rfl
      exact .inl rfl
  | scanFault fault tx ledger log hscan => exact .inr (.inr (hrefused hscan))
  | scanError error tx ledger log hscan => exact .inr (.inr (hrefused hscan))
  | acquire | enter | scan => cases hset rfl
  | _ => rcases hnext with h | h | h <;> cases h

theorem Chronicle.refuses {ts : List (Task F)} {actor : Actor} {next : Starting}
    (hp : Chronicle True handlers ts p) (hraises : p.raises actor = false)
    (hstep : p.step? actor = some q)
    (hold : p.calls[c]? = some (.start work.store work.rules work.block next))
    (hnew : q.calls[c]? = some (.returned (.started (.error failure)))) :
    Refuses handlers work failure := by
  obtain rfl : actor = .caller c := by
    by_contra hne
    rw [getElem?_calls_of_step? hstep hne, hold] at hnew
    cases hnew
  have hstart : p.stepStart? c work.store work.rules work.block next = some q :=
    (step?_of_start hold).symm.trans hstep
  -- only a call that has not scanned its block yet can be refused, whatever the phase
  cases hp with
  | between past hp hover =>
      refine refuses_of_stepStart? hp.crew.handlers_eq ?_ hold hstart hnew
      by_cases hnext : next = .acquire
      · exact .inl hnext
      · exact .inr ((hp.enters_of_call hold hnext).next_eq.imp_right (·.1))
  | starting past other d next' hp _ _ =>
      obtain rfl := hp.call_minds.eq hold rfl
      rcases hp.step?_starting (.of_clean hraises) hstep with ⟨next', hq⟩ | ⟨-, hreturned⟩
      · have hsame := hq.call_eq
        rw [hnew] at hsame
        cases hsame
      · rw [hnew] at hreturned
        cases hreturned
  | started past other phase d hp hphase _ _ _ =>
      cases phase with
      | starting e next' => cases hphase
      | abandoned joined concluded => cases hphase
      | finishing e origin store block receipts next' =>
          have hsame := hp.finish_eq
          rw [← hp.finish_minds.eq hold rfl, hold] at hsame
          cases hsame
      | started =>
          exact refuses_of_stepStart? hp.crew.handlers_eq (.inl (Waits.eq_acquire hp.calls hold))
            hold hstart hnew

/-- In a clean run a call to start a block is refused for no other reason, unless it is denied a
thread. -/
theorem refuses_of_cleanRun? (hcreate : create config registry = .ok p)
    (hrun : p.cleanRun? moves = some q) (htask : (tasks moves)[c]? = some work.task)
    (hcall : q.calls[c]? = some (.returned (.started (.error failure)))) :
    Refuses registry.handlers work failure ∨ Denied moves c failure := by
  refine cleanRun?_induction (P := fun moves q => ∀ (c : Nat) (work : Work F) (failure : Failure),
    (tasks moves)[c]? = some work.task →
    q.calls[c]? = some (.returned (.started (.error failure))) →
    Refuses registry.handlers work failure ∨ Denied moves c failure) hrun ?_ ?_ ?_ ?_
    c work failure htask hcall
  · intro c work failure _ hcall
    simp [calls_create hcreate] at hcall
  · intro moves q task hrun ih _ c work failure htask hcall
    have hlength := length_calls_eq hcreate (run?_of_cleanRun? hrun)
    rcases getElem?_of_invoke hcall with hcall | ⟨-, heq⟩
    · have hlt := (List.getElem?_eq_some_iff.mp hcall).1
      rw [tasks_append, List.getElem?_append_left (hlength ▸ hlt)] at htask
      exact (ih c work failure htask hcall).imp_right fun h => h.append _
    · cases task <;> cases heq
  · intro moves q actor next hrun ih hraises hstep c work failure htask hcall
    rw [tasks_append_act] at htask
    obtain ⟨old, hold, hturns'⟩ := exists_turned_of_step? hstep hcall
    obtain ⟨task, htask', hturns⟩ := exists_task hcreate (run?_of_cleanRun? hrun) hold
    obtain rfl : task = work.task := Option.some.inj (htask'.symm.trans htask)
    cases hturns' with
    | returned answer => exact (ih c work failure htask hold).imp_right fun h => h.append _
    | started store rules block nextMove outcome =>
        cases hturns
        exact .inl ((Chronicle.of_cleanRun? hcreate hrun).refuses hraises hstep hold hcall)
  · intro moves q d reason next hrun ih hdeny c work failure htask hcall
    rw [tasks_append_deny] at htask
    by_cases hd : c = d
    · subst hd
      rw [getElem?_of_deny? hdeny] at hcall
      cases hcall
      exact .inr ⟨reason, rfl, List.mem_append_right moves List.mem_cons_self⟩
    · rw [getElem?_calls_of_deny? hdeny hd] at hcall
      exact (ih c work failure htask hcall).imp_right fun h => h.append _

/-! ## Two runs -/

/-- The streams of two lanes for the same block, at stations of the same handler, show the same. -/
structure Matches (work : Work F) (s s' : Station F) (l l' : Lane F) : Prop where
  ordered : ∀ (i : Nat) r r', l.ordered.sent[i]? = some r → l'.ordered.sent[i]? = some r' → r = r'
  ordered_all : l.replay = .ended → l'.replay = .ended → l.ordered.held = true →
    l'.ordered.held = true → l.ordered.sent = l'.ordered.sent
  completed : ∀ r ∈ l.completions.sent, ∀ r' ∈ l'.completions.sent, r.index = r'.index → r = r'
  completed_all : s.remaining = 0 → s'.remaining = 0 →
    l.completions.sent.Perm l'.completions.sent
  read : ∀ reader reader', s.Reaches l reader → s'.Reaches l' reader' →
    ∃ common results completed completed' i j i' j',
      s.handler.beforeBlock work.store work.rules work.block = .ok common ∧
      results.map (·.tx) = work.block.indexed ∧
      completed.Perm results ∧ completed'.Perm results ∧
      Reader.Follows results completed (s.handler.postProcess common work.block.length) reader i j ∧
      Reader.Follows results completed' (s.handler.postProcess common work.block.length)
        reader' i' j'

theorem During.matches_of_eq {handlers' : List (Handler F)} {past' : List (Work F)}
    {phase' : Phase F} {h h' : Nat} {s s' : Station F} {l l' : Lane F}
    (hq : q.During True handlers past work phase)
    (hq' : q'.During True handlers' past' work phase') (hs : q.stations[h]? = some s)
    (hs' : q'.stations[h']? = some s') (hl : s.lanes[past.length]? = some l)
    (hl' : s'.lanes[past'.length]? = some l') (hhandler : s.handler = s'.handler)
    (hresults : work.resultsOf handlers' h' = work.resultsOf handlers h) :
    Matches work s s' l l' := by
  have hcovers := hq.covers hs hl
  have hcovers' := hresults ▸ hq'.covers hs' hl'
  refine ⟨?_, ?_, ?_, ?_, ?_⟩
  · intro i r r' hr hr'
    have hget := hcovers.getElem?_of_replayed hr
    rw [hcovers'.getElem?_of_replayed hr'] at hget
    exact (Option.some.inj hget).symm
  · intro hended hended' hheld hheld'
    rw [hcovers.replayed_all hended hheld, hcovers'.replayed_all hended' hheld']
  · intro r hr r' hr' hindex
    have hget := Work.getElem?_of_mem_resultsOf hq.length_le (hcovers.mem_of_announced hr)
    rw [hindex, Work.getElem?_of_mem_resultsOf hq.length_le (hcovers'.mem_of_announced hr')] at hget
    exact (Option.some.inj hget).symm
  · intro hzero hzero'
    exact (hcovers.perm_of_remaining hzero).trans (hcovers'.perm_of_remaining hzero').symm
  · intro reader reader' hreader hreader'
    obtain ⟨common, completed, i, j, hcommon, -, hperm, hfollows⟩ := hq.follows hs hl hreader
    obtain ⟨common', completed', i', j', hcommon', -, hperm', hfollows'⟩ :=
      hq'.follows hs' hl' hreader'
    rw [← hhandler] at hcommon' hfollows'
    rw [hresults] at hperm' hfollows'
    rw [hcommon] at hcommon'
    cases hcommon'
    exact ⟨common, _, completed, completed', i, j, i', j', hcommon, Work.map_tx_resultsOf _ _ _,
      hperm, hperm', hfollows, hfollows'⟩

theorem During.matches {past' : List (Work F)} {phase' : Phase F} {h : Nat} {s s' : Station F}
    {l l' : Lane F} (hq : q.During True handlers past work phase)
    (hq' : q'.During True handlers past' work phase') (hs : q.stations[h]? = some s)
    (hs' : q'.stations[h]? = some s') (hl : s.lanes[past.length]? = some l)
    (hl' : s'.lanes[past'.length]? = some l') : Matches work s s' l l' := by
  refine hq.matches_of_eq hq' hs hs' hl hl' ?_ rfl
  have hget := hq.crew.getElem?_handlers h
  rw [hq'.crew.getElem?_handlers, hs, hs'] at hget
  simpa using hget.symm

/-- Whatever a pipeline worked on before, what can be observed of a block is the same as in any
other run of a pipeline with these handlers, one that has just been built included: whether the
block is refused for its transactions, its results and charges, its streams, and with which fault
of which handler and which store it is finished. -/
theorem block_independence (hcreate : create config registry = .ok p)
    (hrun : p.cleanRun? moves = some q) (htask : (tasks moves)[c]? = some work.task)
    (hwork : q.InWork c) (hcreate' : create config' registry = .ok p')
    (hrun' : p'.cleanRun? moves' = some q') (htask' : (tasks moves')[c']? = some work.task) :
    (∀ failure, q'.calls[c']? = some (.returned (.started (.error failure))) →
      failure = .error .closed ∨ (∃ n, failure = .error (.blockInProgress n)) ∨
        Denied moves' c' failure) ∧
    (q'.InWork c' →
      (∀ h i r r', q.result? h i = .ok (some r) → q'.result? h i = .ok (some r') → r = r') ∧
      (∀ hash, q.charge hash = q'.charge hash) ∧
      (∀ (h : Nat) s s' l l', q.stations[h]? = some s → q'.stations[h]? = some s' →
        s.lanes[q.lastLane]? = some l → s'.lanes[q'.lastLane]? = some l' →
        Matches work s s' l l') ∧
      ∀ {origin : F.Store} {executed : Block} {receipts : List Receipt}
        {after after' : List (Move F)} {r r' : Pipeline F} {fault fault' : Option Fault}
        {store store' : F.Store},
        q.cleanRun? (.call (.finish origin executed receipts) :: after) = some r →
        r.calls[q.calls.length]? = some (.returned (.finished fault store)) →
        q'.cleanRun? (.call (.finish origin executed receipts) :: after') = some r' →
        r'.calls[q'.calls.length]? = some (.returned (.finished fault' store')) →
        fault.isSome = fault'.isSome ∧
        (∀ f f', fault = some f → fault' = some f' → ∃ h,
          work.RaisedFirstBy registry.handlers h f ∧ work.RaisedFirstBy registry.handlers h f') ∧
        ((∀ h a a', work.Aggregates registry.handlers h a →
          work.Aggregates registry.handlers h a' → a = a') → store = store')) := by
  obtain ⟨past, phase, hq, -, hstarted⟩ := exists_phase work hcreate hrun htask hwork
  refine ⟨fun failure hrefused => ?_, fun hwork' => ?_⟩
  · rcases refuses_of_cleanRun? hcreate' hrun' htask' hrefused with (h | h | h) | h
    · exact .inl h
    · exact .inr (.inl h)
    · exact absurd hq.accepted h
    · exact .inr (.inr h)
  obtain ⟨past', phase', hq', -, hstarted'⟩ := exists_phase work hcreate' hrun' htask' hwork'
  refine ⟨?_, ?_, ?_, ?_⟩
  · intro h i r r' hr hr'
    obtain ⟨tx, htx, rfl, -⟩ := hq.result? hr
    obtain ⟨tx', htx', rfl, -⟩ := hq'.result? hr'
    rw [htx] at htx'
    cases htx'
    rfl
  · intro hash
    rw [charge, charge, Gas.Ledger.charge, Gas.Ledger.charge, hq.ledger trivial,
      hq'.ledger trivial]
  · intro h s s' l l' hs hs' hl hl'
    rw [hq.lastLane_eq] at hl
    rw [hq'.lastLane_eq] at hl'
    exact hq.matches hq' hs hs' hl hl'
  · intro origin executed receipts after after' r r' fault fault' store store' hr hcall hr' hcall'
    obtain ⟨hconcludes, hcollects⟩ := (Finishes.of_cleanRun? hq hstarted hr).eq_returned hcall
    obtain ⟨hconcludes', hcollects'⟩ := (Finishes.of_cleanRun? hq' hstarted' hr').eq_returned hcall'
    refine ⟨hcollects.isSome_eq hcollects', fun f f' hf hf' => ?_, fun hunique => ?_⟩
    · obtain rfl := hf
      obtain rfl := hf'
      exact hcollects.exists_first_of_both hcollects'
    · exact hconcludes.unique hunique hconcludes'

end Pipeline

/-! ## A run -/

namespace Sample

open Pipeline

/-- The block is started and finished, and then started once more. -/
def restarted : List (Move flow) :=
  finished ++ .call (.start (3 : Nat) .latest pair) ::
    [.caller 2, .caller 2, .caller 2, .caller 2, .caller 2, .caller 2, .caller 2, .refresher 0,
      .refresher 1, .refresher 0, .refresher 1, .caller 2, .caller 2, .caller 2, .caller 2,
      .caller 2, .preparation 0 1, .caller 2, .caller 2, .caller 2, .caller 2, .feeder 1 .prefetch,
      .feeder 1 .process, .receiver 0, .worker 0, .receiver 1, .worker 1, .aggregation 0 1,
      .caller 2, .worker 0, .aggregation 0 1, .worker 0, .worker 1, .worker 1, .worker 1,
      .worker 1].map .act

/-- Call `c` finishes the block. -/
def finishedBy (c lane : Nat) : List (Move flow) :=
  .call (.finish (3 : Nat) pair []) :: concludingIn c lane

end Sample

open Pipeline Sample in
/-- The block is started on a pipeline that has finished it before, and on one that has just been
built. The results, the charges, the streams and the finished stores are the same. -/
theorem block_independence_restarted : ∃ q q' r r' s s' l l' last last' fault fault' store store',
    (ofConfig oneEach adders).cleanRun? restarted = some q ∧
    (ofConfig oneEach adders).cleanRun? started = some q' ∧ q.InWork 2 ∧ q'.InWork 0 ∧
    q.result? 0 0 = .ok (some r) ∧ q'.result? 0 0 = .ok (some r') ∧ r = r' ∧
    (∀ hash, q.charge hash = q'.charge hash) ∧
    q.stations[0]? = some s ∧ s.lanes[q.lastLane]? = some l ∧
    q'.stations[0]? = some s' ∧ s'.lanes[q'.lastLane]? = some l' ∧
    Matches ⟨(3 : Nat), .latest, pair⟩ s s' l l' ∧
    q.cleanRun? (finishedBy 3 1) = some last ∧ q'.cleanRun? (finishedBy 1 0) = some last' ∧
    last.calls[3]? = some (.returned (.finished fault store)) ∧
    last'.calls[1]? = some (.returned (.finished fault' store')) ∧
    fault.isSome = fault'.isSome ∧ store = store' := by
  obtain ⟨q, hrun, hwork, hthree, ⟨r, hr, -⟩, s, hs, l, hl, -⟩ : ∃ q,
      (ofConfig oneEach adders).cleanRun? restarted = some q ∧ q.InWork 2 ∧ q.calls.length = 3 ∧
        (∃ r, q.result? 0 0 = .ok (some r) ∧ r.output = some 6) ∧
        ∃ s, q.stations[0]? = some s ∧ ∃ l, s.lanes[q.lastLane]? = some l ∧ l.length = 2 := by
    decide +kernel
  obtain ⟨q', hrun', hwork', hone, ⟨r', hr', -⟩, s', hs', l', hl', -⟩ : ∃ q,
      (ofConfig oneEach adders).cleanRun? started = some q ∧ q.InWork 0 ∧ q.calls.length = 1 ∧
        (∃ r, q.result? 0 0 = .ok (some r) ∧ r.output = some 6) ∧
        ∃ s, q.stations[0]? = some s ∧ ∃ l, s.lanes[q.lastLane]? = some l ∧ l.length = 2 := by
    decide +kernel
  obtain ⟨last, hlast, hfinished⟩ : ∃ last,
      (ofConfig oneEach adders).cleanRun? (restarted ++ finishedBy 3 1) = some last ∧
        last.outcome? 3 = some (none, 9) := by
    decide +kernel
  obtain ⟨last', hlast', hfinished'⟩ : ∃ last,
      (ofConfig oneEach adders).cleanRun? (started ++ finishedBy 1 0) = some last ∧
        last.outcome? 1 = some (none, 9) := by
    decide +kernel
  rw [cleanRun?_append, hrun, Option.bind_some] at hlast
  rw [cleanRun?_append, hrun', Option.bind_some] at hlast'
  have hcreate : create oneEach adders = .ok (ofConfig oneEach adders) := rfl
  have htask : (tasks started)[0]? = some (Work.task ⟨(3 : Nat), .latest, pair⟩) := rfl
  obtain ⟨hresults, hcharges, hmatches, hfinishes⟩ :=
    (block_independence hcreate hrun rfl hwork hcreate hrun' htask).2 hwork'
  have hcall := calls_of_outcome? hfinished
  have hcall' := calls_of_outcome? hfinished'
  obtain ⟨hfault, -, hstore⟩ := hfinishes hlast (hthree.symm ▸ hcall) hlast' (hone.symm ▸ hcall')
  refine ⟨q, q', r, r', s, s', l, l', last, last', _, _, _, _, hrun, hrun', hwork, hwork', hr, hr',
    hresults 0 0 r r' hr hr', hcharges, hs, hl, hs', hl', hmatches 0 s s' l l' hs hs' hl hl', hlast,
    hlast', hcall, hcall', hfault, hstore fun h a a' => Work.Aggregates.unique ?_⟩
  intro handler common hhandler
  obtain rfl := List.mem_singleton.mp (List.mem_of_getElem? hhandler)
  exact fun _ => trivial

end TxPipeline
