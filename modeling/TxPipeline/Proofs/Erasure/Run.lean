import TxPipeline.Proofs.Erasure.Calls

/-!
# Runs that come to the same without some calls

A clean run stays clean when calls are left out of it that leave nothing behind, and comes to the
same for all the others.
-/

namespace TxPipeline.Pipeline

variable {F : Flow} {calm : Prop} {config : Config} {registry : Registry F} {revived : Bool}
  {dropped : Nat → Bool} {handlers : List (Handler F)} {p p' q : Pipeline F} {c : Nat}
  {call next : Call F} {ts : List (Task F)} {actor : Actor} {moves : List (Move F)}

/-- The calls that are dropped are refused, or may still be. If the pipeline is to be without any
closing, they are all those that close it, and those that are refused because of that. -/
structure Droppable (revived : Bool) (dropped : Nat → Bool) (p : Pipeline F) : Prop where
  harmless : ∀ c call, dropped c = true → p.calls[c]? = some call →
    call.isRefusable = true ∨ revived = true ∧ call.isClosing = true
  closing : revived = true → ∀ c call, p.calls[c]? = some call → call.isClosing = true ∨
    call = .returned (.started (.error (.error .closed))) → dropped c = true

theorem isRefusable_of_step? (hstep : p.step? actor = some q) (hcall : p.calls[c]? = some call)
    (hnext : q.calls[c]? = some next) (h : next.isRefusable = true) : call.isRefusable = true := by
  by_cases hactor : actor = .caller c
  · subst hactor
    cases call with
    | returned answer =>
        change p.stepCall? c = some q at hstep
        simp [stepCall?, hcall] at hstep
    | close closing =>
        obtain ⟨turned, hturned, hturns⟩ := exists_turns_of_step? hstep hcall
        obtain rfl := Option.some.inj (hnext.symm.trans hturned)
        cases hturns <;> cases h
    | finish store block receipts finishing =>
        obtain ⟨turned, hturned, hturns⟩ := exists_turns_of_step? hstep hcall
        obtain rfl := Option.some.inj (hnext.symm.trans hturned)
        cases hturns <;> cases h
    | start store rules block starting =>
        rw [step?_of_start hcall] at hstep
        have hset {call : Call F} (hcalls : q.calls = p.calls.set c call) : call = next :=
          eq_of_set_calls hcall hcalls hnext
        cases startMove_of_stepStart? hstep with
        | refuse | acquire | enter | closed | scanFault | scanError | scan => rfl
        | _ =>
            obtain rfl := hset rfl
            cases h
  · rw [getElem?_calls_of_step? hstep hactor, hcall] at hnext
    cases hnext
    exact h

theorem isRefusable_of_deny? {d : Nat} {reason : String} (hdeny : p.deny? d reason = some q)
    (hcall : p.calls[c]? = some call) (hnext : q.calls[c]? = some next)
    (h : next.isRefusable = true) : call.isRefusable = true := by
  by_cases hd : c = d
  · subst hd
    obtain ⟨_, _, _, hscan, -⟩ := turns_of_deny? hdeny
    obtain rfl := Option.some.inj (hscan.symm.trans hcall)
    rfl
  · rw [getElem?_calls_of_deny? hdeny hd, hcall] at hnext
    cases hnext
    exact h

namespace Droppable

theorem of_continues (hgoes : p.Continues q) (hrefusable : ∀ {c : Nat} {call next : Call F},
      p.calls[c]? = some call → q.calls[c]? = some next → next.isRefusable = true →
        call.isRefusable = true)
    (hq : q.Droppable revived dropped) : p.Droppable revived dropped where
  harmless := fun c call hdropped hcall => by
    obtain ⟨next, hnext, hturns⟩ := hgoes.turns c call hcall
    refine (hq.harmless c next hdropped hnext).imp (hrefusable hcall hnext) ?_
    rintro ⟨hrevived, hclosing⟩
    exact ⟨hrevived, by cases hturns <;> first | rfl | exact hclosing⟩
  closing := fun hrevived c call hcall h => by
    obtain ⟨next, hnext, hturns⟩ := hgoes.turns c call hcall
    refine hq.closing hrevived c next hnext (h.imp hturns.isClosing ?_)
    rintro rfl
    cases hturns
    rfl

theorem of_step? (hstep : p.step? actor = some q) (hq : q.Droppable revived dropped) :
    p.Droppable revived dropped :=
  hq.of_continues (continues_of_step? hstep) (isRefusable_of_step? hstep)

theorem of_deny? {d : Nat} {reason : String} (hdeny : p.deny? d reason = some q)
    (hq : q.Droppable revived dropped) : p.Droppable revived dropped :=
  hq.of_continues (continues_of_deny? hdeny) (isRefusable_of_deny? hdeny)

theorem of_invoke {task : Task F} (hq : (p.invoke task).Droppable revived dropped) :
    p.Droppable revived dropped where
  harmless := fun c call hdropped hcall =>
    hq.harmless c call hdropped (getElem?_append_calls hcall rfl)
  closing := fun hrevived c call hcall =>
    hq.closing hrevived c call (getElem?_append_calls hcall rfl)

end Droppable

namespace Erases

variable (hp : p.Erases revived dropped p')

include hp

theorem setCall_dropped (hdropped : dropped c = true) (call : Call F) :
    (p.setCall c call).Erases revived dropped p' :=
  { hp with calls := by rw [Pipeline.setCall, hp.calls, keep_set_of_dropped hdropped] }

theorem setLedger {ledger : Gas.Ledger} (log : List Event)
    (hledger : ∀ hash, ledger.find? hash = p.ledger.find? hash) :
    ({ p with ledger, log } : Pipeline F).Erases revived dropped p' :=
  { hp with ledger := fun hash => (hp.ledger hash).trans (hledger hash).symm }

/-- A dropped call leaves everything as it would be without it. -/
theorem of_dropped (hchronicle : Chronicle True handlers ts p) (hdropped : dropped c = true)
    (hbefore : p.Droppable revived dropped) (hafter : q.Droppable revived dropped)
    (hraises : p.raises (.caller c) = false) (hstep : p.step? (.caller c) = some q) :
    q.Erases revived dropped p' := by
  cases callMove_of_stepCall? hstep with
  | start store rules block next hcall hstart =>
      have hset {call : Call F} (hcalls : q.calls = p.calls.set c call) :
          call.isRefusable = true ∨ revived = true ∧ call.isClosing = true :=
        hafter.harmless c call hdropped (getElem?_of_set_calls hcall hcalls)
      cases startMove_of_stepStart? hstart with
      | refuse | enter => exact hp.setCall_dropped hdropped _
      | acquire => exact (hp.lock true p'.locked).setCall_dropped hdropped _
      | closed => exact (hp.lock false p'.locked).setCall_dropped hdropped _
      | scanFault fault tx ledger log hscan =>
          simp [raises, callRaises, hcall, hscan] at hraises
      | scanError error tx ledger log hscan =>
          -- the ledger is empty while no block is in work, and empty again after the scan
          obtain ⟨past, hbetween⟩ := hchronicle.between_of_scan hcall
          have hempty : ∀ hash, ((ledger.clear (block.hashes.take (tx.index + 1))).find? hash) =
              none := by
            rcases hbetween.scan hcall (fun _ => hraises) hstart with ⟨hq, -⟩ | ⟨plan, hq⟩
            · exact hq.ledger trivial
            · have hcall' := hq.call_eq
              rw [getElem?_of_set_calls hcall rfl] at hcall'
              cases hcall'
          have hcleared := hp.setLedger log fun hash =>
            (hempty hash).trans (hbetween.ledger trivial hash).symm
          exact (hcleared.lock false p'.locked).setCall_dropped hdropped _
      | announceFault | settleFault | activate => rcases hset rfl with h | ⟨-, h⟩ <;> cases h
      | _ =>
          rcases hset rfl with h | ⟨-, h⟩ <;> cases h
  | finish store block receipts next hcall =>
      rcases hbefore.harmless c _ hdropped hcall with h | ⟨-, h⟩ <;> cases h
  | close next hcall hclose =>
      obtain rfl : revived = true := by
        rcases hbefore.harmless c _ hdropped hcall with h | ⟨h, -⟩
        · cases h
        · exact h
      cases closeMove_of_stepClose? hclose with
      | take hopen => exact { hp.setCall_dropped hdropped (.close .check) with isOpen := hp.isOpen }
      | check log hfree =>
          exact { hp.setCall_dropped hdropped (.close (.join 0)) with
            poolSenders := hp.poolSenders }
      | miss | closed | join | lost => exact { hp.setCall_dropped hdropped _ with }

/-- So does one that is denied a thread. -/
theorem of_denied {reason : String} (hchronicle : Chronicle True handlers ts p)
    (hdropped : dropped c = true) (hdeny : p.deny? c reason = some q) :
    q.Erases revived dropped p' := by
  cases denyMove_of_deny? hdeny with
  | deny store rules block decisions ledger log hcall hscan =>
      obtain ⟨past, hbetween⟩ := hchronicle.between_of_scan hcall
      have hcleared := hp.setLedger log fun hash =>
        ((hbetween.deny? hdeny).ledger trivial hash).trans (hbetween.ledger trivial hash).symm
      exact (hcleared.lock false p'.locked).setCall_dropped hdropped _

theorem callRaises (hkept : dropped c = false) (hcall : p.calls[c]? = some call) :
    p'.callRaises (rank dropped c) = p.callRaises c := by
  have hcall' : p'.calls[rank dropped c]? = some call := by
    rw [hp.calls]
    exact getElem?_keep hcall hkept
  unfold Pipeline.callRaises
  rw [hcall, hcall', hp.stations]
  cases call with
  | start store rules block next =>
      cases next with
      | scan =>
          have houtcome := (hp.scan rules block.indexed).1
          rcases hleft : p.scan rules block.indexed with ⟨outcome, r⟩
          rcases hright : p'.scan rules block.indexed with ⟨outcome', r'⟩
          rw [hleft, hright] at houtcome
          obtain rfl : outcome' = outcome := houtcome
          dsimp only
          rw [hleft, hright]
          cases outcome' with
          | ok decisions => rfl
          | error e =>
              obtain ⟨failure, tx⟩ := e
              cases failure <;> rfl
      | _ => rfl
  | finish store block receipts next => cases next <;> rfl
  | _ => rfl

theorem isQuiet (hquiet : p.isQuiet = true) : p'.isQuiet = true := by
  refine List.all_eq_true.mpr fun call hmem => ?_
  rw [hp.calls] at hmem
  exact List.all_eq_true.mp hquiet call (mem_of_mem_keep hmem)

theorem admits {task : Task F} (hadmits : p.admits task = true) : p'.admits task = true := by
  cases task with
  | close => rfl
  | start store rules block =>
      simp only [Pipeline.admits, Bool.and_eq_true] at hadmits ⊢
      exact ⟨hp.isQuiet hadmits.1, hadmits.2⟩
  | finish store block receipts =>
      simp only [Pipeline.admits, Bool.and_eq_true] at hadmits ⊢
      exact ⟨hp.isQuiet hadmits.1, hp.active ▸ hadmits.2⟩

theorem unlocked (hgoverns : p.Governs) (hgoverns' : p'.Governs) (hunlocked : p.locked = false) :
    p'.locked = false := by
  rw [hgoverns.locked_eq, List.any_eq_false] at hunlocked
  rw [hgoverns'.locked_eq, List.any_eq_false, hp.calls]
  exact fun call hmem => hunlocked call (mem_of_mem_keep hmem)

/-- If none of the dropped calls holds the lock, it is held without them as well. -/
theorem locked_eq (hgoverns : p.Governs) (hgoverns' : p'.Governs)
    (hkept : ∀ (c : Nat) call, p.calls[c]? = some call → call.holdsLock = true →
      dropped c = false) : p'.locked = p.locked := by
  cases hlocked : p.locked with
  | false => exact hp.unlocked hgoverns hgoverns' hlocked
  | true =>
      rw [hgoverns.locked_eq, List.any_eq_true] at hlocked
      obtain ⟨call, hmem, hholds⟩ := hlocked
      obtain ⟨c, hcall⟩ := List.mem_iff_getElem?.mp hmem
      rw [hgoverns'.locked_eq, hp.calls, List.any_eq_true]
      exact ⟨call, mem_keep hcall (hkept c call hcall hholds), hholds⟩

/-- A call that is kept makes the same move without those that are dropped. -/
theorem stepCall? (hkept : dropped c = false) (hunlocked : p.locked = false → p'.locked = false)
    (hafter : q.Droppable revived dropped) (hstep : p.step? (.caller c) = some q) :
    ∃ q', p'.raises (.caller (rank dropped c)) = p.raises (.caller c) ∧
      p'.step? (.caller (rank dropped c)) = some q' ∧ q.Erases revived dropped q' := by
  have hsame {call : Call F} (hcall : p.calls[c]? = some call) :
      p'.calls[rank dropped c]? = some call := by
    rw [hp.calls]
    exact getElem?_keep hcall hkept
  rw [exists_and_left]
  cases callMove_of_stepCall? hstep with
  | finish store block receipts next hcall hfinish =>
      refine ⟨hp.callRaises hkept hcall, ?_⟩
      rw [step?_of_finish (hsame hcall)]
      exact hp.stepFinish? hkept hunlocked hfinish
  | start store rules block next hcall hstart =>
      refine ⟨hp.callRaises hkept hcall, ?_⟩
      rw [step?_of_start (hsame hcall)]
      refine hp.stepStart? hkept hunlocked ?_ hstart
      rintro hrevived rfl
      by_contra hclosed
      simp only [Pipeline.stepStart?, hclosed] at hstart
      cases hstart
      have hdropped := hafter.closing hrevived c _ (getElem?_of_set_calls hcall rfl) (.inr rfl)
      rw [hkept] at hdropped
      cases hdropped
  | close next hcall hclose =>
      refine ⟨hp.callRaises hkept hcall, ?_⟩
      rw [step?_of_close (hsame hcall)]
      cases revived with
      | false => exact hp.stepClose? hkept hunlocked hclose
      | true =>
          obtain ⟨turned, hturned, hturns⟩ := exists_turns_of_step? hstep hcall
          have hdropped := hafter.closing rfl c _ hturned (.inl (hturns.isClosing rfl))
          rw [hkept] at hdropped
          cases hdropped

/-- Nobody raises a fault in the run without the dropped calls that does not raise it otherwise. -/
theorem raises (hactor : ∀ c, actor ≠ .caller c) : p'.raises actor = p.raises actor := by
  cases actor with
  | caller c => exact absurd rfl (hactor c)
  | preparation h lane | aggregation h lane => simp only [Pipeline.raises, hp.stations]
  | _ => rfl

end Erases

theorem Erases.eq (hp : p.Erases revived dropped p') :
    p' = { p with
      workers := p.workers.map (Worker.revive revived)
      isOpen := revived || p.isOpen
      poolSenders := revived || p.poolSenders
      calls := keep dropped p.calls
      locked := p'.locked
      ledger := p'.ledger
      log := p'.log } := by
  cases p'
  simp only [mk.injEq]
  exact ⟨hp.config, hp.stations, hp.relay, hp.prefetchQueue, hp.processQueue, hp.workers,
    hp.feeders, trivial, hp.isOpen, hp.poolSenders, trivial, hp.active, hp.calls, hp.copies,
    trivial⟩

/-! ## Runs -/

theorem erases_create (hcreate : create config registry = .ok p) (revived : Bool)
    (dropped : Nat → Bool) : p.Erases revived dropped p := by
  obtain ⟨-, rfl⟩ := eq_ofConfig hcreate
  refine ⟨rfl, rfl, rfl, rfl, rfl, ?_, rfl, fun _ => rfl, by simp [ofConfig], by simp [ofConfig],
    rfl, rfl, rfl⟩
  refine ((List.map_congr_left fun worker hworker => ?_).trans (List.map_id _)).symm
  exact Worker.revive_of_ne (by rw [mem_crew hworker]; simp)

theorem cleanRun?_concat_call {task : Task F} (hrun : p.cleanRun? moves = some p')
    (hadmits : p'.admits task = true) :
    p.cleanRun? (moves ++ [.call task]) = some (p'.invoke task) := by
  rw [cleanRun?_append, hrun]
  simp [cleanRun?, isClean, hadmits, move?]

theorem cleanRun?_concat {move : Move F} (hrun : p.cleanRun? moves = some p')
    (hclean : p'.isClean move = true) (hmove : p'.move? move = some q) :
    p.cleanRun? (moves ++ [move]) = some q := by
  rw [cleanRun?_append, hrun]
  simp [cleanRun?, hclean, hmove]

/-- A clean run without the dropped calls comes to what `moves` have come to, for all other calls.
If the pipeline may be closed in it, it is made up of the same moves. -/
def Replays (revived : Bool) (dropped : Nat → Bool) (p : Pipeline F) (moves : List (Move F))
    (q : Pipeline F) : Prop :=
  ∃ moves' q', (revived = false → moves' = without dropped 0 moves) ∧
    tasks moves' = keep dropped (tasks moves) ∧ p.cleanRun? moves' = some q' ∧
    q.Erases revived dropped q'

section Replay

variable {moves' : List (Move F)} {q' r r' : Pipeline F}
  (hmoves : revived = false → moves' = without dropped 0 moves)
  (htasks : tasks moves' = keep dropped (tasks moves)) (hrun' : p.cleanRun? moves' = some q')

include hmoves htasks hrun'

theorem replays_call {task : Task F} (hlength : q.calls.length = (tasks moves).length)
    (hq : q.Erases revived dropped q') (hadmits : q.admits task = true) :
    p.Replays revived dropped (moves ++ [.call task]) (q.invoke task) := by
  have htask : tasks (moves ++ [.call task]) = tasks moves ++ [task] := tasks_append _ _
  have hcalls : keep dropped (q.invoke task).calls =
      q'.calls ++ if dropped (tasks moves).length then [] else [.ofTask task] := by
    rw [calls_invoke, keep_append_singleton, hlength, hq.calls]
  unfold Replays
  rw [without_append_singleton, htask, keep_append_singleton, Nat.zero_add, Move.without]
  cases hdropped : dropped (tasks moves).length with
  | true =>
      rw [hdropped] at hcalls
      refine ⟨moves', q', by simpa using hmoves, by simpa using htasks, hrun',
        { hq with calls := ?_ }⟩
      rw [hcalls]
      exact (List.append_nil _).symm
  | false =>
      rw [hdropped] at hcalls
      refine ⟨moves' ++ [.call task], q'.invoke task, fun h => by rw [hmoves h]; rfl, ?_,
        cleanRun?_concat_call hrun' (hq.admits hadmits), { hq with calls := hcalls.symm }⟩
      rw [tasks_append, htasks]
      rfl

/-- A move that is left out leaves the run without the dropped calls where it is. -/
theorem replays_stay {move : Move F} (htask : move.task? = none)
    (hwithout : revived = false → ∀ n, move.without dropped n = [])
    (hr : r.Erases revived dropped q') : p.Replays revived dropped (moves ++ [move]) r := by
  refine ⟨moves', q', fun h => ?_, by rw [tasks_append_of_task? moves htask, htasks], hrun', hr⟩
  rw [without_append_singleton, hwithout h, hmoves h, List.append_nil]

theorem replays_move {move : Move F} (move' : Move F) (htask : move.task? = none)
    (htask' : move'.task? = none)
    (hwithout : ∀ n, move.without dropped n = [move']) (hclean : q'.isClean move' = true)
    (hmove : q'.move? move' = some r') (hr : r.Erases revived dropped r') :
    p.Replays revived dropped (moves ++ [move]) r := by
  refine ⟨moves' ++ [move'], r', fun h => ?_, ?_, cleanRun?_concat hrun' hclean hmove, hr⟩
  · rw [without_append_singleton, hwithout, hmoves h]
  · rw [tasks_append_of_task? moves htask, tasks_append_of_task? moves' htask', htasks]

theorem replays_act {actor' : Actor} (hwithout : actor.without dropped = some actor')
    (hraises : q'.raises actor' = false) (hstep : q'.step? actor' = some r')
    (hr : r.Erases revived dropped r') : p.Replays revived dropped (moves ++ [.act actor]) r :=
  replays_move hmoves htasks hrun' (.act actor') rfl rfl
    (fun _ => by rw [Move.without, hwithout]; rfl) (by simpa [isClean] using hraises) hstep hr

end Replay

theorem replays_of_cleanRun? (hcreate : create config registry = .ok p)
    (hrun : p.cleanRun? moves = some q) (hdroppable : q.Droppable revived dropped) :
    p.Replays revived dropped moves q := by
  refine cleanRun?_induction (P := fun moves q => q.Droppable revived dropped →
    p.Replays revived dropped moves q) hrun ?_ ?_ ?_ ?_ hdroppable
  · exact fun _ => ⟨[], p, fun _ => rfl, rfl, rfl, erases_create hcreate revived dropped⟩
  · intro moves q task hrun ih hadmits hdroppable
    obtain ⟨moves', q', hmoves, htasks, hrun', hq⟩ := ih hdroppable.of_invoke
    exact replays_call hmoves htasks hrun' (length_calls_eq hcreate (run?_of_cleanRun? hrun)) hq
      hadmits
  · intro moves q actor next hrun ih hraises hstep hdroppable
    have hbefore := hdroppable.of_step? hstep
    obtain ⟨moves', q', hmoves, htasks, hrun', hq⟩ := ih hbefore
    have hchronicle := Chronicle.of_cleanRun? hcreate hrun
    rcases thread_or_callMove hstep with hactor | ⟨c, rfl, -⟩
    · rcases hq.stepThread? hchronicle.crew hactor hstep with ⟨next', hstep', hnext⟩ | ⟨rfl, hnext⟩
      · exact replays_act hmoves htasks hrun' (Actor.without_of_ne hactor)
          ((hq.raises hactor).trans hraises) hstep' hnext
      · exact replays_stay hmoves htasks hrun' rfl (fun h => by cases h) hnext
    · cases hdropped : dropped c with
      | true =>
          exact replays_stay hmoves htasks hrun' rfl
            (fun _ _ => by simp [Move.without, Actor.without, hdropped])
            (hq.of_dropped hchronicle hdropped hbefore hdroppable hraises hstep)
      | false =>
          have hunlocked := hq.unlocked (Grants.of_run? hcreate (run?_of_cleanRun? hrun)).governs
            (Grants.of_run? hcreate (run?_of_cleanRun? hrun')).governs
          obtain ⟨next', hsame, hstep', hnext⟩ := hq.stepCall? hdropped hunlocked hdroppable hstep
          exact replays_act hmoves htasks hrun' (by simp [Actor.without, hdropped])
            (hsame.trans hraises) hstep' hnext
  · intro moves q c reason next hrun ih hdeny hdroppable
    obtain ⟨moves', q', hmoves, htasks, hrun', hq⟩ := ih (hdroppable.of_deny? hdeny)
    cases hdropped : dropped c with
    | true =>
        exact replays_stay hmoves htasks hrun' rfl (fun _ _ => by simp [Move.without, hdropped])
          (hq.of_denied (Chronicle.of_cleanRun? hcreate hrun) hdropped hdeny)
    | false =>
        obtain ⟨next', hdeny', hnext⟩ := hq.deny? hdropped hdeny
        exact replays_move hmoves htasks hrun' (.deny (rank dropped c) reason) rfl rfl
          (fun _ => by simp [Move.without, hdropped]) rfl hdeny' hnext

end TxPipeline.Pipeline
