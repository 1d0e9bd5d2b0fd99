import TxPipeline.Proofs.Quiescence

/-!
# Finishing what was not started

A call to finish a block that finds none changes nothing. One that finds a block under another
number raises a fault, and it has given up the active block by then. Everything else stays as it
was, but no call finds that block again: whatever is asked for, until another block is started,
nobody waits for its threads, nobody resets its stations and nobody takes its entries out of the
ledger.
-/

namespace TxPipeline

variable {F : Flow}

/-- Whether a task is to start a block. -/
def Task.isStart : Task F → Bool
  | .start _ _ _ => true
  | _ => false

namespace Pipeline

variable {p q : Pipeline F} {actor : Actor} {c f : Nat} {store : F.Store} {rules : Rules}
  {block : Block} {receipts : List Receipt} {moves : List (Move F)}

/-! ## When no block is active -/

/-- No block is active and none is about to become active: a call that is neither closing nor
settled has just begun, and it is one to finish a block. -/
structure Bare (p : Pipeline F) : Prop where
  unlocked : p.locked = false
  active_eq : p.active = none
  calls : ∀ (i : Nat) (call : Call F), p.calls[i]? = some call →
    call.isSettled = true ∨ ∃ store block receipts, call = .finish store block receipts .take

theorem Bare.set {call next : Call F} (hp : p.Bare) (hcall : p.calls[c]? = some call)
    (hsettled : next.isSettled = true) (hcalls : q.calls = p.calls.set c next)
    (hlocked : q.locked = p.locked) (hactive : q.active = p.active) : q.Bare where
  unlocked := hlocked.trans hp.unlocked
  active_eq := hactive.trans hp.active_eq
  calls := fun i other hother => by
    rw [hcalls, getElem?_set_calls hcall] at hother
    split at hother
    · cases hother
      exact .inl hsettled
    · exact hp.calls i other hother

/-- Call `i` to finish a block has not begun, or it has returned the store that it was given. -/
def Ignored (p : Pipeline F) (i : Nat) (store : F.Store) : Prop :=
  (∃ block receipts, p.calls[i]? = some (.finish store block receipts .take)) ∨
    p.calls[i]? = some (.returned (.finished none store))

theorem Ignored.of_calls_eq (h : p.Ignored c store) (hcalls : q.calls[c]? = p.calls[c]?) :
    q.Ignored c store := by
  unfold Ignored
  rwa [hcalls]

theorem Ignored.invoke (h : p.Ignored c store) (task : Task F) : (p.invoke task).Ignored c store :=
  h.imp (fun ⟨block, receipts, hcall⟩ => ⟨block, receipts, getElem?_append_calls hcall rfl⟩)
    fun hcall => getElem?_append_calls hcall rfl

/-- No call finds a block to start or to finish, and the ledger stays as it is. -/
theorem Bare.step? (hp : p.Bare) (hstep : p.step? actor = some q) :
    q.Bare ∧ q.ledger = p.ledger ∧ ∀ i store, p.Ignored i store → q.Ignored i store := by
  rcases thread_or_callMove hstep with hactor | ⟨c, rfl, hmove⟩
  · have hframes := frames_of_stepThread? hactor hstep
    refine ⟨⟨hframes.locked.trans hp.unlocked, hframes.active.trans hp.active_eq, ?_⟩,
      hframes.ledger, fun i store h => h.of_calls_eq (by rw [hframes.calls])⟩
    rw [hframes.calls]
    exact hp.calls
  have hothers {i : Nat} {store : F.Store} (hi : i ≠ c) (h : p.Ignored i store) :
      q.Ignored i store :=
    h.of_calls_eq (getElem?_calls_of_step? hstep fun heq => hi (Actor.caller.inj heq).symm)
  cases hmove with
  | start store rules block next hcall =>
      rcases hp.calls c _ hcall with hsettled | ⟨_, _, _, heq⟩
      · cases hsettled
      · cases heq
  | finish store block receipts next hcall hfinish =>
      rcases hp.calls c _ hcall with hsettled | ⟨_, _, _, heq⟩
      · cases hsettled
      cases heq
      cases finishMove_of_stepFinish? hfinish with
      | take active _ hactive => simp [hp.active_eq] at hactive
      | mismatch active _ hactive => simp [hp.active_eq] at hactive
      | miss _ _ =>
          refine ⟨hp.set hcall rfl rfl rfl rfl, rfl, fun i store h => ?_⟩
          by_cases hi : i = c
          · subst hi
            rcases h with ⟨_, _, h⟩ | h <;> rw [hcall] at h <;> cases h
            exact .inr (getElem?_of_set_calls hcall rfl)
          · exact hothers hi h
  | close next hcall hclose =>
      obtain ⟨call, hturns, hcalls⟩ := turns_of_stepClose? hclose
      obtain ⟨isOpen, poolSenders, calls, log, rfl⟩ := eq_of_stepClose? hclose
      refine ⟨hp.set hcall (hturns.isSettled rfl) hcalls rfl rfl, rfl, fun i store h => ?_⟩
      by_cases hi : i = c
      · subst hi
        rcases h with ⟨_, _, h⟩ | h <;> rw [hcall] at h <;> cases h
      · exact hothers hi h

theorem Bare.deny?_eq_none (hp : p.Bare) (c : Nat) (reason : String) :
    p.deny? c reason = none := by
  refine Pipeline.deny?_eq_none (fun store rules block hcall => ?_) reason
  rcases hp.calls c _ hcall with hsettled | ⟨_, _, _, heq⟩
  · cases hsettled
  · cases heq

theorem Bare.invoke (hp : p.Bare) {task : Task F} (htask : task.isStart = false) :
    (p.invoke task).Bare where
  unlocked := hp.unlocked
  active_eq := hp.active_eq
  calls := fun i call hcall => by
    rcases getElem?_of_invoke hcall with hcall | ⟨-, rfl⟩
    · exact hp.calls i call hcall
    · cases task with
      | start => cases htask
      | finish store block receipts => exact .inr ⟨store, block, receipts, rfl⟩
      | close => exact .inl rfl

/-- As long as no block is to be started, no call does anything to the ledger or to a block. -/
theorem Bare.run? (hp : p.Bare) (hrun : p.run? moves = some q)
    (htasks : ∀ task ∈ tasks moves, task.isStart = false) :
    q.Bare ∧ q.ledger = p.ledger ∧ (∀ i store, p.Ignored i store → q.Ignored i store) ∧
      ∀ (i : Nat) store block receipts, (tasks moves)[i]? = some (.finish store block receipts) →
        q.Ignored (p.calls.length + i) store := by
  induction moves generalizing p with
  | nil =>
      cases hrun
      exact ⟨hp, rfl, fun _ _ h => h, fun i _ _ _ h => by simp [tasks] at h⟩
  | cons move rest ih =>
      obtain ⟨next, hmove, hrest⟩ := Option.bind_eq_some_iff.mp hrun
      cases move with
      | call task =>
          cases hmove
          have hall : ∀ other ∈ task :: tasks rest, other.isStart = false := htasks
          obtain ⟨hq, hledger, hstays, hlater⟩ := ih
            (hp.invoke (hall task List.mem_cons_self)) hrest
            fun other hother => hall other (List.mem_cons_of_mem _ hother)
          refine ⟨hq, hledger, fun i store h => hstays i store (h.invoke task), ?_⟩
          intro i store block receipts hi
          cases i with
          | zero =>
              obtain rfl : task = .finish store block receipts := by
                simpa [tasks, Move.task?] using hi
              exact hstays _ _ (.inl ⟨block, receipts, List.getElem?_concat_length⟩)
          | succ i =>
              have hlength : (p.invoke task).calls.length + i = p.calls.length + (i + 1) := by
                simp [Pipeline.invoke]
                omega
              rw [← hlength]
              exact hlater i store block receipts (by simpa [tasks, Move.task?] using hi)
      | act actor =>
          obtain ⟨hnext, hledger, hignored⟩ := hp.step? hmove
          obtain ⟨hq, hledger', hstays, hlater⟩ := ih hnext hrest htasks
          refine ⟨hq, hledger'.trans hledger,
            fun i store h => hstays i store (hignored i store h), ?_⟩
          rw [length_calls_of_step? hmove] at hlater
          exact hlater
      | deny c reason => cases (hp.deny?_eq_none c reason).symm.trans hmove

/-- Nothing keeps a block from being started. -/
theorem Bare.starts (hp : p.Bare) (store : F.Store) (rules : Rules) (block : Block) :
    ∃ q, (p.invoke (.start store rules block)).step? (.caller p.calls.length) = some q ∧
      q.calls[p.calls.length]? = some (.start store rules block .enter) := by
  refine ⟨{ p.invoke (.start store rules block) with locked := true }.setCall p.calls.length
    (.start store rules block .enter), ?_, by simp [setCall, Pipeline.invoke]⟩
  change stepCall? _ _ = _
  simp [stepCall?, Pipeline.invoke, Call.ofTask, stepStart?, hp.unlocked, hp.active_eq]

/-! ## A rejected call -/

theorem bare_of_returned {answer : Answer F} (hunlocked : p.locked = false)
    (hactive : p.active = none) (hreturned : p.calls[f]? = some (.returned answer))
    (hminds : p.Minds f) : p.Bare where
  unlocked := hunlocked
  active_eq := hactive
  calls := fun i call hi => by
    by_cases hif : i = f
    · subst hif
      rw [hreturned] at hi
      cases hi
      exact .inl rfl
    · exact .inl (hminds i call hi hif)

/-- A call that is to finish a block when none is active changes nothing but the log. One that finds
a block with another number raises a fault and changes nothing but the active block, which is gone:
until another one is started, every block can be asked to be started, and no call to finish one,
under whatever number, does anything to the ledger or to the store it is given. -/
theorem rejected_finish_loses_block
    (hcall : q.calls[f]? = some (.finish store block receipts .take))
    (hunlocked : q.locked = false) :
    (q.active = none → q.step? (.caller f) =
      some ((q.note (.finishedWithoutBlock block.number)).endFinish f store none)) ∧
    ∀ active, q.active = some active → active.number ≠ block.number → ∃ r,
      q.step? (.caller f) = some r ∧
      r = { q with active := none }.endFinish f store
        (some (.blockMismatch active.number block.number)) ∧
      (q.Minds f → ∀ more t, r.run? more = some t →
        (∀ task ∈ tasks more, task.isStart = false) →
        t.ledger = q.ledger ∧
        (∀ store rules block, ∃ t', (t.invoke (.start store rules block)).step?
            (.caller t.calls.length) = some t' ∧
          t'.calls[t.calls.length]? = some (.start store rules block .enter)) ∧
        ∀ (i : Nat) store block receipts, (tasks more)[i]? = some (.finish store block receipts) →
          t.Ignored (q.calls.length + i) store) := by
  refine ⟨fun hactive => ?_, fun active hactive hnumber => ⟨_, ?_, rfl, ?_⟩⟩
  · change q.stepCall? f = _
    simp [stepCall?, hcall, stepFinish?, hunlocked, hactive]
  · change q.stepCall? f = _
    simp [stepCall?, hcall, stepFinish?, hunlocked, hactive, hnumber]
  · intro hminds more t hrun htasks
    have hbare : ({ q with active := none }.endFinish f store
        (some (.blockMismatch active.number block.number)) : Pipeline F).Bare :=
      bare_of_returned hunlocked rfl (getElem?_of_set_calls hcall rfl)
        (hminds.set_self hcall rfl)
    obtain ⟨ht, hledger, -, hignored⟩ := hbare.run? hrun htasks
    refine ⟨hledger, ht.starts, fun i store block receipts hi => ?_⟩
    simpa [endFinish, setCall] using hignored i store block receipts hi

end Pipeline

/-! ## Runs -/

namespace Sample

open Pipeline

/-- What `pair` contains, under another number. -/
def renumbered : Block := ⟨⟨2, []⟩, pair.transactions⟩

/-- The block is started, a call is to finish another one, and one after that the block itself. -/
def rejected : List (Move flow) :=
  started ++ [.call (.finish (3 : Nat) renumbered []), .act (.caller 1),
    .call (.finish (3 : Nat) pair []), .act (.caller 2)]

end Sample

namespace Pipeline

open Sample

/-- Without a rejected call in between, the block is finished and its entry is taken out of the
ledger; with one, the call that should finish the block leaves both as they are. -/
theorem finish_of_rejected : ∃ q r,
    (ofConfig oneEach adders).run? finished = some q ∧ q.outcome? 1 = some (none, 9) ∧
    (q.charge (Word.ofNat 1)).toOption = none ∧
    (ofConfig oneEach adders).run? rejected = some r ∧
    r.outcome? 1 = some (some (.blockMismatch 1 2), 3) ∧ r.outcome? 2 = some (none, 3) ∧
    (r.charge (Word.ofNat 1)).toOption = some 7 := by
  obtain ⟨q, hq, houtcome, hcharge⟩ : ∃ q, (ofConfig oneEach adders).run? finished = some q ∧
      q.outcome? 1 = some (none, 9) ∧ (q.charge (Word.ofNat 1)).toOption = none := by
    decide +kernel
  obtain ⟨r, hr, hrejected⟩ : ∃ r, (ofConfig oneEach adders).run? rejected = some r ∧
      r.outcome? 1 = some (some (.blockMismatch 1 2), 3) ∧ r.outcome? 2 = some (none, 3) ∧
        (r.charge (Word.ofNat 1)).toOption = some 7 := by
    decide +kernel
  exact ⟨q, r, hq, houtcome, hcharge, hr, hrejected⟩

/-- At the end of `started`, a call with another number loses the block. -/
theorem rejected_finish_loses_pair : ∃ q r,
    (ofConfig oneEach adders).run? (rejected.take 38) = some q ∧
    q.active = some ⟨1, pair.hashes, 0⟩ ∧
    q.step? (.caller 1) = some r ∧ r.active = none ∧ r.ledger = q.ledger ∧
    r.calls[1]? = some (.returned (.finished (some (.blockMismatch 1 2)) (3 : Nat))) := by
  obtain ⟨q, hq, habout, hunlocked, hactive⟩ : ∃ q,
      (ofConfig oneEach adders).run? (rejected.take 38) = some q ∧
        q.isAboutToFinish 1 renumbered = true ∧ q.locked = false ∧
        q.active = some ⟨1, pair.hashes, 0⟩ := by
    decide +kernel
  have hcall := calls_of_isAboutToFinish habout
  obtain ⟨r, hstep, rfl, -⟩ :=
    (rejected_finish_loses_block hcall hunlocked).2 _ hactive (by decide)
  exact ⟨q, _, hq, hactive, hstep, rfl, rfl, getElem?_of_set_calls hcall rfl⟩

end Pipeline

end TxPipeline
