import TxPipeline.Proofs.Copies
import TxPipeline.Proofs.Course
import TxPipeline.Proofs.Mismatch

/-!
# What keeps blocks apart

The active block stands behind a lock. A call to start a block keeps the lock until it has put its
block there, so whatever is called meanwhile has to wait, and while the block stands there, every
other call to start one is refused.

A call to finish a block gives the lock back as soon as it has taken the block, long before it has
come to an end with it. From then on nothing keeps another block from being started, and two blocks
can share the stations.
-/

namespace TxPipeline

variable {F : Flow}

/-- Whether the next move of a call needs the lock on the active block. -/
def Call.awaitsLock : Call F → Bool
  | .start _ _ _ .acquire => true
  | .finish _ _ _ .take => true
  | _ => false

namespace Pipeline

variable {config : Config} {registry : Registry F} {p q r : Pipeline F} {actor : Actor}
  {c i f : Nat} {store : F.Store} {rules : Rules} {block : Block} {active : ActiveBlock}
  {call : Call F} {next : Starting} {moves more : List (Move F)}

/-! ## The slot of the active block -/

/-- What a move does to the active block and to the lock on it. -/
inductive SlotMove (p : Pipeline F) (actor : Actor) (q : Pipeline F) : Prop
  | keep (hlocked : q.locked = p.locked) (hactive : q.active = p.active)
  | acquire (hunlocked : p.locked = false) (hvacant : p.active = none) (hactive : q.active = none)
  | release (c : Nat) (store : F.Store) (rules : Rules) (block : Block) (next : Starting)
      (hactor : actor = .caller c) (hcall : p.calls[c]? = some (.start store rules block next))
      (hholds : next.holdsLock = true) (hunlocked : q.locked = false)
  | take (f : Nat) (store : F.Store) (block : Block) (receipts : List Receipt)
      (hactor : actor = .caller f) (hcall : p.calls[f]? = some (.finish store block receipts .take))
      (hunlocked : p.locked = false) (hactive : q.active = none)

theorem slotMove_of_stepStart? (hcall : p.calls[c]? = some (.start store rules block next))
    (hstep : p.stepStart? c store rules block next = some q) : p.SlotMove (.caller c) q := by
  cases startMove_of_stepStart? hstep with
  | acquire hunlocked hvacant => exact .acquire hunlocked hvacant hvacant
  | closed | scanFault | scanError | announceFault | settleFault | activate =>
      exact .release c store rules block _ rfl hcall rfl rfl
  | _ => exact .keep rfl rfl

theorem slotMove_of_stepFinish? {receipts : List Receipt} {next : Finishing}
    (hcall : p.calls[c]? = some (.finish store block receipts next))
    (hstep : p.stepFinish? c store block receipts next = some q) : p.SlotMove (.caller c) q := by
  cases finishMove_of_stepFinish? hstep with
  | take _ hunlocked | mismatch _ hunlocked =>
      exact .take c store block receipts rfl hcall hunlocked rfl
  | _ => exact .keep rfl rfl

theorem slotMove_of_step? (hstep : p.step? actor = some q) : p.SlotMove actor q := by
  rcases thread_or_callMove hstep with hactor | ⟨c, rfl, hmove⟩
  · have hframes := frames_of_stepThread? hactor hstep
    exact .keep hframes.locked hframes.active
  cases hmove with
  | start store rules block next hcall hstart => exact slotMove_of_stepStart? hcall hstart
  | finish store block receipts next hcall hfinish => exact slotMove_of_stepFinish? hcall hfinish
  | close next hcall hclose =>
      obtain ⟨_, _, _, _, rfl⟩ := eq_of_stepClose? hclose
      exact .keep rfl rfl

/-- Whoever holds the lock has found no active block. -/
structure Guards (p : Pipeline F) : Prop where
  grants : p.Grants
  vacant : p.locked = true → p.active = none

theorem Guards.step? (h : p.Guards) (hstep : p.step? actor = some q) : q.Guards := by
  refine ⟨h.grants.step? hstep, fun hlocked => ?_⟩
  cases slotMove_of_step? hstep with
  | keep hl hactive => exact hactive.trans (h.vacant (hl.symm.trans hlocked))
  | acquire _ _ hactive => exact hactive
  | release _ _ _ _ _ _ _ _ hunlocked => simp [hunlocked] at hlocked
  | take _ _ _ _ _ _ _ hactive => exact hactive

theorem Guards.invoke (h : p.Guards) (task : Task F) : (p.invoke task).Guards :=
  ⟨h.grants.invoke task, h.vacant⟩

/-- A call that is denied a thread gives the lock back. -/
theorem Guards.deny? {reason : String} (h : p.Guards) (hdeny : p.deny? c reason = some q) :
    q.Guards := by
  refine ⟨h.grants.deny? hdeny, fun hlocked => ?_⟩
  cases denyMove_of_deny? hdeny with
  | deny => cases hlocked

theorem Guards.run? (h : p.Guards) (hrun : p.run? more = some q) : q.Guards := by
  apply run?_induction hrun h
  · exact fun _ task hp => hp.invoke task
  · exact fun _ _ _ hp hstep => hp.step? hstep
  · exact fun _ _ _ _ hp hdeny => hp.deny? hdeny

theorem guards_create (hcreate : create config registry = .ok p) : p.Guards := by
  refine ⟨grants_create hcreate, ?_⟩
  obtain ⟨-, rfl⟩ := eq_ofConfig hcreate
  exact fun _ => rfl

theorem Guards.unlocked (h : p.Guards) (hactive : p.active = some active) : p.locked = false := by
  by_contra hlocked
  have hvacant := h.vacant (by simpa using hlocked)
  rw [hactive] at hvacant
  cases hvacant

theorem Governs.holdsLock_eq_false (h : p.Governs) (hunlocked : p.locked = false)
    (hcall : p.calls[i]? = some call) : call.holdsLock = false := by
  cases h with
  | free _ hfree _ => exact hfree i call hcall
  | held _ _ _ _ _ hlocked => simp [hunlocked] at hlocked

/-! ## While a block is being set up -/

theorem step?_of_awaitsLock (hlocked : p.locked = true) (hcall : p.calls[c]? = some call)
    (hawaits : call.awaitsLock = true) : p.step? (.caller c) = none := by
  cases call with
  | start store rules block next =>
      rw [step?_of_start hcall]
      cases next with
      | acquire => exact if_pos hlocked
      | _ => cases hawaits
  | finish store block receipts next =>
      rw [step?_of_finish hcall]
      cases next with
      | take => exact if_pos hlocked
      | _ => cases hawaits
  | close next => cases hawaits
  | returned answer => cases hawaits

/-- A call that sets a block up is the only one, and until it gives the lock back no other call that
needs it has a move. -/
theorem Guards.alone (h : p.Guards) (hcall : p.calls[c]? = some (.start store rules block next))
    (hholds : next.holdsLock = true) : p.active = none ∧
      ∀ i call, p.calls[i]? = some call → i ≠ c →
        call.holdsLock = false ∧ (call.awaitsLock = true → p.step? (.caller i) = none) := by
  obtain ⟨hlocked, -, hothers⟩ := h.grants.governs.relays hcall hholds
  refine ⟨h.vacant hlocked, fun i call hi hne => ⟨hothers i call hi hne, ?_⟩⟩
  exact step?_of_awaitsLock hlocked hi

/-! ## While a block is active -/

/-- Who can be denied a thread has the lock, and has found no active block. -/
theorem Guards.deny?_eq_none (h : p.Guards) (hactive : p.active = some active) (c : Nat)
    (reason : String) : p.deny? c reason = none := by
  refine Pipeline.deny?_eq_none (fun store rules block hcall => ?_) reason
  rw [(h.alone hcall rfl).1] at hactive
  cases hactive

/-- Call `i` to start a block has not begun, or was refused because of `active`. -/
def Barred (p : Pipeline F) (active : ActiveBlock) (i : Nat) : Prop :=
  (∃ store rules block, p.calls[i]? = some (.start store rules block .acquire)) ∨
    p.calls[i]? = some (.returned (.started (.error (.error (.blockInProgress active.number)))))

/-- The calls that are asked to start a block in `p` or during `more`, and have not begun. -/
def Asks (p : Pipeline F) (more : List (Move F)) (i : Nat) : Prop :=
  ∃ store rules block,
    (p.calls ++ (tasks more).map Call.ofTask)[i]? = some (.start store rules block .acquire)

/-- After `more`, the block is still active, and whoever asked to start another one is refused
because of it, or waits. -/
structure Bars (p : Pipeline F) (active : ActiveBlock) (more : List (Move F)) (q : Pipeline F) :
    Prop where
  active_eq : q.active = some active
  barred : ∀ i, p.Asks more i → q.Barred active i

/-- A call to finish a block took the active one on the way from `p`, and every call to start a
block was refused until then. -/
def Gives (p : Pipeline F) (active : ActiveBlock) (more : List (Move F)) : Prop :=
  ∃ before f after q store block receipts, more = before ++ .act (.caller f) :: after ∧
    p.run? before = some q ∧ p.Bars active before q ∧
    q.calls[f]? = some (.finish store block receipts .take)

theorem step?_of_active (hunlocked : p.locked = false) (hactive : p.active = some active)
    (hcall : p.calls[c]? = some (.start store rules block .acquire)) :
    p.step? (.caller c) = some (p.setCall c
      (.returned (.started (.error (.error (.blockInProgress active.number)))))) := by
  rw [step?_of_start hcall]
  simp [stepStart?, hunlocked, hactive]

/-- Only a call to finish a block takes the active one. -/
theorem Guards.active_of_step? (h : p.Guards) (hactive : p.active = some active)
    (hstep : p.step? actor = some q) : q.active = some active ∨
      ∃ f store block receipts, actor = .caller f ∧
        p.calls[f]? = some (.finish store block receipts .take) := by
  have hunlocked := h.unlocked hactive
  cases slotMove_of_step? hstep with
  | keep _ hkept => exact .inl (hkept.trans hactive)
  | acquire _ hvacant => simp [hvacant] at hactive
  | release c store rules block next _ hcall hholds =>
      have hnot : next.holdsLock = false := h.grants.governs.holdsLock_eq_false hunlocked hcall
      rw [hholds] at hnot
      cases hnot
  | take f store block receipts hactor hcall =>
      exact .inr ⟨f, store, block, receipts, hactor, hcall⟩

theorem Barred.step? (h : p.Barred active i) (hguards : p.Guards)
    (hactive : p.active = some active) (hstep : p.step? actor = some q) : q.Barred active i := by
  rcases h with ⟨store, rules, block, hcall⟩ | hcall
  · by_cases hactor : actor = .caller i
    · subst hactor
      rw [step?_of_active (hguards.unlocked hactive) hactive hcall] at hstep
      cases hstep
      exact .inr (getElem?_of_set_calls hcall rfl)
    · exact .inl ⟨store, rules, block, (getElem?_calls_of_step? hstep hactor).trans hcall⟩
  · obtain ⟨next, hnext, hturns⟩ := exists_turns_of_step? hstep hcall
    cases hturns
    exact .inr hnext

theorem Barred.invoke (h : p.Barred active i) (task : Task F) :
    (p.invoke task).Barred active i := by
  rcases h with ⟨store, rules, block, hcall⟩ | hcall
  · exact .inl ⟨store, rules, block, getElem?_append_calls hcall rfl⟩
  · exact .inr (getElem?_append_calls hcall rfl)

theorem Bars.step? (h : p.Bars active more q) (hguards : q.Guards) (hstep : q.step? actor = some r)
    (hactive : r.active = some active) : p.Bars active (more ++ [.act actor]) r := by
  refine ⟨hactive, fun i hi => ?_⟩
  have hasks : p.Asks more i := by simpa [Asks, tasks_append_act] using hi
  exact (h.barred i hasks).step? hguards h.active_eq hstep

theorem Bars.invoke (h : p.Bars active more q) (hrun : p.run? more = some q) (task : Task F) :
    p.Bars active (more ++ [.call task]) (q.invoke task) := by
  refine ⟨h.active_eq, fun i hi => ?_⟩
  obtain ⟨store, rules, block, hi⟩ := hi
  have htasks : (tasks (more ++ [.call task])).map Call.ofTask =
      (tasks more).map Call.ofTask ++ [Call.ofTask task] := by
    simp [tasks, Move.task?]
  rw [htasks, ← List.append_assoc, List.getElem?_append] at hi
  split at hi
  · exact (h.barred i ⟨store, rules, block, hi⟩).invoke task
  · -- the call is the new one
    have hlt := (List.getElem?_eq_some_iff.mp hi).1
    rw [List.length_singleton] at hlt
    have hnew : i = q.calls.length := by
      rw [length_calls_of_run? hrun]
      simp only [List.length_append, List.length_map] at hlt ‹¬ _›
      omega
    refine .inl ⟨store, rules, block, ?_⟩
    rw [calls_invoke, hnew, List.getElem?_concat_length,
      ← List.mem_singleton.mp (List.mem_of_getElem? hi)]

/-- From a block that is active on, every call to start another one is refused, until a call to
finish a block takes it. -/
theorem Guards.bars_or_gives (h : p.Guards) (hactive : p.active = some active)
    (hrun : p.run? more = some r) : p.Bars active more r ∨ p.Gives active more := by
  induction more using List.reverseRecOn generalizing r with
  | nil =>
      cases hrun
      refine .inl ⟨hactive, fun i hi => .inl ?_⟩
      obtain ⟨store, rules, block, hi⟩ := hi
      exact ⟨store, rules, block, by simpa [tasks] using hi⟩
  | append_singleton more move ih =>
      rw [run?_append] at hrun
      obtain ⟨q, hq, hlast⟩ := Option.bind_eq_some_iff.mp hrun
      obtain ⟨q', hmove, hnil⟩ := Option.bind_eq_some_iff.mp hlast
      cases hnil
      rcases ih hq with hbars | ⟨before, f, after, s, store, block, receipts, rfl, hgives⟩
      · cases move with
        | call task =>
            cases hmove
            exact .inl (hbars.invoke hq task)
        | act actor =>
            rcases (h.run? hq).active_of_step? hbars.active_eq hmove with hkept | htaken
            · exact .inl (hbars.step? (h.run? hq) hmove hkept)
            · obtain ⟨f, store, block, receipts, rfl, hcall⟩ := htaken
              exact .inr ⟨more, f, [], q, store, block, receipts, rfl, hq, hbars, hcall⟩
        | deny c reason =>
            cases ((h.run? hq).deny?_eq_none hbars.active_eq c reason).symm.trans hmove
      · exact .inr ⟨before, f, after ++ [move], s, store, block, receipts,
          by rw [List.append_assoc, List.cons_append], hgives⟩

/-- The moment in which a call has set a block up: it is active from now on. -/
theorem Guards.active_of_returned (hcall : p.calls[c]? = some (.start store rules block next))
    (hstep : p.step? (.caller c) = some q)
    (hreturned : q.calls[c]? = some (.returned (.started (.ok ())))) :
    ∃ lane, q.active = some ⟨block.number, block.hashes, lane⟩ := by
  rw [step?_of_start hcall] at hstep
  have hset {call : Call F} (hcalls : q.calls = p.calls.set c call) :
      call = .returned (.started (.ok ())) :=
    Option.some.inj ((getElem?_of_set_calls hcall hcalls).symm.trans hreturned)
  cases startMove_of_stepStart? hstep with
  | activate plan => exact ⟨plan.lane, rfl⟩
  | _ => cases hset rfl

/-- In whatever order calls are made and threads move, a block is set up by one call alone, which
finds no active block and makes everybody else wait. From its success on, every other call to start
a block is refused, until a call to finish a block takes this one. Blocks do not overlap as long as
the calls come one after the other and none that finishes a block is cut short: then nothing is left
of an earlier block when another one is scanned. -/
theorem blocks_exclude_until_taken (hcreate : create config registry = .ok p)
    (hrun : p.run? moves = some q) :
    (∀ (c : Nat) (store : F.Store) (rules : Rules) (block : Block) (next : Starting),
      q.calls[c]? = some (.start store rules block next) → next.holdsLock = true →
        q.active = none ∧ ∀ (i : Nat) (call : Call F), q.calls[i]? = some call → i ≠ c →
          call.holdsLock = false ∧ (call.awaitsLock = true → q.step? (.caller i) = none)) ∧
    (∀ (c : Nat) (store : F.Store) (rules : Rules) (block : Block) (next : Starting)
      (r : Pipeline F), q.calls[c]? = some (.start store rules block next) →
      q.step? (.caller c) = some r → r.calls[c]? = some (.returned (.started (.ok ()))) →
        ∃ lane, r.active = some ⟨block.number, block.hashes, lane⟩ ∧
          ∀ more t, r.run? more = some t →
            r.Bars ⟨block.number, block.hashes, lane⟩ more t ∨
              r.Gives ⟨block.number, block.hashes, lane⟩ more) ∧
    ∀ (c : Nat) (store : F.Store) (rules : Rules) (block : Block),
      q.calls[c]? = some (.start store rules block .scan) →
      (p.steadyRun? moves = some q → q.Quiescent) ∧
      (p.cleanRun? moves = some q → q.Quiescent ∧ ∀ hash, q.ledger.find? hash = none) := by
  have hguards : q.Guards := (guards_create hcreate).run? hrun
  have hlatched := latched_of_run? hcreate hrun
  refine ⟨?_, ?_, ?_⟩
  · intro c store rules block next hcall hholds
    exact hguards.alone hcall hholds
  · intro c store rules block next r hcall hstep hreturned
    obtain ⟨lane, hactive⟩ := Guards.active_of_returned hcall hstep hreturned
    exact ⟨lane, hactive, fun more t hmore => (hguards.step? hstep).bars_or_gives hactive hmore⟩
  · intro c store rules block hcall
    constructor
    · intro hsteady
      obtain ⟨past, hq⟩ := (Chronicle.of_steadyRun? hcreate hsteady).between_of_scan hcall
      exact hq.quiescent hlatched
    · intro hclean
      obtain ⟨past, hq⟩ := (Chronicle.of_cleanRun? hcreate hclean).between_of_scan hcall
      exact ⟨hq.quiescent hlatched, hq.ledger trivial⟩

end Pipeline

/-! ## Runs -/

namespace Sample

open Pipeline

def lone : Block := ⟨⟨3, []⟩, [transaction 3]⟩

/-- While the block of `started` is active, a call is to finish a block under the number of `block`,
and another one to start `lone`. The first takes the active block; the second goes on until it has
opened a station. -/
def overlapping (block : Block) : List (Move flow) :=
  started ++ .call (.finish (3 : Nat) block []) :: .call (.start (4 : Nat) .latest lone) ::
    [.caller 1, .caller 2, .caller 2, .caller 2, .caller 2].map .act

end Sample

namespace Pipeline

open Sample

/-- Whether call `c` has taken the active block to finish it, and waits for its first thread. -/
def isJoining (p : Pipeline flow) (c : Nat) (active : ActiveBlock) : Bool :=
  match p.calls[c]? with
  | some (.finish _ _ _ (.joinPreparation block 0)) => decide (block = active)
  | _ => false

/-- Whether call `c` has opened station `h` for `block`, and has not yet opened all stations. -/
def hasOpened (p : Pipeline flow) (c h : Nat) (block : Block) : Bool :=
  match p.calls[c]? with
  | some (.start _ _ other (.opening _ k)) => decide (other = block) && decide (h < k)
  | _ => false

/-- Whether call `c` is to start `block`. -/
def isStarting (p : Pipeline flow) (c : Nat) (block : Block) : Bool :=
  match p.calls[c]? with
  | some (.start _ _ other _) => decide (other = block)
  | _ => false

/-- A station is opened for another block while nothing is reset of the first one: a call that
finishes it has only taken it, or has even given it up because of its number. -/
theorem start_overtakes_finish : ∃ q r,
    (ofConfig oneEach adders).run? (overlapping pair) = some q ∧
    q.isJoining 1 ⟨1, pair.hashes, 0⟩ = true ∧ q.hasOpened 2 0 lone = true ∧
    (q.charge (Word.ofNat 1)).toOption = some 7 ∧
    (ofConfig oneEach adders).run? (overlapping renumbered) = some r ∧
    r.outcome? 1 = some (some (.blockMismatch 1 2), 3) ∧ r.hasOpened 2 0 lone = true ∧
    (r.charge (Word.ofNat 1)).toOption = some 7 := by
  obtain ⟨q, hq, hjoining, hopened, hcharge⟩ : ∃ q,
      (ofConfig oneEach adders).run? (overlapping pair) = some q ∧
        q.isJoining 1 ⟨1, pair.hashes, 0⟩ = true ∧ q.hasOpened 2 0 lone = true ∧
        (q.charge (Word.ofNat 1)).toOption = some 7 := by
    decide +kernel
  obtain ⟨r, hr, hrejected⟩ : ∃ r,
      (ofConfig oneEach adders).run? (overlapping renumbered) = some r ∧
        r.outcome? 1 = some (some (.blockMismatch 1 2), 3) ∧ r.hasOpened 2 0 lone = true ∧
        (r.charge (Word.ofNat 1)).toOption = some 7 := by
    decide +kernel
  exact ⟨q, r, hq, hjoining, hopened, hcharge, hr, hrejected⟩

/-- In `started` the block becomes active, and only a call to finish one ends that. -/
theorem blocks_exclude_until_taken_started : ∃ q r,
    (ofConfig oneEach adders).run? (started.take 29) = some q ∧ q.step? (.caller 0) = some r ∧
    ∃ lane, r.active = some ⟨1, pair.hashes, lane⟩ ∧ ∀ more t, r.run? more = some t →
      r.Bars ⟨1, pair.hashes, lane⟩ more t ∨ r.Gives ⟨1, pair.hashes, lane⟩ more := by
  obtain ⟨q, hrun, hstarting, r, hstep, _, hcall, rfl⟩ : ∃ q,
      (ofConfig oneEach adders).run? (started.take 29) = some q ∧ q.isStarting 0 pair = true ∧
        ∃ r, q.step? (.caller 0) = some r ∧
          ∃ call, r.calls[0]? = some call ∧ call = .returned (.started (.ok ())) := by
    decide +kernel
  refine ⟨q, r, hrun, hstep, ?_⟩
  unfold isStarting at hstarting
  split at hstarting
  · rename_i store rules block next hstart
    obtain rfl : block = pair := of_decide_eq_true hstarting
    exact (blocks_exclude_until_taken (show create oneEach adders = .ok _ from rfl) hrun).2.1 0 _ _
      _ _ r hstart hstep hcall
  · cases hstarting

end Pipeline

end TxPipeline
