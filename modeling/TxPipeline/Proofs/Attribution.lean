import TxPipeline.Proofs.Results

/-!
# Where the entries of the ledger come from

Calls come one after the other, but any stage may raise a fault, and a block may be finished under a
wrong number. A fault of `gas` ends a call to start a block, and a fault of `beforeBlock`,
`postProcess` or `afterBlock` a call to finish one, and neither takes the entries of its block out
of the ledger. So an entry is either of the block in work, or it was left by such a call.
-/

namespace TxPipeline

variable {F : Flow}

/-- The block that a call is about to finish. -/
def Finishing.block? : Finishing → Option ActiveBlock
  | .take => none
  | .joinPreparation block _ => some block
  | .joinFeeders block => some block
  | .joinAggregation block _ => some block
  | .conclude block _ => some block
  | .ending block _ _ => some block
  | .draining block _ _ _ _ => some block
  | .closing block _ _ => some block
  | .leaving block _ => some block

namespace Call

def block? : Call F → Option ActiveBlock
  | .finish _ _ _ next => next.block?
  | _ => none

/-- A call that has passed the lock has found no active block there, or has taken it. -/
def Sole (active : Option ActiveBlock) : Call F → Prop
  | .start _ _ block next => block.length ≤ 2 ^ 32 ∧ (next = .acquire ∨ active = none)
  | .finish _ _ _ next => next = .take ∨ active = none
  | _ => True

theorem sole_of_isSettled {call : Call F} (h : call.isSettled = true)
    (active : Option ActiveBlock) : call.Sole active := by
  cases call with
  | returned answer => trivial
  | close next => trivial
  | start => cases h
  | finish => cases h

theorem block?_of_isSettled {call : Call F} (h : call.isSettled = true) : call.block? = none := by
  cases call with
  | returned answer => rfl
  | close next => rfl
  | start => cases h
  | finish => cases h

end Call

namespace Pipeline

variable {config : Config} {registry : Registry F} {p q r : Pipeline F} {c f : Nat}
  {moves : List (Move F)} {store : F.Store} {rules : Rules} {block : Block}
  {receipts : List Receipt} {hash : Word} {handlers : List (Handler F)}

/-- Whether something can happen in an orderly run: a call to start or to finish a block comes only
when no other is under way. -/
def isOrderly (p : Pipeline F) : Move F → Bool
  | .call (.start _ _ block) => p.isQuiet && decide (block.length ≤ 2 ^ 32)
  | .call (.finish _ _ _) => p.isQuiet
  | _ => true

/-- The pipeline after a run, if all of it can happen and it is orderly. -/
def orderlyRun? (p : Pipeline F) (moves : List (Move F)) : Option (Pipeline F) :=
  p.runWhile? isOrderly moves

/-- The ledger has an entry for a hash. -/
def Knows (p : Pipeline F) (hash : Word) : Prop := (p.ledger.find? hash).isSome = true

theorem knows_iff : p.Knows hash ↔ ∃ total, p.charge hash = .ok total := by
  simp only [charge, Gas.Ledger.charge_eq_ok_iff, Knows, Option.isSome_iff_exists]

/-! ## What callers do to the ledger -/

theorem knows_shouldProcess (p : Pipeline F) (tx : IndexedTx) (rules : Rules) (hash : Word) :
    (p.shouldProcess tx rules).2.Knows hash ↔ p.Knows hash ∨ hash = tx.hash := by
  rw [Knows, find?_shouldProcess rfl, Knows]
  split
  · rename_i heq
    simp [heq]
  · rename_i hne
    simp [Ne.symm hne]

/-- A scan that fails has made an entry for every transaction up to the one that it failed at. -/
theorem knows_of_scan {failure : Failure} {txs : List IndexedTx} {tx : IndexedTx}
    (hscan : p.scan rules txs = (.error (failure, tx), q)) :
    ∃ before after, txs = before ++ tx :: after ∧
      ∀ hash, q.Knows hash ↔ p.Knows hash ∨ hash ∈ (before ++ [tx]).map (·.hash) := by
  induction txs generalizing p with
  | nil => cases hscan
  | cons first rest ih =>
      have hfirst := knows_shouldProcess p first rules
      rw [scan] at hscan
      split at hscan
      · rename_i failure' next heq
        cases hscan
        obtain rfl : (p.shouldProcess tx rules).2 = q := congrArg Prod.snd heq
        exact ⟨[], rest, rfl, fun hash => by simpa using hfirst hash⟩
      · rename_i eligible next heq
        obtain rfl : (p.shouldProcess first rules).2 = next := congrArg Prod.snd heq
        split at hscan
        · rename_i e last hrest
          cases hscan
          obtain ⟨before, after, rfl, hknows⟩ := ih hrest
          refine ⟨first :: before, after, rfl, fun hash => ?_⟩
          rw [hknows, hfirst, List.cons_append, List.map_cons, List.mem_cons, or_assoc]
        · cases hscan

theorem mem_hashes_of_scanned {before after : List IndexedTx} {tx : IndexedTx}
    (hsplit : block.indexed = before ++ tx :: after)
    (hmem : hash ∈ (before ++ [tx]).map (·.hash)) : hash ∈ block.hashes := by
  rw [Block.hashes_eq, hsplit, List.append_cons, List.map_append]
  exact List.mem_append_left _ hmem

/-- What a move of a call that starts a block can do. -/
inductive StartStep (p : Pipeline F) (c : Nat) (store : F.Store) (rules : Rules) (block : Block)
    (next : Starting) (q : Pipeline F) : Prop
  | goes (next' : Starting)
      (hcalls : q.calls = p.calls.set c (.start store rules block next'))
      (hactive : q.active = p.active) (hfree : next = .acquire → p.active = none)
      (haccepted : next.isAccepted = true → next'.isAccepted = true)
      (hknows : ∀ hash, q.Knows hash →
        p.Knows hash ∨ next'.isAccepted = true ∧ hash ∈ block.hashes)
  | fails (failure : Failure)
      (hcalls : q.calls = p.calls.set c (.returned (.started (.error failure))))
      (hactive : q.active = p.active)
      (hfault : next.isAccepted = true → ∃ fault, failure = .fault fault)
      (hknows : ∀ hash, q.Knows hash →
        p.Knows hash ∨ (∃ fault, failure = .fault fault) ∧ hash ∈ block.hashes)
  | ends (lane : Nat) (hcalls : q.calls = p.calls.set c (.returned (.started (.ok ()))))
      (hactive : q.active = some ⟨block.number, block.hashes, lane⟩)
      (haccepted : next.isAccepted = true) (hledger : q.ledger = p.ledger)

/-- A scan leaves behind an entry for each transaction that it has seen, unless an error ends it. -/
theorem startStep_of_stepStart? {next : Starting} (hlen : block.length ≤ 2 ^ 32)
    (hstep : p.stepStart? c store rules block next = some q) :
    p.StartStep c store rules block next q := by
  cases startMove_of_stepStart? hstep with
  | scanFault fault tx ledger log hscan =>
      obtain ⟨before, after, hsplit, hscanned⟩ := knows_of_scan hscan
      exact .fails (.fault fault) rfl rfl (fun h => by cases h) fun hash hknows =>
        ((hscanned hash).mp hknows).imp_right fun hmem =>
          ⟨⟨fault, rfl⟩, mem_hashes_of_scanned hsplit hmem⟩
  | scanError error tx ledger log hscan =>
      obtain ⟨before, after, hsplit, hscanned⟩ := knows_of_scan hscan
      refine .fails (.error error) rfl rfl (fun h => by cases h) fun hash hknows => .inl ?_
      change ((ledger.clear (block.hashes.take (tx.index + 1))).find? hash).isSome = true at hknows
      rw [Gas.Ledger.find?_clear, Between.take_scanned hlen hsplit] at hknows
      split at hknows
      · cases hknows
      · exact ((hscanned hash).mp hknows).resolve_right ‹_›
  | scan decisions ledger log hscan =>
      refine .goes _ rfl rfl (fun h => by cases h) (fun h => by cases h) fun hash hknows => ?_
      by_cases hmem : hash ∈ block.hashes
      · exact .inr ⟨rfl, hmem⟩
      · have hsame : ledger.find? hash = p.ledger.find? hash := find?_of_scan hscan hmem
        rw [Knows, ← hsame]
        exact .inl hknows
  | acquire hunlocked hactive =>
      exact .goes .enter rfl rfl (fun _ => hactive) (fun h => by cases h) fun _ => .inl
  | enter => exact .goes .scan rfl rfl (fun h => by cases h) (fun h => by cases h) fun _ => .inl
  | refuse | closed => exact .fails _ rfl rfl (fun h => by cases h) fun _ => .inl
  | announceFault | settleFault => exact .fails _ rfl rfl (fun _ => ⟨_, rfl⟩) fun _ => .inl
  | activate plan => exact .ends plan.lane rfl rfl rfl rfl
  | _ => exact .goes _ rfl rfl (fun h => by cases h) (fun _ => rfl) fun _ => .inl

/-- A call that is denied a thread takes out every entry of its block. -/
theorem knows_of_deny? {reason : String} (hdeny : p.deny? c reason = some q)
    (hknows : q.Knows hash) : p.Knows hash := by
  cases denyMove_of_deny? hdeny with
  | deny store rules block decisions ledger log hcall hscan =>
      have hcleared : (ledger.clear block.hashes).find? hash = _ := find?_clear_of_scan hscan hash
      change ((ledger.clear block.hashes).find? hash).isSome = true at hknows
      rw [hcleared] at hknows
      split at hknows
      · cases hknows
      · exact hknows

theorem startStep_of_deny? {reason : String} (hdeny : p.deny? c reason = some q) :
    ∃ store rules block, p.calls[c]? = some (.start store rules block .scan) ∧
      p.StartStep c store rules block .scan q := by
  have hkeeps (hash : Word) (hknows : q.Knows hash) : p.Knows hash := knows_of_deny? hdeny hknows
  cases denyMove_of_deny? hdeny with
  | deny store rules block decisions ledger log hcall hscan =>
      exact ⟨store, rules, block, hcall, .fails (.error (.spawn reason)) rfl rfl
        (fun h => by cases h) fun hash hknows => .inl (hkeeps hash hknows)⟩

/-- What a move of a call that finishes a block can do. -/
inductive FinishStep (p : Pipeline F) (f : Nat) (block : Block) (receipts : List Receipt)
    (next : Finishing) (q : Pipeline F) : Prop
  | goes (store' : F.Store) (next' : Finishing)
      (hcalls : q.calls = p.calls.set f (.finish store' block receipts next'))
      (hactive : q.active = p.active) (hnext : next ≠ .take) (hblock : next'.block? = next.block?)
      (hledger : q.ledger = p.ledger)
  | takes (store' : F.Store) (active : ActiveBlock) (next' : Finishing)
      (hcalls : q.calls = p.calls.set f (.finish store' block receipts next'))
      (hnext : next = .take) (hfound : p.active = some active) (hactive : q.active = none)
      (hblock : next'.block? = some active) (hledger : q.ledger = p.ledger)
  | misses (store' : F.Store)
      (hcalls : q.calls = p.calls.set f (.returned (.finished none store')))
      (hnext : next = .take) (hnone : p.active = none) (hactive : q.active = none)
      (hledger : q.ledger = p.ledger)
  | cut (fault : Fault) (store' : F.Store)
      (hcalls : q.calls = p.calls.set f (.returned (.finished (some fault) store')))
      (hnext : next.isLeaving = false)
      (hactive : q.active = none ∨ next ≠ .take ∧ q.active = p.active)
      (hledger : q.ledger = p.ledger)
  | leaves (active : ActiveBlock) (fault : Option Fault) (store' : F.Store)
      (hcalls : q.calls = p.calls.set f (.returned (.finished fault store')))
      (hnext : next.isLeaving = true) (hblock : next.block? = some active)
      (hactive : q.active = p.active) (hledger : q.ledger = p.ledger.clear active.hashes)

theorem finishStep_of_stepFinish? {next : Finishing}
    (hstep : p.stepFinish? f store block receipts next = some q) :
    p.FinishStep f block receipts next q := by
  cases finishMove_of_stepFinish? hstep with
  | miss hunlocked hactive => exact .misses store rfl rfl hactive hactive rfl
  | take active hunlocked hactive hnumber =>
      exact .takes store active _ rfl rfl hactive rfl rfl rfl
  | mismatch active hunlocked hactive hnumber => exact .cut _ store rfl rfl (.inl rfl) rfl
  | preparationDead | aggregationDead | concludeFault =>
      exact .cut _ _ rfl rfl (.inr ⟨by simp, rfl⟩) rfl
  | leaveFault active fault => exact .leaves active (some fault) store rfl rfl rfl rfl rfl
  | leave active => exact .leaves active none store rfl rfl rfl rfl rfl
  | _ => exact .goes _ _ rfl rfl (by simp) rfl rfl

/-! ## One call at a time -/

/-- No call but `c` is starting or finishing a block, and those after it only close. -/
structure Busy (p : Pipeline F) (c : Nat) : Prop where
  minds : p.Minds c
  after : ∀ (d : Nat) (call : Call F), c < d → p.calls[d]? = some call → call.isClosing = true
  sole : ∀ call, p.calls[c]? = some call → call.Sole p.active

/-- A block is active, or a call is about to finish it. -/
def Keeps (p : Pipeline F) (active : ActiveBlock) : Prop :=
  p.active = some active ∨ ∃ (f : Nat) (call : Call F), p.calls[f]? = some call ∧
    call.block? = some active

namespace Busy

variable {call next : Call F} {active : ActiveBlock}

theorem eq_of_unsettled (h : p.Busy c) (hcall : p.calls[f]? = some call)
    (hunsettled : call.isSettled = false) : f = c := by
  by_contra hne
  rw [h.minds f call hcall hne] at hunsettled
  cases hunsettled

/-- Only the call that is under way can be about to finish a block. -/
theorem keeps_iff (h : p.Busy c) (hcall : p.calls[c]? = some call) :
    p.Keeps active ↔ p.active = some active ∨ call.block? = some active := by
  refine or_congr_right ⟨?_, fun hblock => ⟨c, call, hcall, hblock⟩⟩
  rintro ⟨f, other, hother, hblock⟩
  have hunsettled : other.isSettled = false := by
    by_contra hsettled
    rw [Call.block?_of_isSettled (by simpa using hsettled)] at hblock
    cases hblock
  obtain rfl := h.eq_of_unsettled hother hunsettled
  obtain rfl := Option.some.inj (hcall.symm.trans hother)
  exact hblock

theorem not_keeps (h : p.Busy c) (hcall : p.calls[c]? = some call) (hactive : p.active = none)
    (hblock : call.block? = none) (active : ActiveBlock) : ¬ p.Keeps active := by
  rw [h.keeps_iff hcall, hactive, hblock]
  simp

theorem congr (h : p.Busy c) (hcalls : q.calls = p.calls) (hactive : q.active = p.active) :
    q.Busy c where
  minds := by
    rw [Pipeline.Minds, hcalls]
    exact h.minds
  after := by
    rw [hcalls]
    exact h.after
  sole := by
    rw [hcalls, hactive]
    exact h.sole

theorem set (h : p.Busy c) (hcall : p.calls[c]? = some call)
    (hcalls : q.calls = p.calls.set c next) (hsole : next.Sole q.active) : q.Busy c where
  minds := h.minds.set_self hcall hcalls
  after := fun d other hlt hd => by
    rw [hcalls, getElem?_set_calls hcall, if_neg (by omega)] at hd
    exact h.after d other hlt hd
  sole := fun other hother => by
    rw [getElem?_of_set_calls hcall hcalls] at hother
    cases hother
    exact hsole

theorem set_closing (h : p.Busy c) (hcall : p.calls[f]? = some call)
    (hcalls : q.calls = p.calls.set f next) (hclosing : next.isClosing = true)
    (hactive : q.active = p.active) : q.Busy c where
  minds := h.minds.set_settled hcall (Call.isSettled_of_isClosing hclosing) hcalls
  after := fun d other hlt hd => by
    rw [hcalls, getElem?_set_calls hcall] at hd
    split at hd
    · cases hd
      exact hclosing
    · exact h.after d other hlt hd
  sole := fun other hother => by
    rw [hcalls, getElem?_set_calls hcall] at hother
    split at hother
    · cases hother
      exact Call.sole_of_isSettled (Call.isSettled_of_isClosing hclosing) _
    · rw [hactive]
      exact h.sole other hother

theorem invoke_close (h : p.Busy c) : (p.invoke .close).Busy c where
  minds := h.minds.append rfl fun _ => rfl
  after := fun d other hlt hd => by
    rcases getElem?_of_invoke hd with hd | ⟨-, rfl⟩
    · exact h.after d other hlt hd
    · rfl
  sole := fun other hother => by
    rcases getElem?_of_invoke hother with hother | ⟨-, rfl⟩
    · exact h.sole other hother
    · trivial

theorem invoke (hquiet : p.isQuiet = true) (task : Task F)
    (hsole : (Call.ofTask task).Sole p.active) : (p.invoke task).Busy p.calls.length where
  minds := (minds_of_isQuiet hquiet _).append rfl fun hne => absurd rfl hne
  after := fun d other hlt hd => by
    have hd' := (List.getElem?_eq_some_iff.mp hd).1
    rw [calls_invoke, List.length_append, List.length_singleton] at hd'
    omega
  sole := fun other hother => by
    rw [calls_invoke, List.getElem?_concat_length] at hother
    cases hother
    exact hsole

end Busy

/-! ## Attribution -/

/-- Call `c` has started its block, and no later call has started one. -/
structure LastStarted (p : Pipeline F) (c : Nat) : Prop where
  returned : p.calls[c]? = some (.returned (.started (.ok ())))
  last : ∀ d, c < d → p.calls[d]? ≠ some (.returned (.started (.ok ())))

/-- In this run, call `f` gave up the block that it was to finish. -/
def CutShort (p : Pipeline F) (moves : List (Move F)) (f : Nat) : Prop :=
  ∃ first rest r, moves = first ++ .act (.caller f) :: rest ∧ p.run? first = some r ∧
    r.cutsShort (.caller f) = true

theorem CutShort.append (h : p.CutShort moves f) (more : List (Move F)) :
    p.CutShort (moves ++ more) f := by
  obtain ⟨first, rest, r, rfl, hrun, hcut⟩ := h
  exact ⟨first, rest ++ more, r, by simp, hrun, hcut⟩

/-- Why there may be entries left of the block that call `c` was to start. -/
inductive Leaves (p : Pipeline F) (moves : List (Move F)) (q : Pipeline F) (c : Nat) : Prop
  /-- A fault ended the call. -/
  | unwound (fault : Fault)
      (hreturned : q.calls[c]? = some (.returned (.started (.error (.fault fault)))))
  /-- The block was started, and a fault ended the next call to finish one before its end. -/
  | abandoned (f : Nat) (fault : Fault) (store : F.Store)
      (hreturned : q.calls[c]? = some (.returned (.started (.ok ())))) (hlt : c < f)
      (hfinished : q.calls[f]? = some (.returned (.finished (some fault) store)))
      (hcut : p.CutShort moves f)
      (hlast : ∀ (d : Nat) (call : Call F), c < d → d < f → q.calls[d]? = some call →
        call.isSettled = true ∧ call ≠ .returned (.started (.ok ())))

theorem Leaves.of_continues (h : Leaves p moves q c) (hgoes : q.Continues r)
    (more : List (Move F)) : Leaves p (moves ++ more) r c := by
  cases h with
  | unwound fault hreturned =>
      obtain ⟨next, hnext, hturns⟩ := hgoes.turns _ _ hreturned
      cases hturns
      exact .unwound fault hnext
  | abandoned f fault store hreturned hlt hfinished hcut hlast =>
      obtain ⟨next, hnext, hturns⟩ := hgoes.turns _ _ hreturned
      cases hturns
      obtain ⟨next, hfinished', hturns⟩ := hgoes.turns _ _ hfinished
      cases hturns
      refine .abandoned f fault store hnext hlt hfinished' (hcut.append more) ?_
      intro d call hcd hdf hd
      obtain ⟨old, hold, hturns⟩ := hgoes.exists_turned hd
      obtain ⟨hsettled, hne⟩ := hlast d _ hcd hdf hold
      refine ⟨hturns.isSettled hsettled, ?_⟩
      rintro rfl
      cases hturns with
      | started => cases hsettled
      | returned => exact hne rfl

theorem Leaves.invoke (h : Leaves p moves q c) (task : Task F) (more : List (Move F)) :
    Leaves p (moves ++ more) (q.invoke task) c := by
  cases h with
  | unwound fault hreturned => exact .unwound fault (getElem?_append_calls hreturned rfl)
  | abandoned f fault store hreturned hlt hfinished hcut hlast =>
      refine .abandoned f fault store (getElem?_append_calls hreturned rfl) hlt
        (getElem?_append_calls hfinished rfl) (hcut.append more) ?_
      intro d call hcd hdf hd
      have hlen := (List.getElem?_eq_some_iff.mp hfinished).1
      rw [getElem?_invoke_of_lt (hdf.trans hlen)] at hd
      exact hlast d call hcd hdf hd

/-- Where an entry of the ledger comes from. -/
inductive Owes (p : Pipeline F) (moves : List (Move F)) (q : Pipeline F) (hash : Word) : Prop
  /-- It is of the block in work. -/
  | kept (active : ActiveBlock) (hkeeps : q.Keeps active) (hmem : hash ∈ active.hashes)
  /-- It is of a block that is about to be started. -/
  | entered (c : Nat) (store : F.Store) (rules : Rules) (block : Block) (next : Starting)
      (hcall : q.calls[c]? = some (.start store rules block next))
      (haccepted : next.isAccepted = true) (hmem : hash ∈ block.hashes)
  | left (c : Nat) (store : F.Store) (rules : Rules) (block : Block)
      (htask : (tasks moves)[c]? = some (.start store rules block)) (hmem : hash ∈ block.hashes)
      (hleaves : Leaves p moves q c)

/-- The block that call `c` has started is in work. -/
structure Current (p : Pipeline F) (c : Nat) : Prop extends p.LastStarted c where
  not_over : ¬ p.Over c
  before : ∀ (f : Nat) (call : Call F), p.calls[f]? = some call → call.isSettled = false → c < f

/-- The block in work is the one that was started last, and all entries are accounted for. -/
structure Attributed (p : Pipeline F) (moves : List (Move F)) (q : Pipeline F) : Prop where
  busy : ∃ c, q.Busy c
  current : ∀ active, q.Keeps active → ∃ c store rules block,
    (tasks moves)[c]? = some (.start store rules block) ∧ active.hashes = block.hashes ∧ q.Current c
  known : ∀ hash, q.Knows hash → Owes p moves q hash

section Turn

variable {call next : Call F} {active : ActiveBlock} {i : Nat}

theorem keeps_of_set (hcall : p.calls[c]? = some call) (hcalls : q.calls = p.calls.set c next)
    (hactive : q.active = p.active) (hblock : next.block? = call.block?) :
    q.Keeps active ↔ p.Keeps active := by
  rw [Keeps, Keeps, hactive]
  refine or_congr_right (exists_congr fun f => ?_)
  rw [hcalls, getElem?_set_calls hcall]
  split
  · rename_i heq
    subst heq
    simp [hcall, hblock]
  · exact Iff.rfl

/-- A call that goes on, or fails to start a block, does not change which block is in work. -/
theorem Current.set (h : p.Current i) (hcall : p.calls[c]? = some call)
    (hcalls : q.calls = p.calls.set c next) (hreturned : call.isReturned = false)
    (hok : next ≠ .returned (.started (.ok ()))) (hfinished : next.hasFinished = false)
    (hsettled : next.isSettled = false → call.isSettled = false) : q.Current i where
  returned := by
    rw [hcalls, getElem?_set_calls hcall, if_neg]
    · exact h.returned
    · rintro rfl
      rw [h.returned] at hcall
      cases hcall
      cases hreturned
  last := fun d hlt hd => by
    rw [hcalls, getElem?_set_calls hcall] at hd
    split at hd
    · exact hok (Option.some.inj hd)
    · exact h.last d hlt hd
  not_over := by
    rintro ⟨f, fault, store, hlt, hf⟩
    rw [hcalls, getElem?_set_calls hcall] at hf
    split at hf
    · rw [Option.some.inj hf] at hfinished
      cases hfinished
    · exact h.not_over ⟨f, fault, store, hlt, hf⟩
  before := fun f other hother hunsettled => by
    rw [hcalls, getElem?_set_calls hcall] at hother
    split at hother
    · rename_i heq
      obtain rfl := Option.some.inj hother
      exact heq ▸ h.before c call hcall (hsettled hunsettled)
    · exact h.before f other hother hunsettled

/-- When a call has started its block, that block is the one in work. -/
theorem Busy.current (h : p.Busy c)
    (hreturned : p.calls[c]? = some (.returned (.started (.ok ())))) : p.Current c where
  returned := hreturned
  last := fun d hlt hd => by cases h.after d _ hlt hd
  not_over := by
    rintro ⟨f, fault, store, hlt, hf⟩
    cases h.after f _ hlt hf
  before := fun f other hother hunsettled => by
    obtain rfl := h.eq_of_unsettled hother hunsettled
    obtain rfl := Option.some.inj (hreturned.symm.trans hother)
    cases hunsettled

/-- The block in work is left behind by a call that gives it up. -/
theorem Current.leaves {fault : Fault} (h : p.Current i) (hbusy : p.Busy f)
    (hcall : p.calls[f]? = some call) (hunsettled : call.isSettled = false)
    (hcalls : q.calls = p.calls.set f (.returned (.finished (some fault) store)))
    (hcut : r.CutShort moves f) : Leaves r moves q i := by
  have hlt := h.before f _ hcall hunsettled
  have hother {d : Nat} (hne : d ≠ f) : q.calls[d]? = p.calls[d]? := by
    rw [hcalls, getElem?_set_calls hcall, if_neg hne]
  refine .abandoned f fault store ((hother hlt.ne).trans h.returned) hlt
    (getElem?_of_set_calls hcall hcalls) hcut ?_
  intro d other hid hdf hd
  rw [hother hdf.ne] at hd
  refine ⟨hbusy.minds d other hd hdf.ne, ?_⟩
  rintro rfl
  exact h.last d hid hd

/-- An entry that a call does not touch stays accounted for as long as it can still be told of which
block it is. -/
theorem Owes.set {more : List (Move F)} (h : Owes p moves q hash)
    (hgoes : q.Continues r) (hcall : q.calls[c]? = some call)
    (hcalls : r.calls = q.calls.set c next) (htasks : tasks (moves ++ more) = tasks moves)
    (hkept : ∀ active, q.Keeps active → hash ∈ active.hashes → Owes p (moves ++ more) r hash)
    (hentered : ∀ store rules block at', call = .start store rules block at' →
      at'.isAccepted = true → hash ∈ block.hashes → Owes p (moves ++ more) r hash) :
    Owes p (moves ++ more) r hash := by
  cases h with
  | kept active hkeeps hmem => exact hkept active hkeeps hmem
  | entered d store rules block at' hd haccepted hmem =>
      by_cases heq : d = c
      · subst heq
        obtain rfl := Option.some.inj (hcall.symm.trans hd)
        exact hentered store rules block at' rfl haccepted hmem
      · refine .entered d store rules block at' ?_ haccepted hmem
        rw [hcalls, getElem?_set_calls hcall, if_neg heq, hd]
  | left d store rules block htask hmem hleaves =>
      exact .left d store rules block (htasks ▸ htask) hmem (hleaves.of_continues hgoes more)

end Turn

namespace Attributed

theorem of_create (hcreate : create config registry = .ok p) : Attributed p [] p := by
  obtain ⟨-, rfl⟩ := eq_ofConfig hcreate
  refine ⟨⟨0, fun i call h => ?_, fun d call _ h => ?_, fun call h => ?_⟩, ?_, ?_⟩
  · simp [ofConfig] at h
  · simp [ofConfig] at h
  · simp [ofConfig] at h
  · rintro active (h | ⟨f, call, h, -⟩)
    · cases h
    · simp [ofConfig] at h
  · intro hash hknows
    simp [Knows, ofConfig, Gas.Ledger.find?, Gas.Ledger.empty] at hknows

/-- The block in work stays the one that was started last, as long as its call goes on. -/
theorem current_of_set {call next : Call F} {active : ActiveBlock} {more : List (Move F)}
    (h : Attributed p moves q) (htasks : tasks (moves ++ more) = tasks moves)
    (hkeeps : q.Keeps active) (hcall : q.calls[c]? = some call)
    (hcalls : r.calls = q.calls.set c next) (hreturned : call.isReturned = false)
    (hok : next ≠ .returned (.started (.ok ()))) (hfinished : next.hasFinished = false)
    (hsettled : next.isSettled = false → call.isSettled = false) : ∃ c store rules block,
      (tasks (moves ++ more))[c]? = some (.start store rules block) ∧
        active.hashes = block.hashes ∧ r.Current c := by
  obtain ⟨d, store, rules, block, htask, hhashes, hcurrent⟩ := h.current active hkeeps
  exact ⟨d, store, rules, block, htasks ▸ htask, hhashes,
    hcurrent.set hcall hcalls hreturned hok hfinished hsettled⟩

section Step

variable {more : List (Move F)} (h : Attributed p moves q) (hgoes : q.Continues r)
  (htasks : tasks (moves ++ more) = tasks moves)

include h hgoes htasks

/-- Threads other than callers have no part in this. -/
theorem congr (hcalls : r.calls = q.calls) (hactive : r.active = q.active)
    (hledger : r.ledger = q.ledger) : Attributed p (moves ++ more) r := by
  have hkeeps {active : ActiveBlock} : r.Keeps active ↔ q.Keeps active := by
    rw [Keeps, Keeps, hcalls, hactive]
  refine ⟨h.busy.imp fun c hbusy => hbusy.congr hcalls hactive, fun active hr => ?_,
    fun hash hknows => ?_⟩
  · obtain ⟨c, store, rules, block, htask, hhashes, hcurrent⟩ := h.current active (hkeeps.mp hr)
    refine ⟨c, store, rules, block, htasks ▸ htask, hhashes,
      ⟨⟨hcalls ▸ hcurrent.returned, hcalls ▸ hcurrent.last⟩, ?_, hcalls ▸ hcurrent.before⟩⟩
    rw [Over, hcalls]
    exact hcurrent.not_over
  · rw [Knows, hledger] at hknows
    cases h.known hash hknows with
    | kept active hq hmem => exact .kept active (hkeeps.mpr hq) hmem
    | entered c store rules block next hcall haccepted hmem =>
        exact .entered c store rules block next (hcalls ▸ hcall) haccepted hmem
    | left c store rules block htask hmem hleaves =>
        exact .left c store rules block (htasks ▸ htask) hmem
          (hleaves.of_continues hgoes more)

theorem stepClose? {next : Closing} (hcall : q.calls[c]? = some (.close next))
    (hclose : q.stepClose? c next = some r) : Attributed p (moves ++ more) r := by
  obtain ⟨turned, hturns, hcalls⟩ := turns_of_stepClose? hclose
  obtain ⟨_, _, _, _, hr⟩ := eq_of_stepClose? hclose
  have hactive : r.active = q.active := by rw [hr]
  have hledger : r.ledger = q.ledger := by rw [hr]
  have hclosing : turned.isClosing = true := hturns.isClosing rfl
  have hsettled := Call.isSettled_of_isClosing hclosing
  have hkeeps {active : ActiveBlock} : r.Keeps active ↔ q.Keeps active :=
    keeps_of_set hcall hcalls hactive (Call.block?_of_isSettled hsettled)
  refine ⟨h.busy.imp fun d hbusy => hbusy.set_closing hcall hcalls hclosing hactive,
    fun active hr => ?_, fun hash hknows => ?_⟩
  · refine h.current_of_set htasks (hkeeps.mp hr) hcall hcalls rfl ?_ ?_ (by simp [hsettled])
    · rintro rfl
      cases hclosing
    · cases hturns <;> rfl
  · rw [Knows, hledger] at hknows
    refine (h.known hash hknows).set hgoes hcall hcalls htasks
      (fun active hq hmem => .kept active (hkeeps.mpr hq) hmem) ?_
    intro _ _ _ _ heq
    cases heq

theorem stepStart? {next : Starting}
    (hcall : q.calls[c]? = some (.start store rules block next))
    (htask : (tasks moves)[c]? = some (.start store rules block))
    (hstart : block.length ≤ 2 ^ 32 → q.StartStep c store rules block next r) :
    Attributed p (moves ++ more) r := by
  obtain ⟨d, hbusy⟩ := h.busy
  obtain rfl := hbusy.eq_of_unsettled hcall rfl
  obtain ⟨hlen, hsole⟩ := hbusy.sole _ hcall
  cases hstart hlen with
  | goes next' hcalls hactive hfree haccepted hknows =>
      have hcall' := getElem?_of_set_calls hcall hcalls
      have hkeeps {active : ActiveBlock} : r.Keeps active ↔ q.Keeps active :=
        keeps_of_set hcall hcalls hactive rfl
      have hsole' : (Call.start store rules block next' : Call F).Sole r.active := by
        refine ⟨hlen, .inr ?_⟩
        rw [hactive]
        exact hsole.elim hfree id
      refine ⟨⟨c, hbusy.set hcall hcalls hsole'⟩, fun active hr => ?_, fun hash hr => ?_⟩
      · exact h.current_of_set htasks (hkeeps.mp hr) hcall hcalls rfl (by simp) rfl fun _ => rfl
      · rcases hknows hash hr with hq | ⟨hnext, hmem⟩
        · refine (h.known hash hq).set hgoes hcall hcalls htasks
            (fun active hq hmem => .kept active (hkeeps.mpr hq) hmem) ?_
          intro _ _ _ at' heq hat hmem
          cases heq
          exact .entered c store rules block next' hcall' (haccepted hat) hmem
        · exact .entered c store rules block next' hcall' hnext hmem
  | fails failure hcalls hactive hfault hknows =>
      have hkeeps {active : ActiveBlock} : r.Keeps active ↔ q.Keeps active :=
        keeps_of_set hcall hcalls hactive rfl
      have hleft {hash : Word} (hf : ∃ fault, failure = .fault fault)
          (hmem : hash ∈ block.hashes) : Owes p (moves ++ more) r hash := by
        obtain ⟨fault, rfl⟩ := hf
        exact .left c store rules block (htasks ▸ htask) hmem
          (.unwound fault (getElem?_of_set_calls hcall hcalls))
      refine ⟨⟨c, hbusy.set hcall hcalls trivial⟩, fun active hr => ?_, fun hash hr => ?_⟩
      · exact h.current_of_set htasks (hkeeps.mp hr) hcall hcalls rfl (by simp) rfl fun _ => rfl
      · rcases hknows hash hr with hq | ⟨hf, hmem⟩
        · refine (h.known hash hq).set hgoes hcall hcalls htasks
            (fun active hq hmem => .kept active (hkeeps.mpr hq) hmem) ?_
          intro _ _ _ at' heq hat hmem
          cases heq
          exact hleft (hfault hat) hmem
        · exact hleft hf hmem
  | ends lane hcalls hactive haccepted hledger =>
      -- no block was in work before, so the one that is activated is the only one
      have hcall' := getElem?_of_set_calls hcall hcalls
      have hnone : q.active = none := hsole.resolve_left (by rintro rfl; cases haccepted)
      have hbusy' : r.Busy c := hbusy.set hcall hcalls trivial
      refine ⟨⟨c, hbusy'⟩, fun active hr => ?_, fun hash hr => ?_⟩
      · refine ⟨c, store, rules, block, htasks ▸ htask, ?_, hbusy'.current hcall'⟩
        rw [hbusy'.keeps_iff hcall', hactive] at hr
        rcases hr with hr | hr
        · cases hr
          rfl
        · cases hr
      · rw [Knows, hledger] at hr
        refine (h.known hash hr).set hgoes hcall hcalls htasks
          (fun active hq => absurd hq (hbusy.not_keeps hcall hnone rfl active)) ?_
        intro _ _ _ at' heq _ hmem
        cases heq
        exact .kept _ (.inl hactive) hmem

theorem stepFinish? {next : Finishing} (hmore : more = [.act (.caller f)])
    (hrun : p.run? moves = some q)
    (hcall : q.calls[f]? = some (.finish store block receipts next))
    (hfinish : q.stepFinish? f store block receipts next = some r) :
    Attributed p (moves ++ more) r := by
  obtain ⟨d, hbusy⟩ := h.busy
  obtain rfl := hbusy.eq_of_unsettled hcall rfl
  have hsole : next = .take ∨ q.active = none := hbusy.sole _ hcall
  have hkeptIff {active : ActiveBlock} :
      q.Keeps active ↔ q.active = some active ∨ next.block? = some active := hbusy.keeps_iff hcall
  -- an entry stays accounted for if that of the block in work does
  have hknown {hash : Word} (hledger : r.ledger = q.ledger) {turned : Call F}
      (hcalls : r.calls = q.calls.set f turned)
      (hkept : ∀ active, q.Keeps active → hash ∈ active.hashes →
        Owes p (moves ++ more) r hash) (hr : r.Knows hash) : Owes p (moves ++ more) r hash := by
    rw [Knows, hledger] at hr
    exact (h.known hash hr).set hgoes hcall hcalls htasks hkept (by rintro _ _ _ _ ⟨⟩)
  cases finishStep_of_stepFinish? hfinish with
  | goes store' next' hcalls hactive hnext hblock hledger =>
      have hkeeps {active : ActiveBlock} : r.Keeps active ↔ q.Keeps active :=
        keeps_of_set hcall hcalls hactive hblock
      have hsole' : (Call.finish store' block receipts next' : Call F).Sole r.active :=
        .inr (hactive.trans (hsole.resolve_left hnext))
      refine ⟨⟨f, hbusy.set hcall hcalls hsole'⟩, fun active hr => ?_, fun hash => ?_⟩
      · exact h.current_of_set htasks (hkeeps.mp hr) hcall hcalls rfl (by simp) rfl fun _ => rfl
      · exact hknown hledger hcalls fun active hq hmem => .kept active (hkeeps.mpr hq) hmem
  | takes store' active next' hcalls hnext hfound hactive hblock hledger =>
      -- the active block becomes the one that the call finishes
      have hcall' := getElem?_of_set_calls hcall hcalls
      have hbusy' : r.Busy f := hbusy.set hcall hcalls (.inr hactive)
      have hkeeps {other : ActiveBlock} : r.Keeps other ↔ other = active := by
        rw [hbusy'.keeps_iff hcall', hactive, Call.block?, hblock]
        simp [eq_comm]
      refine ⟨⟨f, hbusy'⟩, fun other hr => ?_, fun hash => ?_⟩
      · obtain rfl := hkeeps.mp hr
        exact h.current_of_set htasks (.inl hfound) hcall hcalls rfl (by simp) rfl fun _ => rfl
      · refine hknown hledger hcalls fun other hq hmem => ?_
        obtain rfl : active = other := by
          rw [hkeptIff, hfound, hnext] at hq
          exact Option.some.inj (hq.resolve_right fun hq => by cases hq)
        exact .kept active (hkeeps.mpr rfl) hmem
  | misses store' hcalls hnext hnone hactive hledger =>
      have hcall' := getElem?_of_set_calls hcall hcalls
      have hbusy' : r.Busy f := hbusy.set hcall hcalls trivial
      refine ⟨⟨f, hbusy'⟩, fun active hr => absurd hr (hbusy'.not_keeps hcall' hactive rfl active),
        fun hash => hknown hledger hcalls fun active hq => ?_⟩
      subst hnext
      exact absurd hq (hbusy.not_keeps hcall hnone rfl active)
  | cut fault store' hcalls hnext hactive hledger =>
      -- what was kept until now is left behind
      have hcall' := getElem?_of_set_calls hcall hcalls
      have hbusy' : r.Busy f := hbusy.set hcall hcalls trivial
      have hnone : r.active = none :=
        hactive.elim id fun ⟨hne, hactive⟩ => hactive.trans (hsole.resolve_left hne)
      have hcut : p.CutShort (moves ++ more) f := by
        have hstep : q.step? (.caller f) = some r := (step?_of_finish hcall).trans hfinish
        exact ⟨moves, [], q, hmore ▸ rfl, hrun, cutsShort_of_returned hcall hnext hstep hcall'⟩
      refine ⟨⟨f, hbusy'⟩, fun active hr => absurd hr (hbusy'.not_keeps hcall' hnone rfl active),
        fun hash => hknown hledger hcalls fun active hq hmem => ?_⟩
      obtain ⟨c, s, rules, b, hc, hhashes, hcurrent⟩ := h.current active hq
      exact .left c s rules b (htasks ▸ hc) (hhashes ▸ hmem)
        (hcurrent.leaves hbusy hcall rfl hcalls hcut)
  | leaves active fault store' hcalls _ hblock hactive hledger =>
      have hcall' := getElem?_of_set_calls hcall hcalls
      have hbusy' : r.Busy f := hbusy.set hcall hcalls trivial
      have hnone : q.active = none := hsole.resolve_left (by rintro rfl; cases hblock)
      refine ⟨⟨f, hbusy'⟩,
        fun active hr => absurd hr (hbusy'.not_keeps hcall' (hactive.trans hnone) rfl active),
        fun hash hr => ?_⟩
      rw [Knows, hledger, Gas.Ledger.find?_clear] at hr
      split at hr
      · cases hr
      · rename_i hnot
        refine (h.known hash hr).set hgoes hcall hcalls htasks (fun other hq hmem => ?_)
          (by rintro _ _ _ _ ⟨⟩)
        obtain rfl : active = other := by
          rw [hkeptIff, hnone, hblock] at hq
          exact Option.some.inj (hq.resolve_left fun hq => by cases hq)
        exact absurd hmem hnot

end Step

/-- Nothing but the moves of callers matters, and each of them accounts for what it changes. -/
theorem step? {actor : Actor} (hcreate : create config registry = .ok p)
    (hrun : p.run? moves = some q) (h : Attributed p moves q) (hstep : q.step? actor = some r) :
    Attributed p (moves ++ [.act actor]) r := by
  have hgoes := continues_of_step? hstep
  have htasks := tasks_append_act moves actor
  rcases thread_or_callMove hstep with hactor | ⟨c, rfl, hmove⟩
  · have hframes := frames_of_stepThread? hactor hstep
    exact h.congr hgoes htasks hframes.calls hframes.active hframes.ledger
  cases hmove with
  | start store rules block next hcall hstart =>
      obtain ⟨task, htask, hturns⟩ := exists_task hcreate hrun hcall
      cases task <;> cases hturns
      exact h.stepStart? hgoes htasks hcall htask fun hlen => startStep_of_stepStart? hlen hstart
  | finish store block receipts next hcall hfinish =>
      exact h.stepFinish? hgoes htasks rfl hrun hcall hfinish
  | close next hcall hclose => exact h.stepClose? hgoes htasks hcall hclose

theorem deny? {reason : String} (hcreate : create config registry = .ok p)
    (hrun : p.run? moves = some q) (h : Attributed p moves q) (hdeny : q.deny? c reason = some r) :
    Attributed p (moves ++ [.deny c reason]) r := by
  obtain ⟨store, rules, block, hcall, hturn⟩ := startStep_of_deny? hdeny
  obtain ⟨task, htask, hturns⟩ := exists_task hcreate hrun hcall
  cases task <;> cases hturns
  exact h.stepStart? (continues_of_deny? hdeny) (tasks_append_deny moves c reason) hcall htask
    fun _ => hturn

theorem invoke {task : Task F} (h : Attributed p moves q)
    (horderly : q.isOrderly (.call task) = true) :
    Attributed p (moves ++ [.call task]) (q.invoke task) := by
  have htasks {c : Nat} {old : Task F} (hold : (tasks moves)[c]? = some old) :
      (tasks (moves ++ [.call task]))[c]? = some old := getElem?_tasks_append hold _
  have hblock : (Call.ofTask task : Call F).block? = none := by cases task <;> rfl
  have hkeeps {active : ActiveBlock} : (q.invoke task).Keeps active → q.Keeps active := by
    rintro (hactive | ⟨f, call, hcall, hholds⟩)
    · exact .inl hactive
    · rcases getElem?_of_invoke hcall with hcall | ⟨-, rfl⟩
      · exact .inr ⟨f, call, hcall, hholds⟩
      · rw [hblock] at hholds
        cases hholds
  refine ⟨?_, fun active hr => ?_, fun hash hknows => ?_⟩
  · cases task with
    | close => exact h.busy.imp fun c hbusy => hbusy.invoke_close
    | start store rules block =>
        obtain ⟨hquiet, hlen⟩ := Bool.and_eq_true_iff.mp horderly
        exact ⟨_, .invoke hquiet _ ⟨of_decide_eq_true hlen, .inl rfl⟩⟩
    | finish store block receipts => exact ⟨_, .invoke horderly _ (.inl rfl)⟩
  · obtain ⟨c, s, rules, b, hc, hhashes, hcurrent⟩ := h.current active (hkeeps hr)
    have hlt := (List.getElem?_eq_some_iff.mp hcurrent.returned).1
    refine ⟨c, s, rules, b, htasks hc, hhashes,
      ⟨⟨getElem?_append_calls hcurrent.returned rfl, fun d hcd hd => ?_⟩, ?_, ?_⟩⟩
    · rcases getElem?_of_invoke hd with hd | ⟨-, heq⟩
      · exact hcurrent.last d hcd hd
      · cases task <;> cases heq
    · rintro ⟨f, fault, store', hcf, hf⟩
      rcases getElem?_of_invoke hf with hf | ⟨-, heq⟩
      · exact hcurrent.not_over ⟨f, fault, store', hcf, hf⟩
      · cases task <;> cases heq
    · intro f call hcall hunsettled
      rcases getElem?_of_invoke hcall with hcall | ⟨rfl, -⟩
      · exact hcurrent.before f call hcall hunsettled
      · exact hlt
  · cases h.known hash hknows with
    | kept active hq hmem =>
        refine .kept active (hq.imp_right ?_) hmem
        rintro ⟨f, call, hcall, hholds⟩
        exact ⟨f, call, getElem?_append_calls hcall rfl, hholds⟩
    | entered c s rules b next hcall haccepted hmem =>
        exact .entered c s rules b next (getElem?_append_calls hcall rfl) haccepted hmem
    | left c s rules b htask hmem hleaves =>
        exact .left c s rules b (htasks htask) hmem (hleaves.invoke task _)

theorem of_orderlyRun? (hcreate : create config registry = .ok p)
    (hrun : p.orderlyRun? moves = some q) : Attributed p moves q := by
  refine runWhile?_induction (P := fun moves q => Attributed p moves q) hrun
    (of_create hcreate) ?_ ?_ ?_
  · intro moves q task _ h horderly
    exact h.invoke horderly
  · intro moves q actor next hrun h _ hstep
    exact h.step? hcreate (run?_of_runWhile? hrun) hstep
  · intro moves q c reason next hrun h hdeny
    exact h.deny? hcreate (run?_of_runWhile? hrun) hdeny

end Attributed

/-! ## Charges -/

theorem LastStarted.inWork (h : p.LastStarted c) (hover : ¬ p.Over c) : p.InWork c :=
  ⟨⟨_, h.returned, rfl⟩, hover⟩

theorem Attributed.of_charge {total : UInt64} (h : Attributed p moves q) (hquiet : q.isQuiet = true)
    (hcharge : q.charge hash = .ok total) : ∃ c store rules block,
      (tasks moves)[c]? = some (.start store rules block) ∧ hash ∈ block.hashes ∧
        (q.LastStarted c ∧ q.InWork c ∨ Leaves p moves q c) := by
  cases h.known hash (knows_iff.mpr ⟨total, hcharge⟩) with
  | kept active hkeeps hmem =>
      obtain ⟨c, store, rules, block, htask, hhashes, hcurrent⟩ := h.current active hkeeps
      exact ⟨c, store, rules, block, htask, hhashes ▸ hmem,
        .inl ⟨hcurrent.toLastStarted, hcurrent.inWork hcurrent.not_over⟩⟩
  | entered c store rules block next hcall _ _ => cases isSettled_of_isQuiet hquiet hcall
  | left c store rules block htask hmem hleaves =>
      exact ⟨c, store, rules, block, htask, hmem, .inr hleaves⟩

/-- A call that is refused an answer takes its entries out again. -/
theorem knows_of_refused {error : Error} {next : Starting} (hlen : block.length ≤ 2 ^ 32)
    (hcall : q.calls[c]? = some (.start store rules block next))
    (hstep : q.step? (.caller c) = some r)
    (hreturned : r.calls[c]? = some (.returned (.started (.error (.error error)))))
    (hknows : r.Knows hash) : q.Knows hash := by
  rw [step?_of_start hcall] at hstep
  cases startStep_of_stepStart? hlen hstep with
  | goes next' hcalls =>
      rw [getElem?_of_set_calls hcall hcalls] at hreturned
      cases hreturned
  | fails failure hcalls _ _ hscanned =>
      rw [getElem?_of_set_calls hcall hcalls] at hreturned
      cases hreturned
      rcases hscanned hash hknows with hq | ⟨⟨_, hfault⟩, -⟩
      · exact hq
      · cases hfault
  | ends lane hcalls =>
      rw [getElem?_of_set_calls hcall hcalls] at hreturned
      cases hreturned

/-- A fault of `gas` leaves every entry that was made before it, and the one that was reserved for
its own transaction. -/
theorem knows_of_unwound {fault : Fault}
    (hcall : q.calls[c]? = some (.start store rules block .scan))
    (hstep : q.step? (.caller c) = some r)
    (hreturned : r.calls[c]? = some (.returned (.started (.error (.fault fault))))) :
    ∃ before tx after, block.indexed = before ++ tx :: after ∧
      ∀ hash, r.Knows hash ↔ q.Knows hash ∨ hash ∈ (before ++ [tx]).map (·.hash) := by
  rw [step?_of_start hcall] at hstep
  cases startMove_of_stepStart? hstep with
  | scanFault fault' tx ledger log hscan =>
      obtain ⟨before, after, hsplit, hknows⟩ := knows_of_scan hscan
      exact ⟨before, tx, after, hsplit, hknows⟩
  | scanError | scan =>
      rw [getElem?_of_set_calls hcall rfl] at hreturned
      cases hreturned

/-- A call that gives up the block it was to finish leaves the ledger as it is. -/
theorem ledger_of_cutsShort (hcut : q.cutsShort (.caller f) = true)
    (hstep : q.step? (.caller f) = some r) : r.ledger = q.ledger := by
  simp only [cutsShort, hstep, Option.bind_some] at hcut
  split at hcut
  · rename_i store block receipts next fault store' hcall hreturned
    rw [step?_of_finish hcall] at hstep
    cases finishStep_of_stepFinish? hstep with
    | goes _ _ _ _ _ _ hledger => exact hledger
    | takes _ _ _ _ _ _ _ _ hledger => exact hledger
    | misses _ _ _ _ _ hledger => exact hledger
    | cut _ _ _ _ _ hledger => exact hledger
    | leaves _ _ _ _ hnext =>
        rw [hnext] at hcut
        cases hcut
  · cases hcut

/-- Between calls, what can be charged for is a transaction of the block in work, which is the one
that was started last, or it was left by a fault: one that ended the call which was to start its
block, or the call which was to finish it. Such faults leave every entry that there is, and errors
none. -/
theorem charge_attributed (hcreate : create config registry = .ok p)
    (hrun : p.orderlyRun? moves = some q) :
    (q.isQuiet = true → ∀ hash total, q.charge hash = .ok total → ∃ c store rules block,
      (tasks moves)[c]? = some (.start store rules block) ∧ hash ∈ block.hashes ∧
        (q.LastStarted c ∧ q.InWork c ∨ Leaves p moves q c)) ∧
    (∀ (c : Nat) (r : Pipeline F), q.step? (.caller c) = some r →
      (∀ store rules block next error, q.calls[c]? = some (.start store rules block next) →
        r.calls[c]? = some (.returned (.started (.error (.error error)))) →
        ∀ hash, r.Knows hash → q.Knows hash) ∧
      (∀ store rules block fault, q.calls[c]? = some (.start store rules block .scan) →
        r.calls[c]? = some (.returned (.started (.error (.fault fault)))) →
        ∃ before tx after, block.indexed = before ++ tx :: after ∧
          ∀ hash, r.Knows hash ↔ q.Knows hash ∨ hash ∈ (before ++ [tx]).map (·.hash)) ∧
      (q.cutsShort (.caller c) = true → r.ledger = q.ledger)) ∧
    ∀ (c : Nat) (reason : String) (r : Pipeline F), q.deny? c reason = some r →
      ∀ hash, r.Knows hash → q.Knows hash := by
  have h := Attributed.of_orderlyRun? hcreate hrun
  refine ⟨fun hquiet hash total hcharge => h.of_charge hquiet hcharge,
    fun c r hstep => ⟨?_, ?_, ?_⟩, fun c reason r hdeny hash => knows_of_deny? hdeny⟩
  · intro store rules block next error hcall hreturned hash hknows
    obtain ⟨d, hbusy⟩ := h.busy
    obtain rfl := hbusy.eq_of_unsettled hcall rfl
    exact knows_of_refused (hbusy.sole _ hcall).1 hcall hstep hreturned hknows
  · intro store rules block fault hcall hreturned
    exact knows_of_unwound hcall hstep hreturned
  · intro hcut
    exact ledger_of_cutsShort hcut hstep

end Pipeline

/-! ## A run -/

namespace Sample

open Pipeline

/-- An adder that cannot tell what the second transaction of a block costs. -/
def faulty : Handler flow :=
  { adder with
    name := "faulty"
    gas := fun tx _ => if tx.index = 1 then .error (.raised "gas") else .ok (some 7) }

def single : Block := ⟨⟨2, []⟩, [transaction 3]⟩

/-- A fault of `gas` ends the call to start one block, and then another one is started. -/
def restartedAfterFault : List (Move flow) :=
  .call (.start (3 : Nat) .latest pair) ::
    ([.caller 0, .caller 0, .caller 0].map .act ++
      .call (.start (3 : Nat) .latest single) ::
        ([.caller 1, .caller 1, .caller 1, .caller 1, .caller 1, .caller 1, .caller 1, .refresher 0,
          .refresher 1, .refresher 0, .refresher 1, .caller 1, .caller 1, .caller 1, .caller 1,
          .caller 1, .caller 1, .caller 1, .caller 1] : List Actor).map .act)

end Sample

namespace Pipeline

open Sample

/-- What was reserved for a block that was never started can be charged for while another block is
in work. -/
theorem charge_of_unwound : ∃ q,
    (ofConfig oneEach ⟨[faulty]⟩).orderlyRun? restartedAfterFault = some q ∧ q.isQuiet = true ∧
      (tasks restartedAfterFault)[1]? = some (.start (3 : Nat) .latest single) ∧
      q.LastStarted 1 ∧ q.InWork 1 ∧ Word.ofNat 1 ∉ single.hashes ∧
      (q.charge (Word.ofNat 1)).toOption = some 7 := by
  obtain ⟨q, hrun, hquiet, hlength, hwork, hcharge, _, hcall, rfl⟩ : ∃ q,
      (ofConfig oneEach ⟨[faulty]⟩).orderlyRun? restartedAfterFault = some q ∧ q.isQuiet = true ∧
        q.calls.length = 2 ∧ q.InWork 1 ∧ (q.charge (Word.ofNat 1)).toOption = some 7 ∧
        ∃ call, q.calls[1]? = some call ∧ call = .returned (.started (.ok ())) := by
    decide +kernel
  refine ⟨q, hrun, hquiet, rfl, ⟨hcall, fun d hlt hd => ?_⟩, hwork, by decide, hcharge⟩
  have hd' := (List.getElem?_eq_some_iff.mp hd).1
  omega

theorem charge_attributed_unwound : ∃ q,
    (ofConfig oneEach ⟨[faulty]⟩).orderlyRun? restartedAfterFault = some q ∧ q.isQuiet = true ∧
      (q.charge (Word.ofNat 1)).toOption = some 7 ∧
      ∃ c store rules block, (tasks restartedAfterFault)[c]? = some (.start store rules block) ∧
        Word.ofNat 1 ∈ block.hashes ∧ (q.LastStarted c ∧ q.InWork c ∨
          Leaves (ofConfig oneEach ⟨[faulty]⟩) restartedAfterFault q c) := by
  obtain ⟨q, hrun, hquiet, hcharge⟩ : ∃ q,
      (ofConfig oneEach ⟨[faulty]⟩).orderlyRun? restartedAfterFault = some q ∧ q.isQuiet = true ∧
        (q.charge (Word.ofNat 1)).toOption = some 7 := by
    decide +kernel
  have hok : q.charge (Word.ofNat 1) = .ok 7 := by
    cases h : q.charge (Word.ofNat 1) <;> simp_all [Except.toOption]
  exact ⟨q, hrun, hquiet, hcharge,
    (charge_attributed (show create oneEach ⟨[faulty]⟩ = .ok _ from rfl) hrun).1 hquiet _ _ hok⟩

end Pipeline

end TxPipeline
