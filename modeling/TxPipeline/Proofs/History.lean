import TxPipeline.Proofs.Frame
import TxPipeline.Proofs.Run

/-!
# What becomes of calls

A call goes on until it has returned, and nothing but its own thread changes it. So every call of
a run is what its task has turned into, and a call that has returned stays as it is.
-/

namespace TxPipeline

variable {F : Flow}

/-- What a call can turn into. -/
inductive Call.Turns : Call F → Call F → Prop
  | start (store : F.Store) (rules : Rules) (block : Block) (next next' : Starting) :
      Turns (.start store rules block next) (.start store rules block next')
  | started (store : F.Store) (rules : Rules) (block : Block) (next : Starting)
      (outcome : Except Failure Unit) :
      Turns (.start store rules block next) (.returned (.started outcome))
  | finish (store store' : F.Store) (block : Block) (receipts : List Receipt)
      (next next' : Finishing) :
      Turns (.finish store block receipts next) (.finish store' block receipts next')
  | finished (store store' : F.Store) (block : Block) (receipts : List Receipt) (next : Finishing)
      (fault : Option Fault) :
      Turns (.finish store block receipts next) (.returned (.finished fault store'))
  | close (next next' : Closing) : Turns (.close next) (.close next')
  | closed (next : Closing) : Turns (.close next) (.returned .closed)
  | returned (answer : Answer F) : Turns (.returned answer) (.returned answer)

namespace Call

variable {a b c : Call F}

theorem Turns.refl (a : Call F) : a.Turns a := by
  cases a <;> constructor

theorem Turns.trans (hab : a.Turns b) (hbc : b.Turns c) : a.Turns c := by
  cases hab <;> cases hbc <;> constructor

theorem Turns.isSettled (hab : a.Turns b) (ha : a.isSettled = true) : b.isSettled = true := by
  cases hab <;> first | rfl | cases ha

/-- Whether the call closes the pipeline, or has done so. -/
def isClosing : Call F → Bool
  | .close _ => true
  | .returned .closed => true
  | _ => false

theorem isSettled_of_isClosing {call : Call F} (h : call.isClosing = true) :
    call.isSettled = true := by
  cases call with
  | returned answer => rfl
  | close next => rfl
  | start => cases h
  | finish => cases h

theorem Turns.isClosing (h : a.Turns b) (ha : a.isClosing = true) :
    b.isClosing = true := by
  cases h <;> first | rfl | exact ha

end Call

/-- Whether a call to start a block has come so far that the block is not refused any more. -/
def Starting.isAccepted : Starting → Bool
  | .acquire => false
  | .enter => false
  | .scan => false
  | _ => true

/-- Whether a call has brought a block into work. -/
def Call.isAccepted : Call F → Bool
  | .start _ _ _ next => next.isAccepted
  | .returned (.started (.ok ())) => true
  | _ => false

instance Call.decidableEqStarted (call : Call F) (outcome : Except Failure Unit) :
    Decidable (call = .returned (.started outcome)) :=
  match call with
  | .returned (.started other) => decidable_of_iff (other = outcome) (by simp)
  | .returned (.finished _ _) => isFalse (by simp)
  | .returned .closed => isFalse (by simp)
  | .start _ _ _ _ => isFalse (by simp)
  | .finish _ _ _ _ => isFalse (by simp)
  | .close _ => isFalse (by simp)

instance Call.decidableEqClosed (call : Call F) : Decidable (call = .returned .closed) :=
  match call with
  | .returned .closed => isTrue rfl
  | .returned (.started _) => isFalse (by simp)
  | .returned (.finished _ _) => isFalse (by simp)
  | .start _ _ _ _ => isFalse (by simp)
  | .finish _ _ _ _ => isFalse (by simp)
  | .close _ => isFalse (by simp)

/-- Whether a call to finish a block has returned. -/
def Call.hasFinished : Call F → Bool
  | .returned (.finished _ _) => true
  | _ => false

namespace Pipeline

/-- Call `c` has brought a block into work. -/
def Accepted (p : Pipeline F) (c : Nat) : Prop :=
  ∃ call, p.calls[c]? = some call ∧ call.isAccepted = true

/-- A call after `c` has finished a block. -/
def Over (p : Pipeline F) (c : Nat) : Prop :=
  ∃ f fault store, c < f ∧ p.calls[f]? = some (.returned (.finished fault store))

/-- The block that call `c` has started, or is about to start, is in work. -/
def InWork (p : Pipeline F) (c : Nat) : Prop := p.Accepted c ∧ ¬ p.Over c

instance (p : Pipeline F) (c : Nat) : Decidable (p.Accepted c) :=
  decidable_of_iff ((p.calls[c]?).any Call.isAccepted = true) (Option.any_eq_true _ _)

theorem over_iff {p : Pipeline F} {c : Nat} :
    (p.calls.drop (c + 1)).any Call.hasFinished = true ↔ p.Over c := by
  rw [List.any_eq_true]
  constructor
  · rintro ⟨call, hmem, hfinished⟩
    obtain ⟨i, hi⟩ := List.mem_iff_getElem?.mp hmem
    rw [List.getElem?_drop] at hi
    cases call with
    | returned answer =>
        cases answer with
        | finished fault store => exact ⟨c + 1 + i, fault, store, by omega, hi⟩
        | started outcome => cases hfinished
        | closed => cases hfinished
    | start => cases hfinished
    | finish => cases hfinished
    | close => cases hfinished
  · rintro ⟨f, fault, store, hlt, hf⟩
    have hmem : .returned (.finished fault store) ∈ p.calls.drop (c + 1) := by
      refine List.mem_iff_getElem?.mpr ⟨f - (c + 1), ?_⟩
      rwa [List.getElem?_drop, Nat.add_sub_cancel' hlt]
    exact ⟨_, hmem, rfl⟩

instance (p : Pipeline F) (c : Nat) : Decidable (p.Over c) := decidable_of_iff _ over_iff

instance (p : Pipeline F) (c : Nat) : Decidable (p.InWork c) :=
  inferInstanceAs (Decidable (_ ∧ _))

/-- The call that is made, if one is made. -/
def Move.task? : Move F → Option (Task F)
  | .call task => some task
  | .act _ => none
  | .deny _ _ => none

/-- The calls that are made in a run, in order. -/
def tasks (moves : List (Move F)) : List (Task F) := moves.filterMap Move.task?

theorem tasks_append (moves more : List (Move F)) :
    tasks (moves ++ more) = tasks moves ++ tasks more :=
  List.filterMap_append

theorem tasks_append_of_task? {move : Move F} (moves : List (Move F)) (h : move.task? = none) :
    tasks (moves ++ [move]) = tasks moves := by
  simp [tasks, h]

theorem tasks_append_act (moves : List (Move F)) (actor : Actor) :
    tasks (moves ++ [.act actor]) = tasks moves := tasks_append_of_task? moves rfl

theorem tasks_append_deny (moves : List (Move F)) (c : Nat) (reason : String) :
    tasks (moves ++ [.deny c reason]) = tasks moves := tasks_append_of_task? moves rfl

/-- In this run call `c` was denied a thread, and `failure` says why. -/
def Denied (moves : List (Move F)) (c : Nat) (failure : Failure) : Prop :=
  ∃ reason, failure = .error (.spawn reason) ∧ .deny c reason ∈ moves

theorem Denied.of_append {moves : List (Move F)} {c : Nat} {failure : Failure} {move : Move F}
    (h : Denied (moves ++ [move]) c failure) (hmove : ∀ reason, move ≠ .deny c reason) :
    Denied moves c failure := by
  obtain ⟨reason, heq, hmem⟩ := h
  rcases List.mem_append.mp hmem with hmem | hmem
  · exact ⟨reason, heq, hmem⟩
  · exact absurd (List.mem_singleton.mp hmem).symm (hmove reason)

theorem Denied.append {moves : List (Move F)} {c : Nat} {failure : Failure}
    (h : Denied moves c failure) (more : List (Move F)) : Denied (moves ++ more) c failure := by
  obtain ⟨reason, heq, hmem⟩ := h
  exact ⟨reason, heq, List.mem_append_left more hmem⟩

theorem getElem?_tasks_append {moves : List (Move F)} {i : Nat} {task : Task F}
    (h : (tasks moves)[i]? = some task) (more : List (Move F)) :
    (tasks (moves ++ more))[i]? = some task := by
  rw [tasks_append, List.getElem?_append_left (List.getElem?_eq_some_iff.mp h).1, h]

variable {p q : Pipeline F} {c w h : Nat} {call : Call F}

/-! ## One move -/

theorem turns_of_stepStart? {store : F.Store} {rules : Rules} {block : Block} {next : Starting}
    (hstep : p.stepStart? c store rules block next = some q) :
    ∃ call : Call F, (Call.start store rules block next).Turns call ∧
      q.calls = p.calls.set c call ∧
      (call.isAccepted = true → next.isAccepted = true ∨ next = .scan) := by
  cases startMove_of_stepStart? hstep with
  | refuse | acquire | enter | closed => exact ⟨_, by constructor, rfl, fun h => by cases h⟩
  | scanFault | scanError | scan => exact ⟨_, by constructor, rfl, fun _ => .inr rfl⟩
  | _ => exact ⟨_, by constructor, rfl, fun _ => .inl rfl⟩

theorem turns_of_stepFinish? {store : F.Store} {block : Block} {receipts : List Receipt}
    {next : Finishing} (hstep : p.stepFinish? c store block receipts next = some q) :
    ∃ call : Call F, (Call.finish store block receipts next).Turns call ∧
      q.calls = p.calls.set c call := by
  cases finishMove_of_stepFinish? hstep <;> exact ⟨_, by constructor, rfl⟩

theorem turns_of_stepClose? {next : Closing} (hstep : p.stepClose? c next = some q) :
    ∃ call : Call F, (Call.close next).Turns call ∧ q.calls = p.calls.set c call := by
  cases closeMove_of_stepClose? hstep <;> exact ⟨_, by constructor, rfl⟩

/-- Nothing but its own thread changes a call, and only a scan brings a block into work. -/
theorem turns_of_step? {actor : Actor} (hstep : p.step? actor = some q) :
    q.calls = p.calls ∨ ∃ c call next, actor = .caller c ∧ p.calls[c]? = some call ∧
      call.Turns next ∧ q.calls = p.calls.set c next ∧ (next.isAccepted = true →
        call.isAccepted = true ∨ ∃ store rules block, call = .start store rules block .scan) := by
  rcases thread_or_callMove hstep with hactor | ⟨c, rfl, hmove⟩
  · exact .inl (frames_of_stepThread? hactor hstep).calls
  right
  cases hmove with
  | start store rules block next hcall hstart =>
      obtain ⟨turned, hturns, hcalls, haccepted⟩ := turns_of_stepStart? hstart
      refine ⟨c, _, turned, rfl, hcall, hturns, hcalls, ?_⟩
      intro h
      exact (haccepted h).imp_right fun hnext => ⟨store, rules, block, by rw [hnext]⟩
  | finish store block receipts next hcall hfinish =>
      obtain ⟨turned, hturns, hcalls⟩ := turns_of_stepFinish? hfinish
      exact ⟨c, _, turned, rfl, hcall, hturns, hcalls, fun h => by cases hturns <;> cases h⟩
  | close next hcall hclose =>
      obtain ⟨turned, hturns, hcalls⟩ := turns_of_stepClose? hclose
      exact ⟨c, _, turned, rfl, hcall, hturns, hcalls, fun h => by cases hturns <;> cases h⟩

theorem length_calls_of_step? {actor : Actor} (hstep : p.step? actor = some q) :
    q.calls.length = p.calls.length := by
  rcases turns_of_step? hstep with hcalls | ⟨c, call, next, -, -, -, hcalls, -⟩
  · rw [hcalls]
  · rw [hcalls, List.length_set]

theorem getElem?_calls_of_step? {actor : Actor} {i : Nat} (hstep : p.step? actor = some q)
    (hactor : actor ≠ .caller i) : q.calls[i]? = p.calls[i]? := by
  rcases turns_of_step? hstep with hcalls | ⟨c, old, next, rfl, -, -, hcalls, -⟩
  · rw [hcalls]
  · have hne : c ≠ i := fun heq => hactor (heq ▸ rfl)
    rw [hcalls, List.getElem?_set_ne hne]

theorem exists_turns_of_step? {actor : Actor} {i : Nat} (hstep : p.step? actor = some q)
    (hcall : p.calls[i]? = some call) : ∃ next, q.calls[i]? = some next ∧ call.Turns next := by
  rcases turns_of_step? hstep with hcalls | ⟨c, old, next, -, hold, hturns, hcalls, -⟩
  · exact ⟨call, by rw [hcalls, hcall], .refl call⟩
  · rw [hcalls, List.getElem?_set]
    split
    · rename_i heq
      subst heq
      obtain rfl : old = call := by simpa [hold] using hcall
      rw [if_pos (List.getElem?_eq_some_iff.mp hold).1]
      exact ⟨next, rfl, hturns⟩
    · exact ⟨call, hcall, .refl call⟩

/-- A denial ends one call, which has not brought its block into work, and touches no other. -/
theorem turns_of_deny? {reason : String} (hdeny : p.deny? c reason = some q) :
    ∃ store rules block, p.calls[c]? = some (.start store rules block .scan) ∧
      q.calls = p.calls.set c (.returned (.started (.error (.error (.spawn reason))))) := by
  cases denyMove_of_deny? hdeny with
  | deny store rules block decisions ledger log hcall hscan =>
      exact ⟨store, rules, block, hcall, rfl⟩

/-- Nobody else is denied a thread than a call at its scan. -/
theorem deny?_eq_none (hnot : ∀ store rules block,
      p.calls[c]? ≠ some (.start store rules block .scan)) (reason : String) :
    p.deny? c reason = none := by
  cases hdeny : p.deny? c reason with
  | none => rfl
  | some q =>
      obtain ⟨store, rules, block, hcall, -⟩ := turns_of_deny? hdeny
      exact absurd hcall (hnot store rules block)

theorem getElem?_calls_of_deny? {reason : String} {i : Nat} (hdeny : p.deny? c reason = some q)
    (hne : i ≠ c) : q.calls[i]? = p.calls[i]? := by
  obtain ⟨-, -, -, -, hcalls⟩ := turns_of_deny? hdeny
  rw [hcalls, List.getElem?_set_ne (Ne.symm hne)]

theorem getElem?_of_deny? {reason : String} (hdeny : p.deny? c reason = some q) :
    q.calls[c]? = some (.returned (.started (.error (.error (.spawn reason))))) := by
  obtain ⟨store, rules, block, hscan, hcalls⟩ := turns_of_deny? hdeny
  exact hcalls ▸ List.getElem?_set_self (List.getElem?_eq_some_iff.mp hscan).1

theorem exists_turns_of_deny? {reason : String} {i : Nat} (hdeny : p.deny? c reason = some q)
    (hcall : p.calls[i]? = some call) : ∃ next, q.calls[i]? = some next ∧ call.Turns next := by
  obtain ⟨store, rules, block, hscan, hcalls⟩ := turns_of_deny? hdeny
  by_cases hi : i = c
  · subst hi
    rw [hscan] at hcall
    cases hcall
    exact ⟨_, getElem?_of_deny? hdeny, .started store rules block .scan _⟩
  · exact ⟨call, (getElem?_calls_of_deny? hdeny hi).trans hcall, .refl call⟩

/-- No call is made, and those that there are go on. -/
structure Continues (p q : Pipeline F) : Prop where
  length_eq : q.calls.length = p.calls.length
  turns : ∀ (i : Nat) (call : Call F), p.calls[i]? = some call →
    ∃ next, q.calls[i]? = some next ∧ call.Turns next

theorem continues_of_step? {actor : Actor} (hstep : p.step? actor = some q) : p.Continues q :=
  ⟨length_calls_of_step? hstep, fun _ _ => exists_turns_of_step? hstep⟩

theorem continues_of_deny? {reason : String} (hdeny : p.deny? c reason = some q) :
    p.Continues q := by
  refine ⟨?_, fun _ _ => exists_turns_of_deny? hdeny⟩
  obtain ⟨-, -, -, -, hcalls⟩ := turns_of_deny? hdeny
  rw [hcalls, List.length_set]

/-- Each call was there before. -/
theorem Continues.exists_turned {i : Nat} (h : p.Continues q) (hcall : q.calls[i]? = some call) :
    ∃ old, p.calls[i]? = some old ∧ old.Turns call := by
  have hi : i < p.calls.length := by
    rw [← h.length_eq]
    exact (List.getElem?_eq_some_iff.mp hcall).1
  have hget := List.getElem?_eq_getElem hi
  obtain ⟨turned, hturned, hturns⟩ := h.turns i _ hget
  obtain rfl : turned = call := by simpa [hturned] using hcall
  exact ⟨_, hget, hturns⟩

theorem Continues.isSettled {i : Nat} (h : p.Continues q) (hcall : q.calls[i]? = some call)
    (hold : ∀ old, p.calls[i]? = some old → old.isSettled = true) : call.isSettled = true := by
  obtain ⟨old, hget, hturns⟩ := h.exists_turned hcall
  exact hturns.isSettled (hold old hget)

theorem Continues.over (h : p.Continues q) (hover : p.Over c) : q.Over c := by
  obtain ⟨f, fault, store, hlt, hf⟩ := hover
  obtain ⟨next, hnext, hturns⟩ := h.turns f _ hf
  cases hturns
  exact ⟨f, fault, store, hlt, hnext⟩

theorem exists_turned_of_step? {actor : Actor} {i : Nat} (hstep : p.step? actor = some q)
    (hcall : q.calls[i]? = some call) : ∃ old, p.calls[i]? = some old ∧ old.Turns call :=
  (continues_of_step? hstep).exists_turned hcall

theorem isSettled_of_step? {actor : Actor} {i : Nat} (hstep : p.step? actor = some q)
    (hcall : q.calls[i]? = some call)
    (hold : ∀ old, p.calls[i]? = some old → old.isSettled = true) : call.isSettled = true :=
  (continues_of_step? hstep).isSettled hcall hold

/-- A call that has brought a block into work did so before, or was at its scan. -/
theorem accepted_of_step? {actor : Actor} {i : Nat} (hstep : p.step? actor = some q)
    (haccepted : q.Accepted i) : p.Accepted i ∨ actor = .caller i ∧
      ∃ store rules block, p.calls[i]? = some (.start store rules block .scan) := by
  obtain ⟨new, hnew, haccepted⟩ := haccepted
  rcases turns_of_step? hstep with hcalls | ⟨c, old, next, rfl, hold, -, hcalls, hscan⟩
  · exact .inl ⟨new, hcalls ▸ hnew, haccepted⟩
  by_cases hi : i = c
  · obtain rfl := hi
    obtain rfl : next = new := by
      rw [hcalls, List.getElem?_set_self (List.getElem?_eq_some_iff.mp hold).1] at hnew
      exact Option.some.inj hnew
    rcases hscan haccepted with h | ⟨store, rules, block, rfl⟩
    · exact .inl ⟨old, hold, h⟩
    · exact .inr ⟨rfl, store, rules, block, hold⟩
  · rw [hcalls, List.getElem?_set_ne (Ne.symm hi)] at hnew
    exact .inl ⟨new, hnew, haccepted⟩

theorem accepted_of_deny? {reason : String} {i : Nat} (hdeny : p.deny? c reason = some q)
    (haccepted : q.Accepted i) : p.Accepted i := by
  obtain ⟨call, hcall, haccepted⟩ := haccepted
  obtain ⟨store, rules, block, hscan, hcalls⟩ := turns_of_deny? hdeny
  by_cases hi : i = c
  · subst hi
    rw [hcalls, List.getElem?_set_self (List.getElem?_eq_some_iff.mp hscan).1] at hcall
    cases hcall
    cases haccepted
  · exact ⟨call, (getElem?_calls_of_deny? hdeny hi).symm.trans hcall, haccepted⟩

theorem Over.step? {actor : Actor} (hover : p.Over c) (hstep : p.step? actor = some q) :
    q.Over c := (continues_of_step? hstep).over hover

theorem Over.invoke (hover : p.Over c) (task : Task F) : (p.invoke task).Over c := by
  obtain ⟨f, fault, store, hlt, hf⟩ := hover
  refine ⟨f, fault, store, hlt, ?_⟩
  rw [getElem?_invoke_of_lt (List.getElem?_eq_some_iff.mp hf).1, hf]

theorem over_of_invoke {task : Task F} (hover : (p.invoke task).Over c) : p.Over c := by
  obtain ⟨f, fault, store, hlt, hf⟩ := hover
  rcases getElem?_of_invoke hf with hf | ⟨-, heq⟩
  · exact ⟨f, fault, store, hlt, hf⟩
  · cases task <;> cases heq

theorem accepted_of_invoke {task : Task F} (haccepted : (p.invoke task).Accepted c) :
    p.Accepted c := by
  obtain ⟨call, hcall, haccepted⟩ := haccepted
  rcases getElem?_of_invoke hcall with hcall | ⟨-, rfl⟩
  · exact ⟨call, hcall, haccepted⟩
  · cases task <;> cases haccepted

/-! ## Runs -/

theorem continues_of_move? {move : Move F} (htask : move.task? = none)
    (hmove : p.move? move = some q) : p.Continues q := by
  cases move with
  | call task => cases htask
  | act actor => exact continues_of_step? hmove
  | deny c reason => exact continues_of_deny? hmove

theorem exists_turns_of_run? {moves : List (Move F)} {i : Nat} (hrun : p.run? moves = some q)
    (hcall : (p.calls ++ (tasks moves).map Call.ofTask)[i]? = some call) :
    ∃ next, q.calls[i]? = some next ∧ call.Turns next := by
  induction moves generalizing p call with
  | nil =>
      cases hrun
      exact ⟨call, by simpa [tasks] using hcall, .refl call⟩
  | cons move rest ih =>
      rw [run?] at hrun
      obtain ⟨next, hmove, hrest⟩ := Option.bind_eq_some_iff.mp hrun
      cases move with
      | call task =>
          cases hmove
          exact ih hrest (by simpa [invoke, tasks, Move.task?] using hcall)
      | act | deny =>
          have hgoes := continues_of_move? rfl hmove
          change (p.calls ++ (tasks rest).map Call.ofTask)[i]? = some call at hcall
          rw [List.getElem?_append] at hcall
          split at hcall
          · obtain ⟨turned, hturned, hturns⟩ := hgoes.turns i call hcall
            have hfirst : (next.calls ++ (tasks rest).map Call.ofTask)[i]? = some turned := by
              rw [List.getElem?_append_left (List.getElem?_eq_some_iff.mp hturned).1, hturned]
            obtain ⟨last, hlast, hturns'⟩ := ih hrest hfirst
            exact ⟨last, hlast, hturns.trans hturns'⟩
          · rename_i hge
            apply ih hrest
            rw [List.getElem?_append_right (by rw [hgoes.length_eq]; omega), hgoes.length_eq]
            exact hcall

theorem length_calls_of_run? {moves : List (Move F)} (hrun : p.run? moves = some q) :
    q.calls.length = p.calls.length + (tasks moves).length := by
  induction moves generalizing p with
  | nil =>
      cases hrun
      rfl
  | cons move rest ih =>
      rw [run?] at hrun
      obtain ⟨next, hmove, hrest⟩ := Option.bind_eq_some_iff.mp hrun
      rw [ih hrest]
      cases move with
      | call task =>
          cases hmove
          simp [invoke, tasks, Move.task?]
          omega
      | act | deny =>
          rw [(continues_of_move? rfl hmove).length_eq]
          rfl

end Pipeline

end TxPipeline
