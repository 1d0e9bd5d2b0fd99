import Mathlib.Algebra.Ring.Nat
import Mathlib.Data.List.Induction
import TxPipeline.Pipeline.Step

/-!
# Clean runs and steady runs

A run is clean if the calls that start and finish blocks come one after the other, each block is
finished under its own number, and no handler stage but `prefetch` and `process` raises a fault.
Closing is no part of this order: it can be asked for at any time. Positions of transactions have
32 bits, which bounds the length of a block.

In a steady run every stage may raise faults, but no block is left before it is reset.
-/

namespace TxPipeline

variable {F : Flow}

/-- Whether the call neither starts nor finishes a block any more. -/
def Call.isSettled : Call F → Bool
  | .close _ => true
  | .returned _ => true
  | _ => false

/-- Whether a call to finish a block has nothing left to do but to clear the ledger. -/
def Finishing.isLeaving : Finishing → Bool
  | .leaving _ _ => true
  | _ => false

/-- Whether the preparation of a lane is about to raise a fault. -/
def Station.prepareRaises (s : Station F) (lane : Nat) : Bool :=
  match s.preparation? lane with
  | some (.ready store rules block) =>
      match s.handler.beforeBlock store rules block with
      | .error _ => true
      | .ok _ => false
  | _ => false

/-- Whether the aggregation of a lane is about to end with a fault. -/
def Station.aggregateRaises (s : Station F) (lane : Nat) : Bool :=
  match s.aggregation? lane with
  | some (.joining (.error _)) => true
  | _ => false

namespace Pipeline

/-- Whether no call is starting or finishing a block. -/
def isQuiet (p : Pipeline F) : Bool := p.calls.all Call.isSettled

/-- Whether `gas` of a handler is about to raise a fault in a call, or `afterBlock`. -/
def callRaises (p : Pipeline F) (c : Nat) : Bool :=
  match p.calls[c]? with
  | some (.start _ rules block .scan) =>
      match p.scan rules block.indexed with
      | (.error (.fault _, _), _) => true
      | _ => false
  | some (.finish store block receipts (.conclude _ h)) =>
      match (p.stations[h]?).bind fun s => s.takeAggregate?.map fun a => (s.handler, a.1) with
      | some (handler, aggregate) => (handler.afterBlock store aggregate block receipts).2.isSome
      | none => false
  | _ => false

/-- Whether the next move of an actor makes a handler stage other than `prefetch` and `process`
raise a fault. -/
def raises (p : Pipeline F) : Actor → Bool
  | .caller c => p.callRaises c
  | .preparation h lane => (p.stations[h]?).any fun s => s.prepareRaises lane
  | .aggregation h lane => (p.stations[h]?).any fun s => s.aggregateRaises lane
  | _ => false

/-- Whether a call can be made in a clean run. -/
def admits (p : Pipeline F) : Task F → Bool
  | .start _ _ block => p.isQuiet && decide (block.length ≤ 2 ^ 32)
  | .finish _ block _ => p.isQuiet && p.active.all fun active => active.number == block.number
  | .close => true

/-- Whether something can happen in a clean run. -/
def isClean (p : Pipeline F) : Move F → Bool
  | .call task => p.admits task
  | .act actor => !p.raises actor
  | .deny _ _ => true

/-- The pipeline after a run, if all of it can happen and it is clean. -/
def cleanRun? (p : Pipeline F) : List (Move F) → Option (Pipeline F)
  | [] => some p
  | move :: rest => if p.isClean move then (p.move? move).bind fun p => p.cleanRun? rest else none

/-- The pipeline after a run, if all of it can happen and `ok` allows each move. -/
def runWhile? (ok : Pipeline F → Move F → Bool) (p : Pipeline F) :
    List (Move F) → Option (Pipeline F)
  | [] => some p
  | move :: rest =>
      if ok p move then (p.move? move).bind fun p => p.runWhile? ok rest else none

/-- Whether the next move of an actor ends a call to finish a block with a fault before the block is
reset. -/
def cutsShort (p : Pipeline F) (actor : Actor) : Bool :=
  match actor with
  | .caller c =>
      match p.calls[c]?, (p.step? actor).bind fun q => q.calls[c]? with
      | some (.finish _ _ _ next), some (.returned (.finished (some _) _)) => !next.isLeaving
      | _, _ => false
  | _ => false

/-- Whether something can happen in a steady run: the calls come one after the other, and none that
finishes a block is cut short. Any stage may raise a fault as long as it does not do that. -/
def isSteady (p : Pipeline F) : Move F → Bool
  | .call task => p.admits task
  | .act actor => !p.cutsShort actor
  | .deny _ _ => true

/-- The pipeline after a run, if all of it can happen and it is steady. -/
def steadyRun? (p : Pipeline F) (moves : List (Move F)) : Option (Pipeline F) :=
  p.runWhile? isSteady moves

section RunWhile

variable {ok : Pipeline F → Move F → Bool} {p q : Pipeline F} {moves : List (Move F)}

theorem runWhile?_append (p : Pipeline F) (first rest : List (Move F)) :
    p.runWhile? ok (first ++ rest) = (p.runWhile? ok first).bind fun q => q.runWhile? ok rest := by
  induction first generalizing p with
  | nil => rfl
  | cons move first ih =>
      simp only [List.cons_append, runWhile?]
      split
      · cases p.move? move with
        | none => rfl
        | some q => exact ih q
      · rfl

theorem runWhile?_induction {P : List (Move F) → Pipeline F → Prop}
    (hrun : p.runWhile? ok moves = some q) (hnil : P [] p)
    (hcall : ∀ moves q task, p.runWhile? ok moves = some q → P moves q →
      ok q (.call task) = true → P (moves ++ [.call task]) (q.invoke task))
    (hact : ∀ moves q actor next, p.runWhile? ok moves = some q → P moves q →
      ok q (.act actor) = true → q.step? actor = some next → P (moves ++ [.act actor]) next)
    (hdeny : ∀ moves q c reason next, p.runWhile? ok moves = some q → P moves q →
      q.deny? c reason = some next → P (moves ++ [.deny c reason]) next) :
    P moves q := by
  -- the last move is taken off, so that what holds before it is at hand
  induction moves using List.reverseRecOn generalizing q with
  | nil =>
      cases hrun
      exact hnil
  | append_singleton moves move ih =>
      rw [runWhile?_append] at hrun
      obtain ⟨r, hr, hmove⟩ := Option.bind_eq_some_iff.mp hrun
      rw [runWhile?] at hmove
      split at hmove
      · rename_i hok
        obtain ⟨next, hnext, hend⟩ := Option.bind_eq_some_iff.mp hmove
        cases hend
        cases move with
        | call task =>
            cases hnext
            exact hcall moves r task hr (ih hr) hok
        | act actor => exact hact moves r actor q hr (ih hr) hok hnext
        | deny c reason => exact hdeny moves r c reason q hr (ih hr) hnext
      · cases hmove

theorem run?_of_runWhile? (hrun : p.runWhile? ok moves = some q) : p.run? moves = some q := by
  induction moves generalizing p with
  | nil => exact hrun
  | cons move rest ih =>
      rw [runWhile?] at hrun
      split at hrun
      · obtain ⟨next, hmove, hrest⟩ := Option.bind_eq_some_iff.mp hrun
        rw [run?, hmove]
        exact ih hrest
      · cases hrun

end RunWhile

theorem cleanRun?_eq (p : Pipeline F) (moves : List (Move F)) :
    p.cleanRun? moves = p.runWhile? isClean moves := by
  induction moves generalizing p with
  | nil => rfl
  | cons move rest ih => simp only [cleanRun?, runWhile?, ih]

theorem cleanRun?_append (p : Pipeline F) (first rest : List (Move F)) :
    p.cleanRun? (first ++ rest) = (p.cleanRun? first).bind fun q => q.cleanRun? rest := by
  simp only [cleanRun?_eq, runWhile?_append]

theorem cleanRun?_induction {p q : Pipeline F} {moves : List (Move F)}
    {P : List (Move F) → Pipeline F → Prop} (hrun : p.cleanRun? moves = some q) (hnil : P [] p)
    (hcall : ∀ moves q task, p.cleanRun? moves = some q → P moves q → q.admits task = true →
      P (moves ++ [.call task]) (q.invoke task))
    (hact : ∀ moves q actor next, p.cleanRun? moves = some q → P moves q →
      q.raises actor = false → q.step? actor = some next → P (moves ++ [.act actor]) next)
    (hdeny : ∀ moves q c reason next, p.cleanRun? moves = some q → P moves q →
      q.deny? c reason = some next → P (moves ++ [.deny c reason]) next) :
    P moves q := by
  simp only [cleanRun?_eq] at hrun hcall hact hdeny
  exact runWhile?_induction hrun hnil hcall (fun moves q actor next hr hq hok =>
    hact moves q actor next hr hq (by simpa [isClean] using hok)) hdeny

theorem run?_of_cleanRun? {p q : Pipeline F} {moves : List (Move F)}
    (hrun : p.cleanRun? moves = some q) : p.run? moves = some q :=
  run?_of_runWhile? (cleanRun?_eq p moves ▸ hrun)

/-! ## Runs that are made -/

/-- Whether a run can happen and comes to a state of some kind is found out by making it. -/
instance decidableExistsSome {α : Type} (o : Option α) (P : α → Prop) [DecidablePred P] :
    Decidable (∃ a, o = some a ∧ P a) := inferInstanceAs (Decidable (∃ a ∈ o, P a))

/-- The same for what can be read of a result. -/
instance decidableExistsOkSome {ε α : Type} (e : Except ε (Option α)) (P : α → Prop)
    [DecidablePred P] : Decidable (∃ a, e = .ok (some a) ∧ P a) :=
  match e with
  | .ok o => decidable_of_iff (∃ a, o = some a ∧ P a) (by simp)
  | .error _ => isFalse (by simp)

/-- What calls, moves and denials keep, a run keeps. -/
theorem run?_induction {p q : Pipeline F} {moves : List (Move F)} {P : Pipeline F → Prop}
    (hrun : p.run? moves = some q) (hp : P p) (hcall : ∀ p task, P p → P (p.invoke task))
    (hact : ∀ p actor q, P p → p.step? actor = some q → P q)
    (hdeny : ∀ p c reason q, P p → p.deny? c reason = some q → P q) : P q := by
  induction moves generalizing p with
  | nil =>
      cases hrun
      exact hp
  | cons move rest ih =>
      obtain ⟨next, hmove, hrest⟩ := Option.bind_eq_some_iff.mp hrun
      cases move with
      | call task =>
          cases hmove
          exact ih hrest (hcall p task hp)
      | act actor => exact ih hrest (hact p actor next hp hmove)
      | deny c reason => exact ih hrest (hdeny p c reason next hp hmove)

/-! ## New calls -/

section Invoke

variable {p : Pipeline F} {c : Nat} {task : Task F} {call : Call F}

theorem calls_invoke (p : Pipeline F) (task : Task F) :
    (p.invoke task).calls = p.calls ++ [.ofTask task] := rfl

theorem getElem?_invoke_of_lt (hlt : c < p.calls.length) (task : Task F) :
    (p.invoke task).calls[c]? = p.calls[c]? := List.getElem?_append_left hlt

/-- A call is the new one, or it was there before. -/
theorem getElem?_of_invoke (hcall : (p.invoke task).calls[c]? = some call) :
    p.calls[c]? = some call ∨ c = p.calls.length ∧ call = .ofTask task := by
  rw [calls_invoke, List.getElem?_append] at hcall
  split at hcall
  · exact .inl hcall
  · have hlt := (List.getElem?_eq_some_iff.mp hcall).1
    simp only [List.length_singleton] at hlt
    exact .inr ⟨by omega, List.mem_singleton.mp (List.mem_of_getElem? hcall)⟩

end Invoke

/-! ## Moves that go on -/

/-- The next move of an actor raises no fault that a calm run rules out, and it cuts no call
short unless the run is calm anyway. -/
structure Proceeds (calm : Prop) (p : Pipeline F) (actor : Actor) : Prop where
  raises : calm → p.raises actor = false
  cutsShort : calm ∨ p.cutsShort actor = false

theorem Proceeds.of_clean {p : Pipeline F} {actor : Actor} (h : p.raises actor = false) :
    p.Proceeds True actor := ⟨fun _ => h, .inl trivial⟩

theorem Proceeds.of_steady {p : Pipeline F} {actor : Actor}
    (h : p.isSteady (.act actor) = true) : p.Proceeds False actor :=
  ⟨fun hcalm => hcalm.elim, .inr (by simpa [isSteady] using h)⟩

theorem cutsShort_of_returned {p q : Pipeline F} {c : Nat} {store store' : F.Store} {block : Block}
    {receipts : List Receipt} {next : Finishing} {fault : Fault}
    (hcall : p.calls[c]? = some (.finish store block receipts next))
    (hnext : next.isLeaving = false) (hstep : p.step? (.caller c) = some q)
    (hreturned : q.calls[c]? = some (.returned (.finished (some fault) store'))) :
    p.cutsShort (.caller c) = true := by
  simp [cutsShort, hcall, hstep, hreturned, hnext]

end Pipeline

end TxPipeline
