import TxPipeline.Proofs.Admission.Progress
import TxPipeline.Proofs.Course
import TxPipeline.Proofs.Erasure.Run
import TxPipeline.Proofs.Streams

/-!
# A refusal leaves nothing behind

A call to start a block that is refused answers why, and has touched nothing but the ledger. So has
one that is denied a thread. A run without the calls that are refused comes to the same.
-/

namespace TxPipeline

namespace Pipeline

variable {F : Flow} {config : Config} {registry : Registry F} {handlers : List (Handler F)}
  {revived : Bool} {dropped : Nat → Bool} {p p' q r : Pipeline F} {c : Nat}
  {moves : List (Move F)} {work : Work F} {next : Starting} {call : Call F} {failure : Failure}

/-! ## One move of a call that is refused -/

theorem Begins.length_le {origin : Pipeline F} {more : List (Move F)}
    (hp : Begins handlers work origin c more p)
    (hcall : p.calls[c]? = some (.start work.store work.rules work.block next)) :
    work.block.length ≤ 2 ^ 32 := by
  have hwaits {active : Option ActiveBlock} (hp : p.Waits active) : work.block.length ≤ 2 ^ 32 := by
    cases hp.of_call hcall with
    | settled h => cases h
    | start _ _ _ hlen => exact hlen
  cases hp with
  | blocked past other hp hactive hcall' => exact hwaits hp.calls
  | entering past next' hp hactive hopen hcall' hallowed =>
      rcases hp.calls with hp | ⟨d, other, next'', henters⟩
      · exact hwaits hp
      · obtain rfl := henters.minds.eq hcall rfl
        have hsame := (Call.start.inj (Option.some.inj (hcall.symm.trans henters.call))).2.2.1
        exact hsame ▸ henters.length_le
  | starting past next' hp hactive hopen hallowed => exact hp.length_le
  | returned outcome hcall' hanswers =>
      rw [hcall] at hcall'
      cases hcall'

/-- While no call is at work, the active block is the one that was started and not finished. -/
theorem active_of_quiet {ts : List (Task F)} (hq : Chronicle True handlers ts q)
    (hquiet : q.isQuiet = true) :
    ((∀ c, ¬ q.InWork c) ∧ q.active = none) ∨ ∃ (c : Nat) (work : Work F),
      ts[c]? = some work.task ∧ q.InWork c ∧ q.active = some (work.active q.lastLane) := by
  cases hq with
  | between past hq hover =>
      refine .inl ⟨fun c hwork => hwork.2 (hover c hwork.1), ?_⟩
      rcases hq.calls with hwaits | ⟨d, other, next, henters⟩
      · exact hwaits.active_eq
      · exact henters.active_eq
  | starting past work c next hq _ _ => exact absurd hquiet hq.not_quiet
  | started past work phase c hq hphase htask hstarted hover hnot =>
      obtain rfl := hq.eq_started hphase hquiet
      refine .inr ⟨c, work, htask, ⟨⟨_, hstarted.returned, rfl⟩, hnot⟩, ?_⟩
      rw [hq.lastLane_eq]
      exact hq.calls.active_eq

/-! ## Runs without the calls that are refused -/

theorem Droppable.of_run? (hrun : p.run? moves = some q) (hq : q.Droppable revived dropped) :
    p.Droppable revived dropped := by
  induction moves generalizing p with
  | nil =>
      cases hrun
      exact hq
  | cons move rest ih =>
      obtain ⟨next, hmove, hrest⟩ := Option.bind_eq_some_iff.mp hrun
      cases move with
      | call task =>
          cases hmove
          exact (ih hrest).of_invoke
      | act actor => exact (ih hrest).of_step? hmove
      | deny c reason => exact (ih hrest).of_deny? hmove

end Pipeline

/-! ## A run -/

namespace Sample

open Pipeline

end Sample

end TxPipeline
