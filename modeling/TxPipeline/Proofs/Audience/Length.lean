import TxPipeline.Proofs.Audience.Moves
import TxPipeline.Proofs.Invariant.Run

/-!
# How long the open block is

A station is open for a block from the move that opens it to the move that closes it, and the calls
tell which of these were made. In between it has the length of that block, and no other length at
any time: not that of a longer block before it, for which it has more cells than it needs.
-/

namespace TxPipeline

variable {F : Flow} {calm : Prop} {handlers : List (Handler F)} {past : List (Work F)}
  {work : Work F} {phase : Phase F} {p q : Pipeline F} {c h : Nat} {s : Station F}

/-- Whether a call that has come this far has yet to open station `h`. -/
def Starting.shuts (h : Nat) : Starting → Bool
  | .opening _ k => decide (k ≤ h)
  | _ => false

/-- Whether a call that has come this far has closed station `h`. -/
def Finishing.shuts (h : Nat) : Finishing → Bool
  | .ending _ k _ => decide (h < k)
  | .draining _ k _ _ _ => decide (h < k)
  | .closing _ k _ => decide (h < k)
  | .leaving _ _ => true
  | _ => false

/-- Whether the call keeps station `h` shut while its block is in work. -/
def Call.shuts (h : Nat) : Call F → Bool
  | .start _ _ _ next => next.shuts h
  | .finish _ _ _ next => next.shuts h
  | _ => false

theorem Call.shuts_of_isSettled {call : Call F} (hsettled : call.isSettled = true) (h : Nat) :
    call.shuts h = false := by
  cases call with
  | start store rules block next => cases hsettled
  | finish store block receipts next => cases hsettled
  | close | returned => rfl

theorem Call.Waits.shuts {active : Option ActiveBlock} {call : Call F} (hwaits : call.Waits active)
    (h : Nat) : call.shuts h = false := by
  cases hwaits with
  | settled hsettled => exact shuts_of_isSettled hsettled h
  | start | finish => rfl

theorem Starting.berth_eq {next : Starting} {lane : Nat} (hvalid : next.Valid handlers work lane)
    (h : Nat) :
    (next.shuts h = true ∧ next.berth h = .unopened) ∨
      next.shuts h = false ∧ ∃ progress, next.berth h = .serving progress := by
  cases next with
  | acquire | enter | scan => exact hvalid.elim
  | opening plan k =>
      by_cases hk : k ≤ h
      · exact .inl ⟨decide_eq_true hk, if_neg (not_lt.mpr hk)⟩
      · exact .inr ⟨decide_eq_false hk, _, if_pos (not_le.mp hk)⟩
  | _ => exact .inr ⟨rfl, _, rfl⟩

theorem Finishing.berth_eq (next : Finishing) (n h : Nat) :
    (next.shuts h = true ∧ next.berth n h = .closed) ∨
      next.shuts h = false ∧ ∃ progress, next.berth n h = .serving progress := by
  have hresets {k : Nat} {progress : Progress} :
      (decide (h < k) = true ∧ (if h < k then Berth.closed else .serving progress) = .closed) ∨
        decide (h < k) = false ∧
          ∃ progress',
            (if h < k then Berth.closed else .serving progress) = .serving progress' := by
    by_cases hk : h < k
    · exact .inl ⟨decide_eq_true hk, if_pos hk⟩
    · exact .inr ⟨decide_eq_false hk, progress, if_neg hk⟩
  cases next with
  | ending | draining | closing => exact hresets
  | leaving => exact .inl ⟨rfl, rfl⟩
  | _ => exact .inr ⟨rfl, _, rfl⟩

namespace Pipeline

/-- Whether station `h` is yet to be opened for the block in work, or was closed again. -/
def isShut (p : Pipeline F) (h : Nat) : Bool := p.calls.any (Call.shuts h)

theorem isShut_of_quiet (hquiet : p.isQuiet = true) (h : Nat) : p.isShut h = false := by
  apply List.any_eq_false.mpr
  intro call hmem
  rw [Call.shuts_of_isSettled (List.all_eq_true.mp hquiet call hmem) h]
  simp

theorem Minds.isShut_eq {call : Call F} (hminds : p.Minds c) (hcall : p.calls[c]? = some call)
    (h : Nat) : p.isShut h = call.shuts h := by
  rw [Bool.eq_iff_iff, isShut, List.any_eq_true]
  constructor
  · rintro ⟨other, hmem, hshuts⟩
    obtain ⟨i, hi⟩ := List.mem_iff_getElem?.mp hmem
    by_cases hic : i = c
    · subst hic
      obtain rfl : other = call := Option.some.inj (hi.symm.trans hcall)
      exact hshuts
    · rw [Call.shuts_of_isSettled (hminds i other hi hic) h] at hshuts
      cases hshuts
  · exact fun hshuts => ⟨call, List.mem_of_getElem? hcall, hshuts⟩

theorem Waits.isShut_eq {active : Option ActiveBlock} (hwaits : p.Waits active) (h : Nat) :
    p.isShut h = false := by
  apply List.any_eq_false.mpr
  intro call hmem
  obtain ⟨i, hi⟩ := List.mem_iff_getElem?.mp hmem
  rw [(hwaits.of_call hi).shuts h]
  simp

theorem During.berth_eq (hp : p.During calm handlers past work phase) (h : Nat) :
    (p.isShut h = true ∧ (phase.berth work.block.length h = .unopened ∨
        phase.berth work.block.length h = .closed)) ∨
      p.isShut h = false ∧ ∃ progress, phase.berth work.block.length h = .serving progress := by
  cases phase with
  | starting c next =>
      rw [hp.call_minds.isShut_eq hp.call_eq h]
      exact (Starting.berth_eq hp.valid h).imp_left fun heq => ⟨heq.1, .inl heq.2⟩
  | started => exact .inr ⟨Waits.isShut_eq hp.calls h, _, rfl⟩
  | abandoned joined concluded => exact .inr ⟨Waits.isShut_eq hp.calls h, _, rfl⟩
  | finishing f origin store block receipts next =>
      rw [hp.finish_minds.isShut_eq hp.finish_eq h]
      exact (Finishing.berth_eq next _ h).imp_left fun heq => ⟨heq.1, .inr heq.2⟩

/-- A station serves the block in work, or it is shut and nothing is left there. -/
theorem During.clear_or_serves (hp : p.During calm handlers past work phase)
    (hs : p.stations[h]? = some s) :
    (p.isShut h = true ∧ s.Clear) ∨ p.isShut h = false ∧ ∃ due progress l,
      Station.Serves calm handlers work h due progress past.length s l := by
  have hfits := hp.stations h s hs
  rcases hp.berth_eq h with ⟨hshut, hberth | hberth⟩ | ⟨hshut, progress, hberth⟩
  · rw [hberth] at hfits
    exact .inl ⟨hshut, hfits.1⟩
  · rw [hberth] at hfits
    exact .inl ⟨hshut, hfits.1⟩
  · rw [hberth] at hfits
    obtain ⟨old, l, -, -, hserves⟩ := hfits
    exact .inr ⟨hshut, _, progress, l, hserves⟩

theorem During.blockLength_eq (hp : p.During calm handlers past work phase)
    (hs : p.stations[h]? = some s) :
    s.blockLength = if p.isShut h then 0 else work.block.length := by
  rcases hp.clear_or_serves hs with ⟨hshut, hclear⟩ | ⟨hshut, due, progress, l, hserves⟩
  · rw [hshut, if_pos rfl, hclear.blockLength]
  · rw [hshut, if_neg Bool.false_ne_true, hserves.length_eq]

theorem During.blockLength_le (hp : p.During calm handlers past work phase)
    (hs : p.stations[h]? = some s) : s.blockLength ≤ s.results.length := by
  rcases hp.clear_or_serves hs with ⟨-, hclear⟩ | ⟨-, due, progress, l, hserves⟩
  · exact hclear.blockLength.le.trans (Nat.zero_le _)
  · exact hserves.length_eq.le.trans hserves.settled.length_le

end Pipeline

namespace Audience

variable {a : Audience F}

/-- While a block is in work, a call fails if its position is not one of that block, or if the
station is shut. -/
theorem failsFrom_of_during (hp : a.pipeline.During calm handlers past work phase)
    (hh : h < handlers.length) :
    a.FailsFrom h (if a.pipeline.isShut h then 0 else work.block.length) := by
  obtain ⟨s, hs, -⟩ := hp.exists_station hh
  rw [← hp.blockLength_eq hs]
  exact failsFrom_blockLength hs (hp.blockLength_le hs)

/-- Between two blocks every call fails. -/
theorem failsFrom_of_between (hp : a.pipeline.Between calm handlers past)
    (hh : h < handlers.length) : a.FailsFrom h 0 := by
  have hlt : h < a.pipeline.stations.length := by
    rwa [← hp.crew.handlers_eq, List.length_map] at hh
  have hs := List.getElem?_eq_getElem hlt
  have hzero := (hp.stations h _ hs).1.blockLength
  rw [← hzero]
  exact failsFrom_blockLength hs (hzero.le.trans (Nat.zero_le _))

end Audience

end TxPipeline
