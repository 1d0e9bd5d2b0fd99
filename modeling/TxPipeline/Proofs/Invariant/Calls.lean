import TxPipeline.Proofs.Invariant.Threads
import TxPipeline.Proofs.Run

/-!
# Calls that wait

At most one call is starting or finishing a block, and all others have ended or close the pipeline.
Closing takes the senders away only while no block is being started.
-/

namespace TxPipeline.Pipeline

variable {F : Flow} {calm : Prop} {handlers : List (Handler F)} {past : List (Work F)}
  {work : Work F} {phase : Phase F} {p q : Pipeline F} {c i lane : Nat} {call next : Call F}

theorem getElem?_set_calls (hcall : p.calls[c]? = some call) (next : Call F) (i : Nat) :
    (p.calls.set c next)[i]? = if i = c then some next else p.calls[i]? := by
  have hlt := (List.getElem?_eq_some_iff.mp hcall).1
  rw [List.getElem?_set]
  by_cases hi : i = c
  · simp [hi, hlt]
  · simp [hi, Ne.symm hi]

theorem getElem?_of_set_calls (hcall : p.calls[c]? = some call)
    (hq : q.calls = p.calls.set c next) : q.calls[c]? = some next := by
  rw [hq, getElem?_set_calls hcall, if_pos rfl]

theorem eq_of_set_calls {other : Call F} (hcall : p.calls[c]? = some call)
    (hq : q.calls = p.calls.set c next) (hother : q.calls[c]? = some other) : next = other := by
  rw [getElem?_of_set_calls hcall hq] at hother
  exact Option.some.inj hother

/-- A call that is starting or finishing a block is the one that is not settled. -/
theorem Minds.eq (hp : p.Minds c) (hcall : p.calls[i]? = some call)
    (hunsettled : call.isSettled = false) : i = c := by
  by_contra hne
  rw [hp i call hcall hne] at hunsettled
  cases hunsettled

theorem CallMove.closes (hmove : p.CallMove c q)
    (hsettled : ∀ call, p.calls[c]? = some call → call.isSettled = true) :
    ∃ next, p.calls[c]? = some (.close next) ∧ p.stepClose? c next = some q := by
  cases hmove with
  | close next hcall hclose => exact ⟨next, hcall, hclose⟩
  | start store rules block next hcall _ => cases hsettled _ hcall
  | finish store block receipts next hcall _ => cases hsettled _ hcall

/-- Somebody else than a caller moves, or one of the calls that close the pipeline, or call `c`. -/
theorem Minds.mover {actor : Actor} (hp : p.Minds c) (hstep : p.step? actor = some q) :
    (∀ i, actor ≠ .caller i) ∨
      (∃ i next, p.calls[i]? = some (.close next) ∧ actor = .caller i ∧
        p.stepClose? i next = some q) ∨ actor = .caller c := by
  rcases thread_or_callMove hstep with hthread | ⟨i, rfl, hmove⟩
  · exact .inl hthread
  by_cases hi : i = c
  · exact .inr (.inr (congrArg Actor.caller hi))
  · obtain ⟨next, hcall, hclose⟩ := hmove.closes fun call hcall => hp i call hcall hi
    exact .inr (.inl ⟨i, next, hcall, rfl, hclose⟩)

theorem Waits.of_call {active : Option ActiveBlock} (hp : p.Waits active)
    (hcall : p.calls[i]? = some call) : call.Waits active := by
  obtain ⟨-, -, d, hminds, hwaits⟩ := hp
  by_cases hi : i = d
  · exact hwaits call (hi ▸ hcall)
  · exact .settled (hminds i call hcall hi)

theorem Waits.eq_acquire {active : Option ActiveBlock} (hp : p.Waits active) {store : F.Store}
    {rules : Rules} {block : Block} {next : Starting}
    (hcall : p.calls[c]? = some (.start store rules block next)) : next = .acquire := by
  cases hp.of_call hcall with
  | settled h => cases h
  | start _ _ _ _ => rfl

theorem Waits.eq_take {active : Option ActiveBlock} (hp : p.Waits active) {store : F.Store}
    {block : Block} {receipts : List Receipt} {next : Finishing}
    (hcall : p.calls[c]? = some (.finish store block receipts next)) : next = .take := by
  cases hp.of_call hcall with
  | settled h => cases h
  | finish _ _ _ _ => rfl

theorem Waits.minds {active : Option ActiveBlock} (hp : p.Waits active)
    (hcall : p.calls[c]? = some call) (hunsettled : call.isSettled = false) : p.Minds c := by
  obtain ⟨d, hminds, -⟩ := hp.waits
  rwa [hminds.eq hcall hunsettled]

theorem Minds.set_self (hp : p.Minds c) (hcall : p.calls[c]? = some call)
    (hq : q.calls = p.calls.set c next) : q.Minds c := by
  intro j other hother hne
  rw [hq, getElem?_set_calls hcall, if_neg hne] at hother
  exact hp j other hother hne

theorem Minds.set_settled (hp : p.Minds c) (hcall : p.calls[i]? = some call)
    (hnext : next.isSettled = true) (hq : q.calls = p.calls.set i next) : q.Minds c := by
  intro j other hother hne
  rw [hq, getElem?_set_calls hcall] at hother
  split at hother
  · cases hother
    exact hnext
  · exact hp j other hother hne

theorem Minds.append (hp : p.Minds c) (hq : q.calls = p.calls ++ [next])
    (hnext : c ≠ p.calls.length → next.isSettled = true) : q.Minds c := by
  intro j other hother hne
  rw [hq, List.getElem?_append] at hother
  split at hother
  · exact hp j other hother hne
  · rename_i hge
    have hj : j = p.calls.length := by
      have hlt := (List.getElem?_eq_some_iff.mp hother).1
      simp only [List.length_singleton] at hlt
      omega
    subst hj
    obtain rfl : next = other := by simpa using hother
    exact hnext (Ne.symm hne)

theorem isSettled_of_isQuiet (hquiet : p.isQuiet = true) (hcall : p.calls[c]? = some call) :
    call.isSettled = true :=
  List.all_eq_true.mp hquiet call (List.mem_of_getElem? hcall)

theorem minds_of_isQuiet (hquiet : p.isQuiet = true) (c : Nat) : p.Minds c :=
  fun _ _ hcall _ => isSettled_of_isQuiet hquiet hcall

theorem Waits.set_settled {active : Option ActiveBlock} (hp : p.Waits active)
    (hcall : p.calls[i]? = some call) (hnext : next.isSettled = true)
    (hq : q.calls = p.calls.set i next) (hlocked : q.locked = p.locked)
    (hactive : q.active = p.active) : q.Waits active where
  unlocked := hlocked.trans hp.unlocked
  active_eq := hactive.trans hp.active_eq
  waits := by
    obtain ⟨c, hminds, hwaits⟩ := hp.waits
    refine ⟨c, hminds.set_settled hcall hnext hq, ?_⟩
    intro other hother
    rw [hq, getElem?_set_calls hcall] at hother
    split at hother
    · cases hother
      exact .settled hnext
    · exact hwaits other hother

theorem Attends.set_settled (hp : p.Attends handlers work lane phase)
    (hcall : p.calls[i]? = some call) (hsettled : call.isSettled = true)
    (hnext : next.isSettled = true) (hq : q.calls = p.calls.set i next)
    (hlocked : q.locked = p.locked) (hactive : q.active = p.active)
    (hsenders : p.locked = true → q.poolSenders = p.poolSenders) :
    q.Attends handlers work lane phase := by
  have hother {c : Nat} {other : Call F} (hc : p.calls[c]? = some other)
      (hne : other.isSettled = false) : q.calls[c]? = some other := by
    rw [hq, getElem?_set_calls hcall, if_neg]
    · exact hc
    · rintro rfl
      rw [hcall] at hc
      cases hc
      rw [hsettled] at hne
      cases hne
  cases phase with
  | started => exact Waits.set_settled hp hcall hnext hq hlocked hactive
  | abandoned joined concluded => exact Waits.set_settled hp hcall hnext hq hlocked hactive
  | starting c next =>
      obtain ⟨hl, ha, hminds, hc, hs, hv⟩ := hp
      exact ⟨hlocked.trans hl, hactive.trans ha, hminds.set_settled hcall hnext hq, hother hc rfl,
        (hsenders hl).trans hs, hv⟩
  | finishing c origin store block receipts next =>
      obtain ⟨hl, ha, hminds, hc, hv⟩ := hp
      exact ⟨hlocked.trans hl, hactive.trans ha, hminds.set_settled hcall hnext hq, hother hc rfl,
        hv⟩

theorem Enters.set_settled {next' : Starting} (hp : p.Enters c work next')
    (hcall : p.calls[i]? = some call) (hsettled : call.isSettled = true)
    (hnext : next.isSettled = true) (hq : q.calls = p.calls.set i next)
    (hlocked : q.locked = p.locked) (hactive : q.active = p.active)
    (hsenders : p.locked = true → q.poolSenders = p.poolSenders) : q.Enters c work next' where
  locked := hlocked.trans hp.locked
  active_eq := hactive.trans hp.active_eq
  minds := hp.minds.set_settled hcall hnext hq
  call := by
    rw [hq, getElem?_set_calls hcall, if_neg]
    · exact hp.call
    · rintro rfl
      rw [hp.call] at hcall
      cases hcall
      cases hsettled
  length_le := hp.length_le
  next_eq := hp.next_eq.imp_right fun h => ⟨h.1, (hsenders hp.locked).trans h.2⟩

/-- What a crew says about calls is kept when no other call comes to look for a block. -/
theorem Crew.setCall (hc : p.Crew handlers) (hcall : p.calls[c]? = some call)
    (hnext : next ≠ .close .check) : (p.setCall c next).Crew handlers :=
  { hc with
    checked := by
      intro i hi
      rw [show (p.setCall c next).calls = p.calls.set c next from rfl,
        getElem?_set_calls hcall] at hi
      split at hi
      · cases hi
        exact absurd rfl hnext
      · exact hc.checked i hi }

/-! ## Closing -/

/-- What a move of a call that closes the pipeline changes. -/
structure Closes (p : Pipeline F) (c : Nat) (q : Pipeline F) : Prop where
  calls : ∃ next : Call F, q.calls = p.calls.set c next ∧ next.isSettled = true ∧
    (next = .close .check → q.isOpen = false)
  rest : ∃ calls isOpen poolSenders log, q = { p with calls, isOpen, poolSenders, log }
  isOpen : q.isOpen = true → p.isOpen = true
  senders : q.poolSenders = p.poolSenders ∨
    q.poolSenders = false ∧ p.locked = false ∧ q.isOpen = false

theorem Crew.closes_of_stepClose? {next : Closing} (hc : p.Crew handlers)
    (hcall : p.calls[c]? = some (.close next)) (hstep : p.stepClose? c next = some q) :
    p.Closes c q := by
  cases closeMove_of_stepClose? hstep with
  | take hopen =>
      exact ⟨⟨_, rfl, rfl, fun _ => rfl⟩, ⟨_, _, _, _, rfl⟩, fun h => (by cases h), .inl rfl⟩
  | check log hunlocked =>
      exact ⟨⟨_, rfl, rfl, fun h => (by cases h)⟩, ⟨_, _, _, _, rfl⟩, id,
        .inr ⟨rfl, hunlocked, hc.checked c hcall⟩⟩
  | _ => exact ⟨⟨_, rfl, rfl, fun h => (by cases h)⟩, ⟨_, _, _, _, rfl⟩, id, .inl rfl⟩

theorem Crew.closes (hc : p.Crew handlers) (hcall : p.calls[c]? = some call)
    (hclose : p.Closes c q) : q.Crew handlers := by
  obtain ⟨⟨next, hcalls, -, hcheck⟩, ⟨calls, isOpen, poolSenders, log, rfl⟩, hopen, hsenders⟩ :=
    hclose
  refine { hc with
    exited := ?_
    closed := ?_
    checked := ?_ }
  · intro worker hworker hexit
    obtain ⟨hs, hrest⟩ := hc.exited worker hworker hexit
    exact ⟨hsenders.elim (fun h => h.trans hs) fun h => h.1, hrest⟩
  · intro hs
    rcases hsenders with h | h
    · by_contra hne
      have hp := hopen (by simpa using hne)
      rw [hc.closed (h.symm.trans hs)] at hp
      cases hp
    · exact h.2.2
  · intro i hi
    rw [hcalls, getElem?_set_calls hcall] at hi
    split at hi
    · cases hi
      exact hcheck rfl
    · by_contra hne
      have hp := hopen (by simpa using hne)
      rw [hc.checked i hi] at hp
      cases hp

theorem Closes.senders_eq (hclose : p.Closes c q) (hlocked : p.locked = true) :
    q.poolSenders = p.poolSenders := by
  rcases hclose.senders with h | ⟨-, h, -⟩
  · exact h
  · rw [hlocked] at h
    cases h

theorem During.stepClose? {next : Closing} (hp : p.During calm handlers past work phase)
    (hcall : p.calls[c]? = some (.close next)) (hstep : p.stepClose? c next = some q) :
    q.During calm handlers past work phase := by
  have hclose := hp.crew.closes_of_stepClose? hcall hstep
  have hcrew := hp.crew.closes hcall hclose
  have hsenders := hclose.senders_eq
  obtain ⟨⟨next, hcalls, hsettled, -⟩, ⟨calls, isOpen, poolSenders, log, rfl⟩, -, -⟩ := hclose
  exact { hp with
    crew := hcrew
    calls := hp.calls.set_settled hcall rfl hsettled hcalls rfl rfl hsenders
    traffic := hp.traffic.of_load_eq fun _ => rfl }

theorem Between.stepClose? {next : Closing} (hp : p.Between calm handlers past)
    (hcall : p.calls[c]? = some (.close next)) (hstep : p.stepClose? c next = some q) :
    q.Between calm handlers past := by
  have hclose := hp.crew.closes_of_stepClose? hcall hstep
  have hcrew := hp.crew.closes hcall hclose
  have hsenders := hclose.senders_eq
  obtain ⟨⟨next, hcalls, hsettled, -⟩, ⟨calls, isOpen, poolSenders, log, rfl⟩, -, -⟩ := hclose
  exact { hp with
    crew := hcrew
    calls := hp.calls.imp (fun h => h.set_settled hcall hsettled hcalls rfl rfl)
      fun ⟨c, work, next, h⟩ =>
        ⟨c, work, next, h.set_settled hcall rfl hsettled hcalls rfl rfl hsenders⟩ }

/-! ## New calls -/

theorem Crew.invoke (hc : p.Crew handlers) (task : Task F) : (p.invoke task).Crew handlers :=
  { hc with
    checked := by
      intro i hi
      rcases getElem?_of_invoke hi with hi | ⟨-, heq⟩
      · exact hc.checked i hi
      · cases task <;> cases heq }

theorem Waits.append_settled {active : Option ActiveBlock} (hp : p.Waits active)
    (hnext : next.isSettled = true) (hq : q.calls = p.calls ++ [next])
    (hlocked : q.locked = p.locked) (hactive : q.active = p.active) : q.Waits active where
  unlocked := hlocked.trans hp.unlocked
  active_eq := hactive.trans hp.active_eq
  waits := by
    obtain ⟨c, hminds, hwaits⟩ := hp.waits
    refine ⟨c, hminds.append hq fun _ => hnext, ?_⟩
    intro other hother
    rw [hq, List.getElem?_append] at hother
    split at hother
    · exact hwaits other hother
    · have hmem := List.mem_of_getElem? hother
      rw [List.mem_singleton] at hmem
      exact .settled (hmem ▸ hnext)

/-- The only call with something to do is the one that was made last. -/
theorem Waits.append_quiet {active : Option ActiveBlock} (hp : p.Waits active)
    (hquiet : p.isQuiet = true) (hnext : next.Waits active) (hq : q.calls = p.calls ++ [next])
    (hlocked : q.locked = p.locked) (hactive : q.active = p.active) : q.Waits active where
  unlocked := hlocked.trans hp.unlocked
  active_eq := hactive.trans hp.active_eq
  waits := by
    refine ⟨p.calls.length, (minds_of_isQuiet hquiet _).append hq fun h => absurd rfl h,
      ?_⟩
    intro other hother
    rw [hq, List.getElem?_concat_length] at hother
    cases hother
    exact hnext

theorem getElem?_append_calls (hcall : p.calls[c]? = some call) (hq : q.calls = p.calls ++ [next]) :
    q.calls[c]? = some call := by
  rw [hq, List.getElem?_append_left (List.getElem?_eq_some_iff.mp hcall).1]
  exact hcall

theorem waits_ofTask {active : Option ActiveBlock} {task : Task F} (hactive : p.active = active)
    (hadmits : p.admits task = true) : (Call.ofTask task).Waits active := by
  cases task with
  | close => exact .settled rfl
  | start store rules block =>
      simp only [admits, Bool.and_eq_true, decide_eq_true_eq] at hadmits
      exact .start store rules block hadmits.2
  | finish store block receipts =>
      simp only [admits, Bool.and_eq_true] at hadmits
      refine .finish store block receipts ?_
      intro a ha
      rw [hactive, ha] at hadmits
      simpa using hadmits.2

theorem isQuiet_of_admits {task : Task F} (hadmits : p.admits task = true)
    (htask : ¬ (Call.ofTask task).isSettled = true) : p.isQuiet = true := by
  cases task with
  | close => exact absurd rfl htask
  | start store rules block => exact (Bool.and_eq_true_iff.mp hadmits).1
  | finish store block receipts => exact (Bool.and_eq_true_iff.mp hadmits).1

theorem During.invoke (hp : p.During calm handlers past work phase) {task : Task F}
    (hadmits : p.admits task = true) :
    (p.invoke task).During calm handlers past work phase := by
  refine { hp with
    crew := hp.crew.invoke task
    calls := ?_
    traffic := hp.traffic.of_load_eq fun _ => rfl }
  have hcalls := hp.calls
  by_cases hclose : (Call.ofTask task).isSettled = true
  · cases phase with
    | started => exact Waits.append_settled hcalls hclose rfl rfl rfl
    | abandoned joined concluded => exact Waits.append_settled hcalls hclose rfl rfl rfl
    | starting c next =>
        obtain ⟨hl, ha, hminds, hc, hs, hv⟩ := hcalls
        exact ⟨hl, ha, hminds.append rfl fun _ => hclose, getElem?_append_calls hc rfl, hs, hv⟩
    | finishing c origin store block receipts next =>
        obtain ⟨hl, ha, hminds, hc, hv⟩ := hcalls
        exact ⟨hl, ha, hminds.append rfl fun _ => hclose, getElem?_append_calls hc rfl, hv⟩
  · have hquiet := isQuiet_of_admits hadmits hclose
    cases phase with
    | started =>
        exact Waits.append_quiet hcalls hquiet (waits_ofTask hcalls.active_eq hadmits) rfl rfl rfl
    | abandoned joined concluded =>
        exact Waits.append_quiet hcalls hquiet (waits_ofTask hcalls.active_eq hadmits) rfl rfl rfl
    | starting c next =>
        obtain ⟨-, -, -, hc, -⟩ := hcalls
        cases isSettled_of_isQuiet hquiet hc
    | finishing c origin store block receipts next =>
        obtain ⟨-, -, -, hc, -⟩ := hcalls
        cases isSettled_of_isQuiet hquiet hc

theorem Between.invoke (hp : p.Between calm handlers past) {task : Task F}
    (hadmits : p.admits task = true) : (p.invoke task).Between calm handlers past := by
  refine { hp with
    crew := hp.crew.invoke task
    calls := ?_ }
  by_cases hclose : (Call.ofTask task).isSettled = true
  · rcases hp.calls with hwaits | ⟨c, work, next, henters⟩
    · exact .inl (hwaits.append_settled hclose rfl rfl rfl)
    · exact .inr ⟨c, work, next, { henters with
        minds := henters.minds.append rfl fun _ => hclose
        call := getElem?_append_calls henters.call rfl }⟩
  · have hquiet := isQuiet_of_admits hadmits hclose
    rcases hp.calls with hwaits | ⟨c, work, next, henters⟩
    · exact .inl (hwaits.append_quiet hquiet (waits_ofTask hwaits.active_eq hadmits) rfl rfl rfl)
    · cases isSettled_of_isQuiet hquiet henters.call

end TxPipeline.Pipeline
