import TxPipeline.Proofs.Invariant.Run

/-!
# What a call to start a block answers

A call to start a block finds another one in work, or the pipeline closed, or a transaction that
cannot pay its intrinsic gas, or nothing of the kind, and then it may still be denied a thread. It
answers accordingly, whoever else moves meanwhile.
-/

namespace TxPipeline

variable {F : Flow} {handlers : List (Handler F)} {work : Work F}

/-! ## Intrinsic gas -/

/-- What keeps a transaction from paying its intrinsic gas: that this leaves 64 bits, or that it is
more than the limit of the transaction. -/
def Gas.violation? (rules : Rules) (tx : IndexedTx) : Option Error :=
  match Gas.intrinsic? tx.tx.input tx.tx.accessList tx.tx.isCreate rules with
  | none => some .gasOverflow
  | some intrinsic =>
      if tx.tx.gasLimit < intrinsic then
        some (.intrinsicGasExceedsLimit tx.hash intrinsic tx.tx.gasLimit)
      else none

theorem violation?_of_verdict {rules : Rules} {tx : IndexedTx}
    {outcome : Except Failure (List Bool)}
    (hverdict : (verdict handlers rules tx).map Gas.Reservation.eligible = outcome) :
    match outcome with
    | .ok _ => Gas.violation? rules tx = none
    | .error (.error error) => Gas.violation? rules tx = some error
    | .error (.fault _) => True := by
  unfold verdict at hverdict
  unfold Gas.violation?
  cases hgather : Gas.gather (handlers.map fun handler => handler.gas tx rules) with
  | error fault =>
      rw [hgather] at hverdict
      subst hverdict
      trivial
  | ok answers =>
      rw [hgather] at hverdict
      unfold Gas.intrinsicOf Gas.intrinsic at hverdict
      cases hintrinsic : Gas.intrinsic? tx.tx.input tx.tx.accessList tx.tx.isCreate rules with
      | none =>
          rw [hintrinsic] at hverdict
          subst hverdict
          rfl
      | some intrinsic =>
          rw [hintrinsic] at hverdict
          dsimp only at hverdict ⊢
          split at hverdict <;> subst hverdict
          · exact if_pos ‹_›
          · exact if_neg ‹_›

theorem violation?_of_ok {rules : Rules} {tx : IndexedTx} {r : Gas.Reservation}
    (hr : verdict handlers rules tx = .ok r) : Gas.violation? rules tx = none := by
  have hverdict : (verdict handlers rules tx).map Gas.Reservation.eligible = .ok r.eligible := by
    rw [hr]
    rfl
  exact violation?_of_verdict hverdict

namespace Work

/-- The first transaction of the block that cannot pay its intrinsic gas, and what keeps it from
that. -/
def violation? (work : Work F) : Option (IndexedTx × Error) :=
  work.block.indexed.findSome? fun tx => (Gas.violation? work.rules tx).map (Prod.mk tx)

theorem violation?_of_accepted (h : work.Accepted handlers) : work.violation? = none := by
  rw [violation?, List.findSome?_eq_none_iff]
  intro tx htx
  obtain ⟨r, hr⟩ := h tx htx
  rw [violation?_of_ok hr, Option.map_none]

theorem violation?_of_refused {before after : List IndexedTx} {tx : IndexedTx} {error : Error}
    (hsplit : work.block.indexed = before ++ tx :: after)
    (hbefore : ∀ other ∈ before, ∃ r, verdict handlers work.rules other = .ok r)
    (hverdict : verdict handlers work.rules tx = .error (.error error)) :
    work.violation? = some (tx, error) := by
  have hnone : before.findSome? (fun tx => (Gas.violation? work.rules tx).map (Prod.mk tx)) =
      none := by
    rw [List.findSome?_eq_none_iff]
    intro other hother
    obtain ⟨r, hr⟩ := hbefore other hother
    rw [violation?_of_ok hr, Option.map_none]
  have hmap : (verdict handlers work.rules tx).map Gas.Reservation.eligible =
      .error (.error error) := by
    rw [hverdict]
    rfl
  have hsome : Gas.violation? work.rules tx = some error := violation?_of_verdict hmap
  rw [violation?, hsplit, List.findSome?_append, hnone, Option.none_or, List.findSome?_cons, hsome]
  rfl

end Work

namespace Pipeline

variable {config : Config} {registry : Registry F} {past : List (Work F)}
  {p q r origin : Pipeline F} {c : Nat} {actor : Actor} {moves more : List (Move F)}
  {ts : List (Task F)} {outcome : Except Failure Unit}

/-! ## Closing is for good -/

/-- Only a call that closes the pipeline decides whether it is open. -/
theorem isOpen_or_closeMove_of_step? (hstep : p.step? actor = some q) :
    q.isOpen = p.isOpen ∨ ∃ c next, actor = .caller c ∧ p.calls[c]? = some (.close next) ∧
      p.CloseMove c next q := by
  cases actor with
  | caller c =>
      cases callMove_of_stepCall? hstep with
      | start store rules block next hcall hstart =>
          obtain ⟨_, _, _, _, _, _, _, _, _, rfl⟩ := eq_of_stepStart? hstart
          exact .inl rfl
      | finish store block receipts next hcall hfinish =>
          obtain ⟨_, _, _, _, _, rfl⟩ := eq_of_stepFinish? hfinish
          exact .inl rfl
      | close next hcall hclose =>
          exact .inr ⟨c, next, rfl, hcall, closeMove_of_stepClose? hclose⟩
  | refresher w =>
      obtain ⟨_, _, rfl, -⟩ := eq_of_refresh? hstep
      exact .inl rfl
  | receiver w =>
      obtain ⟨_, _, _, rfl⟩ := eq_of_receive? hstep
      exact .inl rfl
  | worker w =>
      obtain ⟨_, _, _, rfl⟩ := eq_of_work? hstep
      exact .inl rfl
  | feeder lane stage =>
      obtain ⟨_, _, _, rfl⟩ := eq_of_feed? hstep
      exact .inl rfl
  | handOver lane w =>
      obtain ⟨_, _, rfl⟩ := eq_of_handOver? hstep
      exact .inl rfl
  | preparation h lane | replay h lane | aggregation h lane =>
      obtain ⟨_, _, -, -, rfl⟩ := eq_of_stepStation? hstep
      exact .inl rfl

theorem isOpen_of_step? (hstep : p.step? actor = some q) (hopen : q.isOpen = true) :
    p.isOpen = true := by
  rcases isOpen_or_closeMove_of_step? hstep with hsame | ⟨c, next, -, -, hmove⟩
  · exact hsame ▸ hopen
  · cases hmove with
    | take => cases hopen
    | _ => exact hopen

theorem isOpen_of_deny? {reason : String} (hdeny : p.deny? c reason = some q) :
    q.isOpen = p.isOpen := by
  obtain ⟨_, _, _, _, rfl⟩ := eq_of_deny? hdeny
  rfl

/-- A pipeline that is closed is never open again. -/
theorem isOpen_of_run? (hrun : p.run? moves = some q) (hopen : q.isOpen = true) :
    p.isOpen = true :=
  run?_induction (P := fun q => q.isOpen = true → p.isOpen = true) hrun id (fun _ _ ih => ih)
    (fun _ _ _ ih hstep hopen => ih (isOpen_of_step? hstep hopen))
    (fun _ _ _ _ ih hdeny hopen => ih (isOpen_of_deny? hdeny ▸ hopen)) hopen

/-! ## Answers -/

/-- What call `c` to start a block answers if it was made in the state `origin` and has returned in
`p`, `more` having happened between the two. The pipeline can have been closed in it. -/
inductive Answers (work : Work F) (origin : Pipeline F) (c : Nat) (more : List (Move F))
    (p : Pipeline F) : Except Failure Unit → Prop
  | blocked (active : ActiveBlock) (hactive : origin.active = some active) :
      Answers work origin c more p (.error (.error (.blockInProgress active.number)))
  | closed (hactive : origin.active = none) (hclosed : p.isOpen = false) :
      Answers work origin c more p (.error (.error .closed))
  | refused (tx : IndexedTx) (error : Error) (hactive : origin.active = none)
      (hopen : origin.isOpen = true) (hviolation : work.violation? = some (tx, error)) :
      Answers work origin c more p (.error (.error error))
  /-- A move of the operating system has denied the call a thread. -/
  | denied (failure : Failure) (hactive : origin.active = none) (hopen : origin.isOpen = true)
      (hviolation : work.violation? = none) (hdenied : Denied more c failure) :
      Answers work origin c more p (.error failure)
  | started (hactive : origin.active = none) (hopen : origin.isOpen = true)
      (hviolation : work.violation? = none) (hallowed : ∀ failure, ¬ Denied more c failure) :
      Answers work origin c more p (.ok ())

/-- What has come of call `c` to start `work`, which was made in the state `origin`. -/
inductive Begins (handlers : List (Handler F)) (work : Work F) (origin : Pipeline F) (c : Nat)
    (more : List (Move F)) (p : Pipeline F) : Prop
  /-- Another block is in work. -/
  | blocked (past : List (Work F)) (other : Work F)
      (hp : p.During True handlers past other .started)
      (hactive : origin.active = some (other.active past.length))
      (hcall : p.calls[c]? = some (.start work.store work.rules work.block .acquire))
  | entering (past : List (Work F)) (next : Starting) (hp : p.Between True handlers past)
      (hactive : origin.active = none) (hopen : next = .scan → origin.isOpen = true)
      (hcall : p.calls[c]? = some (.start work.store work.rules work.block next))
      (hallowed : ∀ failure, ¬ Denied more c failure)
  | starting (past : List (Work F)) (next : Starting)
      (hp : p.During True handlers past work (.starting c next)) (hactive : origin.active = none)
      (hopen : origin.isOpen = true) (hallowed : ∀ failure, ¬ Denied more c failure)
  | returned (outcome : Except Failure Unit)
      (hcall : p.calls[c]? = some (.returned (.started outcome)))
      (hanswers : Answers work origin c more p outcome)

/-- An answer stays as it is, whatever happens afterwards. -/
theorem Answers.append {move : Move F} (h : Answers work origin c more p outcome)
    (hopen : q.isOpen = true → p.isOpen = true) (hmove : ∀ reason, move ≠ .deny c reason) :
    Answers work origin c (more ++ [move]) q outcome := by
  cases h with
  | blocked active hactive => exact .blocked active hactive
  | closed hactive hclosed =>
      refine .closed hactive ?_
      by_contra hnot
      rw [hopen (by simpa using hnot)] at hclosed
      cases hclosed
  | refused tx error hactive hopen hviolation => exact .refused tx error hactive hopen hviolation
  | denied failure hactive hopen hviolation hdenied =>
      exact .denied failure hactive hopen hviolation (hdenied.append [move])
  | started hactive hopen hviolation hallowed =>
      exact .started hactive hopen hviolation fun failure h =>
        hallowed failure (h.of_append hmove)

namespace Begins

theorem begin (hchronicle : Chronicle True handlers ts q)
    (hadmits : q.admits work.task = true) :
    Begins handlers work q q.calls.length [] (q.invoke work.task) := by
  have hallowed : ∀ failure, ¬ Denied ([] : List (Move F)) q.calls.length failure := by
    rintro failure ⟨reason, -, hmem⟩
    cases hmem
  have hquiet : q.isQuiet = true := (Bool.and_eq_true_iff.mp hadmits).1
  have hcall : (q.invoke work.task).calls[q.calls.length]? =
      some (.start work.store work.rules work.block .acquire) := List.getElem?_concat_length
  cases hchronicle with
  | between past hq _ =>
      have hactive : q.active = none := by
        rcases hq.calls with hwaits | ⟨d, other, next, henters⟩
        · exact hwaits.active_eq
        · exact henters.active_eq
      exact .entering past .acquire (hq.invoke hadmits) hactive (fun h => by cases h) hcall hallowed
  | starting past other d next hq _ _ => exact absurd hquiet hq.not_quiet
  | started past other phase d hq hphase _ _ _ =>
      obtain rfl := hq.eq_started hphase hquiet
      exact .blocked past other (hq.invoke hadmits) hq.calls.active_eq hcall

theorem invoke (hp : Begins handlers work origin c more p) {task : Task F}
    (hadmits : p.admits task = true) :
    Begins handlers work origin c (more ++ [.call task]) (p.invoke task) := by
  cases hp with
  | blocked past other hp hactive hcall =>
      exact .blocked past other (hp.invoke hadmits) hactive (getElem?_append_calls hcall rfl)
  | entering past next hp hactive hopen hcall hallowed =>
      exact .entering past next (hp.invoke hadmits) hactive hopen (getElem?_append_calls hcall rfl)
        fun failure h => hallowed failure (h.of_append (by simp))
  | starting past next hp hactive hopen hallowed =>
      exact .starting past next (hp.invoke hadmits) hactive hopen
        fun failure h => hallowed failure (h.of_append (by simp))
  | returned outcome hcall hanswers =>
      exact .returned outcome (getElem?_append_calls hcall rfl) (hanswers.append id (by simp))

section Step

variable (hraises : p.raises actor = false) (hstep : p.step? actor = some q)

include hraises hstep

theorem step?_blocked {other : Work F} (hp : p.During True handlers past other .started)
    (hactive : origin.active = some (other.active past.length))
    (hcall : p.calls[c]? = some (.start work.store work.rules work.block .acquire)) :
    Begins handlers work origin c more q := by
  by_cases hactor : actor = .caller c
  · obtain rfl := hactor
    rw [step?_of_start hcall] at hstep
    cases startMove_of_stepStart? hstep with
    | refuse active hunlocked hfound =>
        have hsame : active = other.active past.length :=
          Option.some.inj (hfound.symm.trans hp.calls.active_eq)
        exact .returned _ (getElem?_of_set_calls hcall rfl) (.blocked active (hsame ▸ hactive))
    | acquire hunlocked hnone =>
        rw [hp.calls.active_eq] at hnone
        cases hnone
  have hstays := (getElem?_calls_of_step? hstep hactor).trans hcall
  rcases hp.step?_started (.of_clean hraises) hstep with hq | ⟨g, store, block, receipts, hg, -⟩
  · exact .blocked past other hq hactive hstays
  · -- the two calls cannot both be unsettled
    rw [(hp.calls.minds hcall rfl).eq hg rfl, hcall] at hg
    cases hg

/-- A scan that comes to an end finds the first transaction that cannot pay, or brings the block
into work. -/
theorem step?_scan (hp : p.Between True handlers past) (hactive : origin.active = none)
    (hopen : origin.isOpen = true) (hallowed : ∀ failure, ¬ Denied more c failure)
    (hactor : actor = .caller c)
    (hcall : p.calls[c]? = some (.start work.store work.rules work.block .scan)) :
    Begins handlers work origin c more q := by
  subst hactor
  have hphase := hp.step? (.of_clean hraises) hstep
  rw [step?_of_start hcall] at hstep
  cases startMove_of_stepStart? hstep with
  | scanFault fault tx ledger log hfault =>
      simp [raises, callRaises, hcall, hfault] at hraises
  | scanError error tx ledger log herror =>
      obtain ⟨before, after, hsplit, hbefore, hverdict, -⟩ :=
        scan_eq_error hp.crew.handlers_eq herror
      exact .returned _ (getElem?_of_set_calls hcall rfl) (.refused tx error hactive hopen
        (Work.violation?_of_refused hsplit hbefore hverdict))
  | scan decisions ledger log hok =>
      rcases hphase with ⟨hq, -⟩ | ⟨d, store, rules, block, plan, hd, hsame, hq⟩
      · have henters := hq.enters_of_call (getElem?_of_set_calls hcall rfl) (by simp)
        rcases henters.next_eq with h | ⟨h, -⟩ <;> cases h
      · cases hsame
        rw [hcall] at hd
        obtain ⟨rfl, rfl, rfl⟩ : store = work.store ∧ rules = work.rules ∧ block = work.block := by
          cases hd
          exact ⟨rfl, rfl, rfl⟩
        exact .starting past _ hq hactive hopen hallowed

/-- The moves of a call before its scan. -/
theorem step?_acquiring {next : Starting} (hp : p.Between True handlers past)
    (hactive : origin.active = none) (hisOpen : p.isOpen = true → origin.isOpen = true)
    (hallowed : ∀ failure, ¬ Denied more c failure) (hnext : next ≠ .scan)
    (hactor : actor = .caller c)
    (hcall : p.calls[c]? = some (.start work.store work.rules work.block next)) :
    Begins handlers work origin c more q := by
  subst hactor
  have hq : q.Between True handlers past := by
    rcases hp.step? (.of_clean hraises) hstep with
      ⟨hq, -⟩ | ⟨d, store, rules, block, plan, hd, hsame, -⟩
    · exact hq
    · cases hsame
      rw [hcall] at hd
      cases hd
      exact absurd rfl hnext
  rw [step?_of_start hcall] at hstep
  cases startMove_of_stepStart? hstep with
  | refuse active hunlocked hfound =>
      rcases hp.calls with hwaits | ⟨d, other, next', henters⟩
      · rw [hwaits.active_eq] at hfound
        cases hfound
      · rw [henters.active_eq] at hfound
        cases hfound
  | acquire =>
      exact .entering past .enter hq hactive (fun h => by cases h) (getElem?_of_set_calls hcall rfl)
        hallowed
  | enter hfound =>
      exact .entering past .scan hq hactive (fun _ => hisOpen hfound)
        (getElem?_of_set_calls hcall rfl) hallowed
  | closed hfound =>
      exact .returned _ (getElem?_of_set_calls hcall rfl) (.closed hactive hfound)
  | scanFault | scanError | scan => exact absurd rfl hnext
  | _ =>
      have henters := (hp.enters_of_call hcall (by simp)).next_eq
      simp at henters

theorem step?_entering {next : Starting} (hp : p.Between True handlers past)
    (hactive : origin.active = none) (hopen : next = .scan → origin.isOpen = true)
    (hisOpen : p.isOpen = true → origin.isOpen = true)
    (hallowed : ∀ failure, ¬ Denied more c failure)
    (hcall : p.calls[c]? = some (.start work.store work.rules work.block next)) :
    Begins handlers work origin c more q := by
  by_cases hactor : actor = .caller c
  · by_cases hscan : next = .scan
    · exact step?_scan hraises hstep hp hactive (hopen hscan) hallowed hactor (hscan ▸ hcall)
    · exact step?_acquiring hraises hstep hp hactive hisOpen hallowed hscan hactor hcall
  · have hstays := (getElem?_calls_of_step? hstep hactor).trans hcall
    rcases hp.step? (.of_clean hraises) hstep with
      ⟨hq, -⟩ | ⟨d, store, rules, block, plan, hd, rfl, -⟩
    · exact .entering past next hq hactive hopen hstays hallowed
    · -- the two calls cannot both be unsettled
      have hsame := (hp.enters_of_call hd (by simp)).minds.eq hcall rfl
      exact absurd (hsame ▸ rfl) hactor

theorem step? (hp : Begins handlers work origin c more p)
    (hisOpen : p.isOpen = true → origin.isOpen = true) :
    Begins handlers work origin c (more ++ [.act actor]) q := by
  have hstays (hallowed : ∀ failure, ¬ Denied more c failure) :
      ∀ failure, ¬ Denied (more ++ [.act actor]) c failure :=
    fun failure h => hallowed failure (h.of_append (by simp))
  cases hp with
  | blocked past other hp hactive hcall => exact step?_blocked hraises hstep hp hactive hcall
  | entering past next hp hactive hopen hcall hallowed =>
      exact step?_entering hraises hstep hp hactive hopen hisOpen (hstays hallowed) hcall
  | starting past next hp hactive hopen hallowed =>
      rcases hp.step?_starting (.of_clean hraises) hstep with ⟨next', hq⟩ | ⟨hq, hreturned⟩
      · exact .starting past next' hq hactive hopen (hstays hallowed)
      · exact .returned _ hreturned (.started hactive hopen
          (Work.violation?_of_accepted hp.accepted) (hstays hallowed))
  | returned outcome hcall hanswers =>
      obtain ⟨next, hnext, hturns⟩ := exists_turns_of_step? hstep hcall
      cases hturns
      exact .returned outcome hnext (hanswers.append (isOpen_of_step? hstep) (by simp))

end Step

/-- A call can be denied a thread when nothing is wrong with its block, and that is its answer. -/
theorem deny? {d : Nat} {reason : String} (hp : Begins handlers work origin c more p)
    (hdeny : p.deny? d reason = some q) :
    Begins handlers work origin c (more ++ [.deny d reason]) q := by
  cases hp with
  | blocked past other hp hactive hcall => cases (hp.deny?_eq_none d reason).symm.trans hdeny
  | starting past next hp hactive hopen hallowed =>
      cases (hp.deny?_eq_none d reason).symm.trans hdeny
  | entering past next hp hactive hopen hcall hallowed =>
      by_cases hd : d = c
      · subst hd
        have hreturned := getElem?_of_deny? hdeny
        cases denyMove_of_deny? hdeny with
        | deny store rules block decisions ledger log hscan hok =>
            rw [hcall] at hscan
            cases hscan
            obtain ⟨haccepted, -⟩ := scan_eq_ok hp.crew.handlers_eq hok
            exact .returned _ hreturned (.denied _ hactive (hopen rfl)
              (Work.violation?_of_accepted haccepted)
              ⟨reason, rfl, List.mem_append_right more List.mem_cons_self⟩)
      · exact .entering past next (hp.deny? hdeny) hactive hopen
          ((getElem?_calls_of_deny? hdeny (Ne.symm hd)).trans hcall)
          fun failure h => hallowed failure (h.of_append (by simp [hd]))
  | returned outcome hcall hanswers =>
      have hd : d ≠ c := by
        rintro rfl
        obtain ⟨_, _, _, hscan, -⟩ := turns_of_deny? hdeny
        rw [hcall] at hscan
        cases hscan
      exact .returned outcome ((getElem?_calls_of_deny? hdeny (Ne.symm hd)).trans hcall)
        (hanswers.append (fun hopen => isOpen_of_deny? hdeny ▸ hopen) (by simp [hd]))

theorem of_cleanRun? (hchronicle : Chronicle True handlers ts q)
    (hrun : q.cleanRun? (.call work.task :: more) = some r) :
    Begins handlers work q q.calls.length more r := by
  rw [cleanRun?] at hrun
  split at hrun
  swap
  · cases hrun
  rename_i hadmits
  refine cleanRun?_induction (P := fun more r => Begins handlers work q q.calls.length more r) hrun
    (begin hchronicle hadmits) (fun _ _ _ _ hp hadmits => hp.invoke hadmits) ?_
    fun _ _ _ _ _ _ hp hdeny => hp.deny? hdeny
  intro moves p actor next hrun hp hraises hstep
  refine hp.step? hraises hstep fun hopen => ?_
  exact isOpen_of_run? (p := q.invoke work.task) (run?_of_cleanRun? hrun) hopen

theorem answers (hp : Begins handlers work origin c more p)
    (hcall : p.calls[c]? = some (.returned (.started outcome))) :
    Answers work origin c more p outcome := by
  cases hp with
  | blocked past other hp hactive hcall' =>
      rw [hcall] at hcall'
      cases hcall'
  | entering past next hp hactive hopen hcall' hallowed =>
      rw [hcall] at hcall'
      cases hcall'
  | starting past next hp hactive hopen hallowed =>
      have hcall' := hp.call_eq
      rw [hcall] at hcall'
      cases hcall'
  | returned outcome' hcall' hanswers =>
      rw [hcall] at hcall'
      cases hcall'
      exact hanswers

end Begins

end Pipeline

end TxPipeline
