import TxPipeline.Proofs.Noninterference
import TxPipeline.Proofs.Outcomes

/-!
# Declined transactions come first

The call that starts a block announces the results of declined transactions one after the other, and
only then gives the jobs to the feeders. So whatever the workers do, a completion stream begins with
the results of the transactions that its handler declines, in their order. With one worker in the
process pool the other results follow in their order as well.
-/

namespace TxPipeline

variable {F : Flow} {calm : Prop} {handlers : List (Handler F)} {past : List (Work F)}
  {work : Work F} {phase phase' : Phase F} {p q : Pipeline F} {actor : Actor} {c h : Nat}
  {tx : IndexedTx} {mark : Bool}

/-! ## The two kinds of transactions -/

theorem Block.pairwise_indexed {block : Block} (hlen : block.length ≤ 2 ^ 32) :
    block.indexed.Pairwise (·.index < ·.index) := by
  rw [List.pairwise_iff_getElem]
  intro i j hi hj hij
  rwa [Block.index_of_getElem? hlen (List.getElem?_eq_getElem hi),
    Block.index_of_getElem? hlen (List.getElem?_eq_getElem hj)]

namespace Work

/-- The results of handler `h` for the transactions with this mark, in their order. -/
def resultsMarked (handlers : List (Handler F)) (work : Work F) (h : Nat) (mark : Bool) :
    List (TxResult F.Output) :=
  (work.markedBy handlers h mark).map (work.resultOf handlers h)

theorem mem_markedBy : tx ∈ work.markedBy handlers h mark ↔
    tx ∈ work.block.indexed ∧ (work.marks handlers tx)[h]? = some mark := by
  rw [markedBy, List.mem_filter, decide_eq_true_eq]

theorem completionsOf_eq_append (handlers : List (Handler F)) (work : Work F) (h : Nat) :
    work.completionsOf handlers h =
      work.resultsMarked handlers h false ++ work.resultsMarked handlers h true :=
  List.map_append

theorem pairwise_resultsMarked (hlen : work.block.length ≤ 2 ^ 32) (handlers : List (Handler F))
    (h : Nat) (mark : Bool) :
    (work.resultsMarked handlers h mark).Pairwise (·.index < ·.index) :=
  List.pairwise_map.mpr ((Block.pairwise_indexed hlen).filter _)

/-- Each transaction is either declined by a handler or one of its jobs. -/
theorem completionsOf_perm (haccepted : work.Accepted handlers) (hh : h < handlers.length) :
    (work.completionsOf handlers h).Perm (work.resultsOf handlers h) := by
  apply List.Perm.map
  refine List.perm_append_comm.trans (List.Perm.trans (List.Perm.of_eq ?_)
    (List.filter_append_perm (fun tx => (work.marks handlers tx)[h]? = some true) _))
  rw [markedBy, markedBy, List.append_cancel_left_eq]
  refine List.filter_congr fun tx ht => ?_
  have hlt : h < (work.marks handlers tx).length := by rwa [length_marks haccepted ht]
  rw [List.getElem?_eq_getElem hlt]
  cases (work.marks handlers tx)[h] <;> rfl

theorem resultOf_of_marked_false (ht : tx ∈ work.markedBy handlers h false) :
    work.resultOf handlers h tx = .declined tx := by
  have hjob : (⟨h, tx⟩ : Job) ∈ work.declined handlers := mem_declined.mpr (mem_markedBy.mp ht)
  exact resultOf_of_declined hjob

/-- A handler does not work on a transaction that it does not want, nor on one that cannot pay for
all handlers that want it. -/
theorem marked_false_iff {handler : Handler F} (hhandler : handlers[h]? = some handler)
    (haccepted : ∃ r, verdict handlers work.rules tx = .ok r) :
    (work.marks handlers tx)[h]? = some false ↔
      handler.gas tx work.rules = .ok none ∨ ¬ Funds handlers work.rules tx := by
  obtain ⟨r, hr⟩ := haccepted
  obtain ⟨answers, hanswers, hlimit⟩ := exists_answers_of_verdict hr
  have hasked := congrArg (·[h]?) hanswers
  simp only [List.getElem?_map, hhandler, Option.map_some] at hasked
  obtain ⟨answer, hanswer, hgas⟩ := Option.map_eq_some_iff.mp hasked.symm
  by_cases hcost : Gas.exactCost answers ≤
      tx.tx.gasLimit.toNat - Gas.exactIntrinsicOf tx.tx work.rules
  · have hfunds : Funds handlers work.rules tx := ⟨answers, hanswers, hlimit, hcost⟩
    rw [marks, verdict_of_funded hanswers hlimit hcost, List.getElem?_map, hanswer, ← hgas]
    cases answer <;> simp [hfunds]
  · have hfunds : ¬ Funds handlers work.rules tx := by
      rintro ⟨others, hothers, -, hpaid⟩
      rw [hanswers] at hothers
      obtain rfl := List.map_injective_iff.mpr (fun _ _ => Except.ok.inj) hothers
      exact hcost hpaid
    rw [marks, verdict_of_unfunded hanswers hlimit (Nat.not_le.mp hcost),
      List.getElem?_replicate, if_pos (List.getElem?_eq_some_iff.mp hhandler).1]
    simp [hfunds]

end Work

/-! ## Declined first -/

namespace Pipeline

/-- What was announced of a handler, with what the call still has ahead, begins with all that the
handler declines. -/
def DeclinedFirst (handlers : List (Handler F)) (work : Work F) (lane : Nat) (phase : Phase F)
    (p : Pipeline F) : Prop :=
  ∀ (h : Nat) (s : Station F), p.stations[h]? = some s →
    (work.declined handlers).filter (·.handler = h) <+:
      ((s.announcedIn lane).map fun r => Job.mk h r.tx) ++ phase.ahead.filter (·.handler = h)

theorem DeclinedFirst.of_opening {plan : Plan}
    (hp : p.During calm handlers past work (.starting c (.opening plan 0))) :
    p.DeclinedFirst handlers work past.length (.starting c (.opening plan 0)) := by
  intro h s hs
  have horder := InOrder.of_opening hp h s hs
  rw [Phase.lineup, line_eq_nil (hp.load_eq_zero (by simp) _), List.append_nil] at horder
  rw [horder, List.filter_append]
  exact List.prefix_append _ _

/-- When nothing but jobs is ahead, all declined transactions have been announced. -/
theorem DeclinedFirst.of_dispatching {plan : Plan} {s : Station F}
    (hfirst : p.DeclinedFirst handlers work past.length (.starting c (.dispatching plan)))
    (hp : p.During calm handlers past work (.starting c (.dispatching plan)))
    (hs : p.stations[h]? = some s) :
    (work.declined handlers).filter (·.handler = h) <+:
      (s.announcedIn past.length).map fun r => Job.mk h r.tx := by
  obtain rfl : plan = work.plan handlers past.length := hp.valid
  have hall := hp.announced_add_outstanding hs
  rw [← Phase.coe_lineup, Phase.lineup, line_eq_nil (hp.load_eq_zero (by simp) _),
    List.append_nil, ← Work.filter_declined_add_jobs hp.accepted hp.length_le
      (hp.crew.lt_of_station hs), Multiset.filter_add] at hall
  have hcard := congrArg Multiset.card (add_right_cancel hall)
  rw [Multiset.filter_coe, Multiset.coe_card, Multiset.coe_card] at hcard
  exact List.prefix_of_prefix_length_le (hfirst h s hs) (List.prefix_append _ _) hcard.ge

theorem DeclinedFirst.advance (hfirst : p.DeclinedFirst handlers work past.length phase)
    (hp : p.During calm handlers past work phase) (hq : q.During calm handlers past work phase')
    (hstep : p.step? actor = some q)
    (hadvance : Advance work past.length p actor q phase phase') :
    q.DeclinedFirst handlers work past.length phase' := by
  intro h s' hs'
  obtain ⟨s, hs, hturns⟩ := exists_turned_station hstep hs'
  have hnow := hfirst h s hs
  have hgrows : ((s.announcedIn past.length).map fun r => Job.mk h r.tx) <+:
      (s'.announcedIn past.length).map fun r => Job.mk h r.tx :=
    (hturns.prefix_announcedIn past.length).map _
  have hstays (hnil : phase.ahead = []) : (work.declined handlers).filter (·.handler = h) <+:
      ((s'.announcedIn past.length).map fun r => Job.mk h r.tx) ++
        phase'.ahead.filter (·.handler = h) := by
    rw [hnil, List.filter_nil, List.append_nil] at hnow
    exact (hnow.trans hgrows).trans (List.prefix_append _ _)
  -- while no job is dispatched, what leaves the call is announced
  have hmoves (gone : List Job) (hgone : gone.length ≤ 1)
      (hahead : phase.ahead = gone ++ phase'.ahead) (hline : p.line = []) (hline' : q.line = []) :
      (work.declined handlers).filter (·.handler = h) <+:
        ((s'.announcedIn past.length).map fun r => Job.mk h r.tx) ++
          phase'.ahead.filter (·.handler = h) := by
    have hlineup : phase.lineup p = gone ++ phase'.lineup q := by
      rw [Phase.lineup, Phase.lineup, hline, hline', List.append_nil, List.append_nil, hahead]
    rw [hp.map_announcedIn hq hs hs' hturns hgone hlineup, List.append_assoc,
      ← List.filter_append, ← hahead]
    exact hnow
  cases hadvance with
  | thread | aside =>
      by_cases hnil : phase.ahead = []
      · exact hstays hnil
      · exact hmoves [] (Nat.zero_le 1) rfl (hp.ahead_or_line.resolve_left hnil)
          (hq.ahead_or_line.resolve_left hnil)
  | activate | take | finish => exact hstays rfl
  | start i next next' _ hmove hnext =>
      rcases hp.ahead_of_startMove hmove hnext with
        ⟨plan, rfl, rfl, -⟩ | ⟨-, hbefore, hafter, gone, hgone, hahead⟩
      · exact ((hfirst.of_dispatching hp hs).trans hgrows).trans (List.prefix_append _ _)
      · exact hmoves gone hgone hahead (line_eq_nil (hp.load_eq_zero hbefore _))
          (line_eq_nil (hq.load_eq_zero hafter _))

/-- That declined transactions come first is kept from the moment when a block comes into work.
Nothing has to be read off the run for it. -/
theorem carries_declinedFirst (calm : Prop) (handlers : List (Handler F)) (work : Work F)
    (c : Nat) : Carries calm handlers work c (fun _ _ => ([] : List Unit)) fun past phase p _ =>
      p.DeclinedFirst handlers work past.length phase where
  rest := fun _ _ _ => rfl
  begin := fun hp => .of_opening hp
  invoke := fun _ hr => hr
  advance := fun hp hq _ hstep hadvance hr => hr.advance hp hq hstep hadvance

/-! ## The shape of a completion stream -/

/-- The results of handler `h`, which is `handler`: those of the transactions it declines, and those
of the transactions it works on. -/
structure Divides (q : Pipeline F) (handlers : List (Handler F)) (work : Work F) (h : Nat)
    (handler : Handler F) (declined dispatched : List (TxResult F.Output)) : Prop where
  ineligible : ∀ tx, tx ∈ declined.map (·.tx) ↔
    tx ∈ work.block.indexed ∧ q.eligibility work.rules tx h = .ok (some false)
  eligible : ∀ tx, tx ∈ dispatched.map (·.tx) ↔
    tx ∈ work.block.indexed ∧ q.eligibility work.rules tx h = .ok (some true)
  /-- Either the handler does not want the transaction, or that cannot pay for all handlers. -/
  reason : ∀ tx ∈ work.block.indexed, (q.eligibility work.rules tx h = .ok (some false) ↔
    handler.gas tx work.rules = .ok none ∨ ¬ Funds handlers work.rules tx)
  increasing : declined.Pairwise (·.index < ·.index) ∧ dispatched.Pairwise (·.index < ·.index)
  declined_output : ∀ r ∈ declined, r.output = none
  dispatched_output : ∀ r ∈ dispatched, ∀ common,
    handler.beforeBlock work.store work.rules work.block = .ok common →
    r.output =
      match handler.prefetch work.store r.tx common with
      | .error _ => none
      | .ok data =>
          match handler.process work.store r.tx common data with
          | .error _ => none
          | .ok output => some output

/-- What was sent begins with `declined` and goes on, when all of it was sent, with some of
`dispatched`. -/
def BeginsWith {α : Type} (declined dispatched sent : List α) : Prop :=
  sent <+: declined ∨
    ∃ rest missing, sent = declined ++ rest ∧ (rest ++ missing).Perm dispatched

variable {s : Station F} {l : Lane F}

theorem During.divides {handler : Handler F} (hq : q.During calm handlers past work phase)
    (hhandler : handlers[h]? = some handler) :
    Divides q handlers work h handler (work.resultsMarked handlers h false)
      (work.resultsMarked handlers h true) := by
  have hmem (mark : Bool) (tx : IndexedTx) :
      tx ∈ (work.resultsMarked handlers h mark).map (·.tx) ↔
        tx ∈ work.block.indexed ∧ q.eligibility work.rules tx h = .ok (some mark) := by
    rw [Work.resultsMarked, List.map_map, show TxResult.tx ∘ work.resultOf handlers h = id from rfl,
      List.map_id, Work.mem_markedBy]
    exact and_congr_right fun ht => by rw [hq.eligibility_eq ht, Except.ok.injEq]
  refine ⟨hmem false, hmem true, fun tx ht => ?_, ?_, fun r hr => ?_, fun r hr common hcommon => ?_⟩
  · rw [hq.eligibility_eq ht, Except.ok.injEq, Work.marked_false_iff hhandler (hq.accepted tx ht)]
  · exact ⟨Work.pairwise_resultsMarked hq.length_le _ _ _,
      Work.pairwise_resultsMarked hq.length_le _ _ _⟩
  · obtain ⟨tx, ht, rfl⟩ := List.mem_map.mp hr
    rw [Work.resultOf_of_marked_false ht]
    rfl
  · obtain ⟨tx, ht, rfl⟩ := List.mem_map.mp hr
    have hjob : (⟨h, tx⟩ : Job) ∈ work.jobs handlers :=
      Work.mem_jobs.mpr (Work.mem_markedBy.mp ht)
    rw [Work.resultOf_of_job hjob]
    exact Work.outputOf_eq tx hhandler hcommon

theorem During.map_resultOf (hq : q.During calm handlers past work phase)
    (hs : q.stations[h]? = some s) (hl : s.lanes[past.length]? = some l) :
    (l.completions.sent.map fun r => Job.mk h r.tx).map
      (fun job => work.resultOf handlers h job.tx) = l.completions.sent := by
  rw [List.map_map]
  exact hq.map_resultOf_sent hs hl

theorem Work.map_resultOf_declined (handlers : List (Handler F)) (work : Work F) (h : Nat) :
    ((work.declined handlers).filter (·.handler = h)).map
      (fun job => work.resultOf handlers h job.tx) = work.resultsMarked handlers h false := by
  rw [Work.resultsMarked, ← Work.map_tx_filter_decisions, List.map_map]
  rfl

namespace DeclinedFirst

variable (hfirst : q.DeclinedFirst handlers work past.length phase)
  (hq : q.During calm handlers past work phase) (hs : q.stations[h]? = some s)
  (hl : s.lanes[past.length]? = some l)

include hfirst hq hs hl

/-- Once nothing is ahead of the call that starts the block, all declined transactions have been
announced. -/
theorem prefix_sent (hahead : phase.ahead = []) :
    work.resultsMarked handlers h false <+: l.completions.sent := by
  have hprefix := hfirst h s hs
  rw [Station.announcedIn_eq hl, hahead, List.filter_nil, List.append_nil] at hprefix
  have hresults := hprefix.map fun job => work.resultOf handlers h job.tx
  rwa [hq.map_resultOf hs hl, Work.map_resultOf_declined] at hresults

theorem beginsWith : BeginsWith (work.resultsMarked handlers h false)
    (work.resultsMarked handlers h true) l.completions.sent := by
  have hprefix := (hfirst h s hs).map fun job => work.resultOf handlers h job.tx
  rw [Station.announcedIn_eq hl, List.map_append, hq.map_resultOf hs hl,
    Work.map_resultOf_declined] at hprefix
  rcases List.prefix_or_prefix_of_prefix (List.prefix_append l.completions.sent _) hprefix with
    hsent | ⟨rest, hsent⟩
  · exact .inl hsent
  · obtain ⟨missing, hperm⟩ := (hq.covers hs hl).completed
    refine .inr ⟨rest, missing, hsent.symm, ?_⟩
    have hall := hperm.trans (Work.completionsOf_perm hq.accepted (hq.crew.lt_of_station hs)).symm
    rw [← hsent, Work.completionsOf_eq_append, List.append_assoc] at hall
    exact (List.perm_append_left_iff _).mp hall

/-- When nothing is to be announced any more, nothing but the order of the jobs is open. -/
theorem exists_perm_of_remaining (hzero : s.remaining = 0) :
    ∃ rest, l.completions.sent = work.resultsMarked handlers h false ++ rest ∧
      rest.Perm (work.resultsMarked handlers h true) := by
  have hall := ((hq.covers hs hl).perm_of_remaining hzero).trans
    (Work.completionsOf_perm hq.accepted (hq.crew.lt_of_station hs)).symm
  rw [Work.completionsOf_eq_append] at hall
  obtain ⟨rest, hrest⟩ : work.resultsMarked handlers h false <+: l.completions.sent := by
    rcases hfirst.beginsWith hq hs hl with hsent | ⟨rest, -, hsent, -⟩
    · have hlength := hall.length_eq
      rw [List.length_append] at hlength
      rw [hsent.eq_of_length_le (by omega)]
    · exact ⟨rest, hsent.symm⟩
  rw [← hrest] at hall
  exact ⟨rest, hrest.symm, (List.perm_append_left_iff _).mp hall⟩

end DeclinedFirst

/-- Whoever reads the streams of a block does so after the call has dispatched its jobs. -/
theorem During.ahead_eq_nil_of_reaches {reader : Reader (TxResult F.Output) F.Aggregate}
    (hq : q.During calm handlers past work phase) (hs : q.stations[h]? = some s)
    (hl : s.lanes[past.length]? = some l) (hreaches : s.Reaches l reader) : phase.ahead = [] := by
  cases phase with
  | starting d next =>
      by_cases hnext : ∀ plan, next ≠ .activating plan
      · have hidle := (hq.aggregation_of_starting hnext hs).2 l.aggregation
          (by rw [Station.aggregation?, hl, Option.map_some])
        cases hreaches <;> simp_all
      · push Not at hnext
        obtain ⟨plan, rfl⟩ := hnext
        rfl
  | _ => rfl

/-! ## In a run -/

variable {config : Config} {registry : Registry F} {moves : List (Move F)}

/-- A call that has returned has nothing ahead. -/
theorem During.ahead_eq_nil_of_returned (hq : q.During calm handlers past work phase)
    (hcreate : create config registry = .ok p) (hrun : p.cleanRun? moves = some q)
    (htask : (tasks moves)[c]? = some work.task) (hwork : q.InWork c)
    (hreturned : q.calls[c]? = some (.returned (.started (.ok ())))) : phase.ahead = [] := by
  cases phase with
  | starting d next =>
      exfalso
      have hlocked : q.locked = true := hq.calls.1
      -- the lock says that a call is starting the block, and it is not this one
      obtain ⟨past', phase', hq', hstarting, -⟩ := exists_phase work hcreate hrun htask hwork
      cases phase' with
      | starting e next' =>
          obtain rfl := hstarting e next' rfl
          rw [hq'.call_eq] at hreturned
          cases hreturned
      | started => simp [hq'.calls.unlocked] at hlocked
      | finishing => simp [hq'.calls.1] at hlocked
      | abandoned => simp [hq'.calls.unlocked] at hlocked
  | _ => rfl

/-- The shape of a completion stream. It begins with the results of the transactions that the
handler declines, in their order, and nothing that was dispatched comes before these are complete;
they are when the call that starts the block returns, and when anybody reads the stream. With one
worker in the process pool the results of what was dispatched follow in their order as well, those
of jobs that have failed included. -/
theorem declined_come_first (hcreate : create config registry = .ok p)
    (hrun : p.cleanRun? moves = some q) (htask : (tasks moves)[c]? = some work.task)
    (hwork : q.InWork c) (hs : q.stations[h]? = some s) (hl : s.lanes[q.lastLane]? = some l) :
    ∃ declined dispatched : List (TxResult F.Output),
      Divides q registry.handlers work h s.handler declined dispatched ∧
      BeginsWith declined dispatched l.completions.sent ∧
      (q.calls[c]? = some (.returned (.started (.ok ()))) → declined <+: l.completions.sent) ∧
      (s.remaining = 0 →
        ∃ rest, l.completions.sent = declined ++ rest ∧ rest.Perm dispatched) ∧
      (config.processWorkers = 1 → l.completions.sent <+: declined ++ dispatched ∧
        (s.remaining = 0 → l.completions.sent = declined ++ dispatched)) ∧
      ∀ reader, s.Reaches l reader → ∃ common rest i j,
        s.handler.beforeBlock work.store work.rules work.block = .ok common ∧
        l.completions.sent <+: declined ++ rest ∧ rest.Perm dispatched ∧
        (config.processWorkers = 1 → rest = dispatched) ∧
        Reader.Follows (work.resultsOf registry.handlers h) (declined ++ rest)
          (s.handler.postProcess common work.block.length) reader i j := by
  obtain ⟨past, phase, hq, -, hfirst⟩ := (Course.since_cleanRun? hcreate
    (carries_declinedFirst True registry.handlers work c) hrun htask).exists_reading hwork
  have hlone (hone : config.processWorkers = 1) := completions_of_lone hcreate hone hrun htask hwork
    hs hl
  simp only [Work.completionsOf_eq_append] at hlone
  rw [hq.lastLane_eq] at hl
  have hhandler : registry.handlers[h]? = some s.handler := by
    rw [hq.crew.getElem?_handlers, hs, Option.map_some]
  have hperm := Work.completionsOf_perm hq.accepted (hq.crew.lt_of_station hs)
  rw [Work.completionsOf_eq_append] at hperm
  refine ⟨_, _, hq.divides hhandler, hfirst.beginsWith hq hs hl, fun hreturned => ?_,
    hfirst.exists_perm_of_remaining hq hs hl, hlone, fun reader hreaches => ?_⟩
  · exact hfirst.prefix_sent hq hs hl
      (hq.ahead_eq_nil_of_returned hcreate hrun htask hwork hreturned)
  -- what is still to be announced comes in any order, or in that of the jobs
  obtain ⟨rest, hsent, hrest, hone⟩ : ∃ rest,
      l.completions.sent <+: work.resultsMarked registry.handlers h false ++ rest ∧
      rest.Perm (work.resultsMarked registry.handlers h true) ∧
      (config.processWorkers = 1 → rest = work.resultsMarked registry.handlers h true) := by
    by_cases hone : config.processWorkers = 1
    · exact ⟨_, (hlone hone).1, List.Perm.refl _, fun _ => rfl⟩
    · obtain ⟨rest, hrest⟩ :=
        hfirst.prefix_sent hq hs hl (hq.ahead_eq_nil_of_reaches hs hl hreaches)
      obtain ⟨missing, hall⟩ := (hq.covers hs hl).completed
      refine ⟨rest ++ missing, ?_, ?_, fun h => absurd h hone⟩
      · rw [← hrest]
        exact (List.prefix_append_right_inj _).mpr (List.prefix_append _ _)
      · have hall := hall.trans hperm.symm
        rw [← hrest, List.append_assoc] at hall
        exact (List.perm_append_left_iff _).mp hall
  have hlength : (work.resultsMarked registry.handlers h false ++ rest).length =
      work.block.length :=
    (((List.perm_append_left_iff _).mpr hrest).trans hperm).length_eq.trans
      (Work.length_resultsOf _ _ _)
  obtain ⟨common, i, j, hcommon, hfollows⟩ := hq.follows_of_isPrefix hs hl hreaches hsent hlength
  exact ⟨common, rest, i, j, hcommon, hsent, hrest, hone, hfollows⟩

open Sample in
/-- The second transaction of the block is declined, so its result comes first. -/
theorem declined_come_first_started : ∃ q s l declined dispatched,
    (ofConfig oneEach adders).cleanRun? started = some q ∧ q.InWork 0 ∧
    q.stations[0]? = some s ∧ s.lanes[q.lastLane]? = some l ∧ s.remaining = 0 ∧
    Divides q adders.handlers ⟨(3 : Nat), .latest, pair⟩ 0 s.handler declined dispatched ∧
    l.completions.sent = declined ++ dispatched ∧
    l.completions.sent.map (·.index) = [1, 0] := by
  obtain ⟨q, hrun, hwork, s, hs, hzero, l, hl, hindex⟩ : ∃ q,
      (ofConfig oneEach adders).cleanRun? started = some q ∧ q.InWork 0 ∧
        ∃ s, q.stations[0]? = some s ∧ s.remaining = 0 ∧
          ∃ l, s.lanes[q.lastLane]? = some l ∧
            l.completions.sent.map (·.index) = [1, 0] := by
    decide +kernel
  have htask : (tasks started)[0]? = some (Work.task ⟨(3 : Nat), .latest, pair⟩) := rfl
  obtain ⟨declined, dispatched, hdivides, -, -, -, hone, -⟩ :=
    declined_come_first (show create oneEach adders = .ok _ from rfl) hrun htask hwork hs hl
  exact ⟨q, s, l, declined, dispatched, hrun, hwork, hs, hl, hzero, hdivides, (hone rfl).2 hzero,
    hindex⟩

end Pipeline

end TxPipeline
