import TxPipeline.Proofs.Admission.Answers
import TxPipeline.Proofs.Gathering

/-!
# A call to start a block returns

As long as a call to start a block has not returned, it can move, or somebody can whose copy of the
store it waits for. Of these moves there are only so many.
-/

namespace TxPipeline

/-! ## Distributions -/

namespace Snapshot

variable {S : Type}

/-- How many moves a distribution and its receivers still have to make. -/
def Distribution.effort (relay : Relay S) : Distribution → Nat
  | .publish => 3 * relay.receivers.length + 4
  | .release => 3 * relay.receivers.length + 3
  | .collect left => relay.effort + left + 2
  | .withdraw => 1

theorem Relay.Distributes.effort_distribute? {relay relay' : Relay S} {store : S}
    {next : Distribution} {rest : Option Distribution} (h : relay.Distributes store next)
    (hlen : relay.receivers.length = relay.distributor.workers)
    (hs : relay.distribute? store next = some (relay', rest)) :
    match rest with
    | some rest => rest.effort relay' < next.effort relay
    | none => 0 < next.effort relay := by
  cases next with
  | publish =>
      cases hs
      exact Nat.lt_succ_self _
  | release =>
      cases hs
      have hle := Relay.effort_le
        ({ relay with distributor := relay.distributor.release } : Relay S)
      simp only [Distribution.effort, ← hlen] at hle ⊢
      omega
  | collect left =>
      cases left with
      | zero =>
          cases hs
          simp only [Distribution.effort]
          omega
      | succ n =>
          simp only [Relay.distribute?, Distributor.collect?] at hs
          split at hs <;> cases hs
          simp only [Distribution.effort]
          exact Nat.lt_succ_self _
  | withdraw =>
      cases hs
      exact Nat.one_pos

end Snapshot

/-! ## Calls -/

variable {F : Flow} {S : Type}

/-- How many moves a call to start a block, of which `declined` pieces of work are declined, and
those it waits for still have to make. -/
def Starting.effort (relay : Snapshot.Relay S) (handlers declined : Nat) : Starting → Nat
  | .acquire => handlers + 3 * relay.receivers.length + 2 * declined + 12
  | .enter => handlers + 3 * relay.receivers.length + 2 * declined + 11
  | .scan => handlers + 3 * relay.receivers.length + 2 * declined + 10
  | .opening _ h => (handlers - h) + 3 * relay.receivers.length + 2 * declined + 9
  | .distributing _ next => next.effort relay + 2 * declined + 4
  | .preparing _ => 2 * declined + 4
  | .declining _ rest => 2 * rest.length + 3
  | .settling _ _ rest => 2 * rest.length + 4
  | .dispatching _ => 2
  | .activating _ => 1

theorem Starting.effort_pos (relay : Snapshot.Relay S) (handlers declined : Nat)
    (next : Starting) : 0 < next.effort relay handlers declined := by
  cases next <;> simp only [Starting.effort] <;> omega

def Call.startEffort (relay : Snapshot.Relay S) (handlers declined : Nat) : Call F → Nat
  | .start _ _ _ next => next.effort relay handlers declined
  | _ => 0

/-- How many moves a call to start `work` and those it waits for can make on a pipeline with so many
workers. -/
def Work.startBound (handlers : List (Handler F)) (work : Work F) (workers : Nat) : Nat :=
  handlers.length + 3 * workers + 2 * (work.declined handlers).length + 12

/-- Whether the actor is the caller `c`, or takes a copy of the store. -/
def Actor.starts (c : Nat) : Actor → Bool
  | .caller d => d == c
  | .refresher _ => true
  | _ => false

namespace Pipeline

variable {handlers : List (Handler F)} {work : Work F} {past : List (Work F)}
  {p q r origin : Pipeline F} {c handlerCount declined : Nat} {actor : Actor}
  {more : List (Move F)} {store : F.Store} {rules : Rules} {block : Block} {next : Starting}

/-- Whether a move is one of caller `c`, or ends its call, or takes a copy of the store. -/
def Move.starts (c : Nat) : Move F → Bool
  | .act actor => actor.starts c
  | .call _ => false
  | .deny d _ => d == c

def startEffort (handlers declined c : Nat) (p : Pipeline F) : Nat :=
  ((p.calls[c]?).map (Call.startEffort p.relay handlers declined)).getD 0

theorem startEffort_eq (hcall : p.calls[c]? = some (.start store rules block next)) :
    p.startEffort handlerCount declined c = next.effort p.relay handlerCount declined := by
  rw [startEffort, hcall]
  rfl

/-- Every move of a call to start a block brings it nearer to its end. -/
theorem startEffort_stepStart? (hcall : p.calls[c]? = some (.start store rules block next))
    (hlen : p.relay.receivers.length = p.relay.distributor.workers)
    (hdistributes : ∀ plan d, next = .distributing plan d → p.relay.Distributes store d)
    (hdeclined : ∀ plan, next = .preparing plan → plan.declined.length ≤ declined)
    (hstep : p.stepStart? c store rules block next = some q) :
    q.startEffort p.stations.length declined c < p.startEffort p.stations.length declined c := by
  rw [startEffort_eq hcall]
  have hset {call : Call F} (hcalls : q.calls = p.calls.set c call) :
      q.startEffort p.stations.length declined c =
        call.startEffort q.relay p.stations.length declined := by
    rw [startEffort, getElem?_of_set_calls hcall hcalls]
    rfl
  cases startMove_of_stepStart? hstep with
  | openStation plan h s hs =>
      have hlt := (List.getElem?_eq_some_iff.mp hs).1
      rw [hset rfl]
      simp only [Call.startEffort, Starting.effort]
      change p.stations.length - (h + 1) + 3 * p.relay.receivers.length + _ + _ < _
      omega
  | opened plan h hs =>
      rw [hset rfl]
      simp only [Call.startEffort, Starting.effort, Snapshot.Distribution.effort]
      change 3 * p.relay.receivers.length + 4 + _ + _ < _
      omega
  | distribute plan d rest relay hd =>
      have hlt := (hdistributes plan d rfl).effort_distribute? hlen hd
      rw [hset rfl]
      simp only [Call.startEffort, Starting.effort]
      change rest.effort relay + _ + _ < _
      dsimp only at hlt
      omega
  | distributed plan d relay hd =>
      have hlt := (hdistributes plan d rfl).effort_distribute? hlen hd
      rw [hset rfl]
      simp only [Call.startEffort, Starting.effort]
      dsimp only at hlt
      omega
  | prepare plan =>
      have hle := hdeclined plan rfl
      rw [hset rfl]
      simp only [Call.startEffort, Starting.effort]
      omega
  | refuse | closed | scanFault | scanError | announceFault | settleFault | activate =>
      rw [hset rfl]
      simp only [Call.startEffort, Starting.effort]
      omega
  | acquire | enter | scan | declined | skipAnnounce | announce | skipSettle | settle | dispatch =>
      rw [hset rfl]
      simp only [Call.startEffort, Starting.effort, List.length_cons]
      change _ < _
      first | omega | exact Nat.lt_succ_self _

/-- A call to start a block can move unless it waits for the lock or for a copy to be taken. -/
theorem stepStart?_isSome (hunlocked : next = .acquire → p.locked = false)
    (hreports : ∀ plan n, next = .distributing plan (.collect (n + 1)) →
      p.relay.distributor.reports ≠ 0) :
    (p.stepStart? c store rules block next).isSome = true := by
  cases next with
  | acquire =>
      simp only [stepStart?, hunlocked rfl]
      cases p.active <;> rfl
  | enter | scan | opening =>
      simp only [stepStart?]
      split <;> rfl
  | distributing plan d =>
      simp only [stepStart?]
      split
      · rename_i hnone
        cases d with
        | collect left =>
            cases left with
            | zero => cases hnone
            | succ n =>
                simp only [Snapshot.Relay.distribute?, Snapshot.Distributor.collect?] at hnone
                split at hnone
                · exact absurd ‹_› (hreports plan n rfl)
                · cases hnone
        | _ => cases hnone
      · rfl
      · rfl
  | declining plan rest =>
      cases rest with
      | nil => rfl
      | cons job rest =>
          simp only [stepStart?]
          split
          · rfl
          · split <;> rfl
  | settling plan job rest =>
      simp only [stepStart?]
      split
      · rfl
      · split <;> rfl
  | _ => rfl

/-- A worker without a job makes the moves of its receiver. -/
theorem refresh?_isSome {w : Nat} {worker : Worker F} (hw : p.workers[w]? = some worker)
    (hidle : worker.activity = .idle) (hmove : (p.relay.read? w).isSome = true ∨
      p.relay.read? w = none ∧ (p.relay.adopt? w).isSome = true) :
    (p.refresh? w).isSome = true := by
  obtain ⟨stage, activity⟩ := worker
  obtain rfl : activity = .idle := hidle
  simp only [Pipeline.refresh?, hw]
  rcases hmove with hread | ⟨hnone, hadopt⟩
  · obtain ⟨relay, hrelay⟩ := Option.isSome_iff_exists.mp hread
    rw [hrelay]
    rfl
  · rw [hnone]
    simpa using hadopt

/-- What a call that has come as far as `next` finds. -/
structure Underway (handlers : List (Handler F)) (work : Work F) (c : Nat) (next : Starting)
    (p : Pipeline F) : Prop where
  call : p.calls[c]? = some (.start work.store work.rules work.block next)
  crew : p.Crew handlers
  minds : p.Minds c
  unlocked : next = .acquire → p.locked = false
  distributes : ∀ plan d, next = .distributing plan d →
    p.relay.Distributes work.store d ∧ ∀ worker ∈ p.workers, worker.activity = .idle
  rests : (∃ plan d, next = .distributing plan d) ∨ ∃ copy, p.relay.Rests copy
  declined : ∀ plan, next = .preparing plan → plan.declined = work.declined handlers

/-- Every worker is waiting while a store is distributed. -/
theorem During.idle_of_distributing {plan : Plan} {d : Snapshot.Distribution} {worker : Worker F}
    (hp : p.During True handlers past work (.starting c (.distributing plan d)))
    (hworker : worker ∈ p.workers) : worker.activity = .idle := by
  rcases idle_or_over_of_unloaded (hp.load_eq_zero (by simp)) hworker with hidle | hover
  · exact hidle
  cases hactivity : worker.activity with
  | exited =>
      have hsenders := (hp.crew.exited worker hworker hactivity).1
      rw [hp.calls.2.2.2.2.1] at hsenders
      cases hsenders
  | dead fault => exact absurd hactivity (hp.crew.alive worker hworker fault)
  | _ => simp [hactivity, Activity.isOver] at hover

theorem During.underway (hp : p.During True handlers past work (.starting c next)) :
    Underway handlers work c next p where
  call := hp.call_eq
  crew := hp.crew
  minds := hp.call_minds
  unlocked := by
    rintro rfl
    exact hp.valid.elim
  distributes := by
    rintro plan d rfl
    exact ⟨hp.relay, fun worker hworker => hp.idle_of_distributing hworker⟩
  rests := by
    have hrelay := hp.relay
    cases next with
    | distributing plan d => exact .inl ⟨plan, d, rfl⟩
    | opening plan h => exact .inr hrelay
    | _ => exact .inr ⟨_, hrelay⟩
  declined := by
    rintro plan rfl
    have hvalid : plan = work.plan handlers past.length := hp.valid
    rw [hvalid]
    rfl

/-- Between two blocks nothing is distributed. -/
theorem Between.underway (hp : p.Between True handlers past)
    (hcall : p.calls[c]? = some (.start work.store work.rules work.block next)) :
    Underway handlers work c next p := by
  have hnext : next = .acquire ∧ p.Waits none ∨ p.Enters c work next := by
    rcases hp.calls with hwaits | ⟨d, other, next', henters⟩
    · exact .inl ⟨hwaits.eq_acquire hcall, hwaits⟩
    · refine .inr (hp.enters_of_call hcall ?_)
      obtain rfl := henters.minds.eq hcall rfl
      have hsame := (Call.start.inj (Option.some.inj (hcall.symm.trans henters.call))).2.2.2
      rw [hsame]
      rcases henters.next_eq with rfl | ⟨rfl, -⟩ <;> simp
  rcases hnext with ⟨rfl, hwaits⟩ | henters
  · exact ⟨hcall, hp.crew, hwaits.minds hcall rfl, fun _ => hwaits.unlocked,
      fun _ _ h => (by cases h), .inr hp.relay, fun _ h => (by cases h)⟩
  · rcases henters.next_eq with rfl | ⟨rfl, -⟩
    · exact ⟨hcall, hp.crew, henters.minds, fun h => (by cases h), fun _ _ h => (by cases h),
        .inr hp.relay, fun _ h => (by cases h)⟩
    · exact ⟨hcall, hp.crew, henters.minds, fun h => (by cases h), fun _ _ h => (by cases h),
        .inr hp.relay, fun _ h => (by cases h)⟩

theorem Begins.underway (hp : Begins handlers work origin c more p)
    (hcall : p.calls[c]? = some (.start store rules block next)) :
    Underway handlers work c next p := by
  cases hp with
  | blocked past other hp hactive hcall' =>
      obtain rfl : next = .acquire := by
        rw [hcall] at hcall'
        cases hcall'
        rfl
      exact ⟨hcall', hp.crew, hp.calls.minds hcall rfl, fun _ => hp.calls.unlocked,
        fun _ _ h => (by cases h), .inr ⟨_, hp.relay⟩, fun _ h => (by cases h)⟩
  | entering past next' hp hactive hopen hcall' hallowed =>
      rw [hcall] at hcall'
      cases hcall'
      exact hp.underway hcall
  | starting past next' hp hactive hopen hallowed =>
      have hcall' := hp.call_eq
      rw [hcall] at hcall'
      cases hcall'
      exact hp.underway
  | returned outcome hcall' hanswers =>
      rw [hcall] at hcall'
      cases hcall'

namespace Underway

variable (hp : Underway handlers work c next p)

include hp

theorem effort_caller (hstep : p.step? (.caller c) = some q) :
    q.startEffort handlers.length (work.declined handlers).length c <
      p.startEffort handlers.length (work.declined handlers).length c := by
  rw [step?_of_start hp.call] at hstep
  rw [← hp.crew.handlers_eq, List.length_map, hp.crew.handlers_eq]
  exact startEffort_stepStart? hp.call hp.crew.reports.symm
    (fun plan d h => (hp.distributes plan d h).1) (fun plan h => hp.declined plan h ▸ le_rfl) hstep

theorem effort_refresher {w : Nat} (hstep : p.step? (.refresher w) = some q) :
    q.startEffort handlers.length declined c < p.startEffort handlers.length declined c := by
  obtain ⟨relay, copies, rfl, hmove⟩ := eq_of_refresh? hstep
  rcases hp.rests with ⟨plan, d, rfl⟩ | ⟨copy, hrests⟩
  · rcases (hp.distributes plan d rfl).1.collects_or_still with ⟨left, rfl, hd⟩ | hstill
    · have hone : relay.effort + 1 = p.relay.effort :=
        hmove.elim hd.gathers.effort_read? hd.gathers.effort_adopt?
      rw [startEffort_eq hp.call, startEffort_eq (p := { p with relay, copies }) hp.call]
      simp only [Starting.effort, Snapshot.Distribution.effort]
      omega
    · exact absurd hmove hstill.not_move
  · exact absurd hmove hrests.still.not_move

/-- Nobody else brings the call on, or throws it back. -/
theorem effort_other (hactor : actor.starts c = false) (hstep : p.step? actor = some q) :
    q.startEffort handlers.length declined c = p.startEffort handlers.length declined c := by
  have hcalls : q.calls[c]? = p.calls[c]? := by
    refine getElem?_calls_of_step? hstep ?_
    rintro rfl
    simp [Actor.starts] at hactor
  have hrelay : q.relay = p.relay := by
    rcases thread_or_callMove hstep with hthread | ⟨d, rfl, hmove⟩
    · refine (frames_of_stepThread? hthread hstep).relay ?_
      rintro w rfl
      cases hactor
    have hne : d ≠ c := by simpa [Actor.starts] using hactor
    cases hmove with
    | start store rules block at' hd => cases hp.minds d _ hd hne
    | finish store block receipts at' hd hfinish =>
        obtain ⟨_, _, _, _, _, rfl⟩ := eq_of_stepFinish? hfinish
        rfl
    | close at' hd hclose =>
        obtain ⟨_, _, _, _, rfl⟩ := eq_of_stepClose? hclose
        rfl
  rw [startEffort, startEffort, hcalls, hrelay]

/-- The call can move, or somebody whose copy of the store it waits for. -/
theorem exists_move : ∃ actor : Actor, actor.starts c = true ∧ (p.step? actor).isSome = true := by
  by_cases hcollect : ∃ plan n, next = .distributing plan (.collect (n + 1)) ∧
      p.relay.distributor.reports = 0
  · obtain ⟨plan, n, rfl, hreports⟩ := hcollect
    obtain ⟨hd, hidle⟩ := hp.distributes plan _ rfl
    have hleft : n + 1 ≤ p.relay.distributor.workers :=
      hd.left_le.trans_eq hp.crew.reports.symm
    obtain ⟨w, hlt, hmove⟩ :=
      (Snapshot.Relay.Collects.gathers hd).exists_move hleft hreports
    rw [hp.crew.receivers] at hlt
    exact ⟨.refresher w, rfl, refresh?_isSome (List.getElem?_eq_getElem hlt)
      (hidle _ (List.getElem_mem hlt)) hmove⟩
  · refine ⟨.caller c, by simp [Actor.starts], ?_⟩
    rw [step?_of_start hp.call]
    exact stepStart?_isSome hp.unlocked fun plan n hnext hreports =>
      hcollect ⟨plan, n, hnext, hreports⟩

/-- A move that brings the call on is paid for with its effort. -/
theorem count_add_effort_step? (hstep : p.step? actor = some q) :
    [(.act actor : Move F)].countP (Move.starts c) +
        q.startEffort handlers.length (work.declined handlers).length c ≤
      p.startEffort handlers.length (work.declined handlers).length c := by
  rw [List.countP_singleton, Move.starts]
  cases hactor : actor.starts c with
  | false => simpa using (hp.effort_other hactor hstep).le
  | true =>
      have hlt : q.startEffort handlers.length (work.declined handlers).length c <
          p.startEffort handlers.length (work.declined handlers).length c := by
        cases actor with
        | caller d =>
            obtain rfl : d = c := by simpa [Actor.starts] using hactor
            exact hp.effort_caller hstep
        | refresher w => exact hp.effort_refresher hstep
        | _ => cases hactor
      rw [if_pos rfl, Nat.add_comm]
      exact hlt

end Underway

/-! ## Runs -/

namespace Begins

variable {ts : List (Task F)} (hchronicle : Chronicle True handlers ts q)
  (hrun : q.cleanRun? (.call work.task :: more) = some r)

include hchronicle hrun

/-- The moves that bring a call on are as many as its effort allows. -/
theorem count_add_effort_le
    (hcall : r.calls[q.calls.length]? = some (.start store rules block next)) :
    more.countP (Move.starts q.calls.length) +
        r.startEffort handlers.length (work.declined handlers).length q.calls.length ≤
      work.startBound handlers q.workers.length := by
  have hfirst : q.cleanRun? [.call work.task] = some (q.invoke work.task) := by
    rw [cleanRun?] at hrun ⊢
    split at hrun
    · rename_i hok
      rw [if_pos hok]
      rfl
    · cases hrun
  have hbegins {more : List (Move F)} {r : Pipeline F}
      (hmore : (q.invoke work.task).cleanRun? more = some r) :
      Begins handlers work q q.calls.length more r := by
    have hwhole : q.cleanRun? (.call work.task :: more) = some r := by
      rw [← List.singleton_append, cleanRun?_append, hfirst]
      exact hmore
    exact of_cleanRun? hchronicle hwhole
  rw [← List.singleton_append, cleanRun?_append, hfirst] at hrun
  have hmade {more : List (Move F)} {p : Pipeline F}
      (hmore : (q.invoke work.task).cleanRun? more = some p) : q.calls.length < p.calls.length := by
    have hlength := length_calls_of_run? (run?_of_cleanRun? hmore)
    rw [calls_invoke, List.length_append, List.length_singleton] at hlength
    omega
  refine cleanRun?_induction (P := fun more r => ∀ store rules block next,
    r.calls[q.calls.length]? = some (.start store rules block next) →
    more.countP (Move.starts q.calls.length) +
        r.startEffort handlers.length (work.declined handlers).length q.calls.length ≤
      work.startBound handlers q.workers.length) hrun ?_ ?_ ?_ ?_ store rules block next hcall
  · intro store rules block next hcall
    have hfirst : (q.invoke work.task).calls[q.calls.length]? =
        some (.start work.store work.rules work.block .acquire) := List.getElem?_concat_length
    have hcrew := hchronicle.crew
    rw [startEffort_eq hfirst, List.countP_nil, Nat.zero_add, Starting.effort, Work.startBound,
      ← hcrew.receivers]
    exact le_rfl
  · intro more p task hmore ih hadmits store rules block next hcall
    rw [List.countP_append, show [Move.call task].countP (Move.starts q.calls.length) = 0 from rfl,
      Nat.add_zero]
    rw [getElem?_invoke_of_lt (hmade hmore)] at hcall
    have hle := ih store rules block next hcall
    rw [startEffort_eq hcall] at hle
    rw [startEffort_eq (p := p.invoke task) (getElem?_append_calls hcall rfl)]
    exact hle
  · intro more p actor next' hmore ih hraises hstep store rules block next hcall
    obtain ⟨next₀, hold⟩ : ∃ next₀, p.calls[q.calls.length]? =
        some (.start store rules block next₀) := by
      obtain ⟨old, hold, hturns⟩ := exists_turned_of_step? hstep hcall
      cases hturns
      exact ⟨_, hold⟩
    have hle := ih store rules block next₀ hold
    have hmove := ((hbegins hmore).underway hold).count_add_effort_step? hstep
    rw [List.countP_append]
    omega
  · intro more p d reason next' hmore ih hdeny store rules block next hcall
    have hne : d ≠ q.calls.length := by
      rintro rfl
      rw [getElem?_of_deny? hdeny] at hcall
      cases hcall
    rw [getElem?_calls_of_deny? hdeny hne.symm] at hcall
    have hle := ih store rules block next hcall
    have hsame : next'.startEffort handlers.length (work.declined handlers).length
        q.calls.length = p.startEffort handlers.length (work.declined handlers).length
        q.calls.length := by
      have hcalls := getElem?_calls_of_deny? hdeny hne.symm
      obtain ⟨_, _, _, _, rfl⟩ := eq_of_deny? hdeny
      rw [startEffort, startEffort, hcalls]
    rw [List.countP_append, hsame]
    simpa [Move.starts, hne] using hle

/-- A call comes to its answer: as long as it has not returned, somebody can bring it on, and there
are only so many moves that do. -/
theorem answers_or_moves :
    (∃ outcome, r.calls[q.calls.length]? = some (.returned (.started outcome)) ∧
      Answers work q q.calls.length more r outcome) ∨
    (∃ actor : Actor, actor.starts q.calls.length = true ∧ (r.step? actor).isSome = true) ∧
      more.countP (Move.starts q.calls.length) < work.startBound handlers q.workers.length := by
  have hbegins := of_cleanRun? hchronicle hrun
  have hgoes {next : Starting}
      (hcall : r.calls[q.calls.length]? = some (.start work.store work.rules work.block next)) :
      (∃ actor : Actor, actor.starts q.calls.length = true ∧ (r.step? actor).isSome = true) ∧
        more.countP (Move.starts q.calls.length) < work.startBound handlers q.workers.length := by
    have hle := count_add_effort_le hchronicle hrun hcall
    have hpos := next.effort_pos r.relay handlers.length (work.declined handlers).length
    rw [startEffort_eq hcall] at hle
    exact ⟨(hbegins.underway hcall).exists_move, by omega⟩
  cases hbegins with
  | blocked past other hp hactive hcall => exact .inr (hgoes hcall)
  | entering past next hp hactive hopen hcall _ => exact .inr (hgoes hcall)
  | starting past next hp hactive hopen _ => exact .inr (hgoes hp.call_eq)
  | returned outcome hcall hanswers => exact .inl ⟨outcome, hcall, hanswers⟩

end Begins

end Pipeline

end TxPipeline
