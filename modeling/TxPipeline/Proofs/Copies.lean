import TxPipeline.Proofs.Activities
import TxPipeline.Proofs.Circulation
import TxPipeline.Proofs.Invariant.Run

/-!
# A copy for every job

Jobs are dispatched only after every worker has taken a copy of the store. In whatever order the
calls are made, and whatever the handlers raise, no worker ever has to work without a copy.
-/

namespace TxPipeline

variable {F : Flow}

/-- Whether a call that starts a block has got the lock on the active block. -/
def Starting.holdsLock : Starting → Bool
  | .acquire => false
  | _ => true

def Call.holdsLock : Call F → Bool
  | .start _ _ _ next => next.holdsLock
  | _ => false

/-- What the relay does for a call that starts a block with `store` and has come this far. -/
def Starting.Relays (relay : Snapshot.Relay F.Store) (store : F.Store) : Starting → Prop
  | .distributing _ next => relay.Distributes store next
  | .preparing _ => relay.Rests (some store)
  | .declining _ _ => relay.Rests (some store)
  | .settling _ _ _ => relay.Rests (some store)
  | .dispatching _ => relay.Rests (some store)
  | .activating _ => relay.Rests (some store)
  | _ => ∃ copy, relay.Rests copy

theorem Starting.Relays.distributing_or_rests {relay : Snapshot.Relay F.Store} {store : F.Store}
    {next : Starting} (h : next.Relays relay store) :
    (∃ plan d, next = .distributing plan d) ∨ ∃ copy, relay.Rests copy := by
  cases next with
  | distributing plan d => exact .inl ⟨plan, d, rfl⟩
  | acquire => exact .inr h
  | enter => exact .inr h
  | scan => exact .inr h
  | opening plan k => exact .inr h
  | preparing plan => exact .inr ⟨_, h⟩
  | declining plan rest => exact .inr ⟨_, h⟩
  | settling plan job rest => exact .inr ⟨_, h⟩
  | dispatching plan => exact .inr ⟨_, h⟩
  | activating plan => exact .inr ⟨_, h⟩

/-- Every receiver has a copy of some store. -/
def Snapshot.Relay.Stocked {S : Type} (relay : Snapshot.Relay S) : Prop :=
  ∀ r ∈ relay.receivers, r.copy.isSome = true

namespace Snapshot.Relay

variable {S : Type} {relay relay' : Relay S} {store : S} {next : Distribution} {w : Nat}

theorem Rests.stocked (h : relay.Rests (some store)) : relay.Stocked := by
  intro r hr
  rw [h.receivers r hr]
  rfl

theorem Stocked.read? (h : relay.Stocked) (hs : relay.read? w = some relay') : relay'.Stocked := by
  obtain ⟨hlt, -, -, rfl⟩ := eq_of_read? hs
  intro r hr
  rcases List.mem_or_eq_of_mem_set hr with hr | rfl
  · exact h r hr
  · exact h relay.receivers[w] (List.getElem_mem hlt)

theorem Stocked.adopt? (h : relay.Stocked) (hd : relay.Distributes store next)
    (hs : relay.adopt? w = some relay') : relay'.Stocked := by
  obtain ⟨hlt, source, signal, hholding, rfl⟩ := eq_of_adopt? hs
  obtain ⟨-, -, rfl, -⟩ := hd.of_holding (List.getElem_mem hlt) hholding
  intro r hr
  rcases List.mem_or_eq_of_mem_set hr with hr | rfl
  · exact h r hr
  · rfl

theorem Stocked.copy?_isSome (h : relay.Stocked) (hw : w < relay.receivers.length) :
    (relay.copy? w).isSome = true := by
  rw [Relay.copy?, List.getElem?_eq_getElem hw]
  exact h _ (List.getElem_mem hw)

end Snapshot.Relay

namespace Pipeline

variable {config : Config} {registry : Registry F} {p q : Pipeline F} {c w : Nat}
  {moves : List (Move F)} {store : F.Store} {rules : Rules} {block : Block} {next : Starting}

/-- At most one call holds the lock, and the relay does what that call is about. -/
inductive Governs (p : Pipeline F) : Prop
  | free (hlocked : p.locked = false)
      (hfree : ∀ (i : Nat) (call : Call F), p.calls[i]? = some call → call.holdsLock = false)
      (hrelay : ∃ copy, p.relay.Rests copy)
  | held (c : Nat) (store : F.Store) (rules : Rules) (block : Block) (next : Starting)
      (hlocked : p.locked = true)
      (hcall : p.calls[c]? = some (.start store rules block next))
      (hholds : next.holdsLock = true)
      (hothers : ∀ (i : Nat) (call : Call F), p.calls[i]? = some call → i ≠ c →
        call.holdsLock = false)
      (hrelay : next.Relays p.relay store)

theorem Governs.congr (h : p.Governs) (hcalls : q.calls = p.calls) (hlocked : q.locked = p.locked)
    (hrelay : q.relay = p.relay) : q.Governs := by
  cases h with
  | free hl hfree hrests =>
      exact .free (hlocked.trans hl) (fun i call hi => hfree i call (hcalls ▸ hi)) (hrelay ▸ hrests)
  | held c store rules block next hl hc hholds hothers hr =>
      exact .held c store rules block next (hlocked.trans hl) (hcalls ▸ hc) hholds
        (fun i call hi => hothers i call (hcalls ▸ hi)) (hrelay ▸ hr)

/-- No job is dispatched before every worker has a copy of a store, so none is ever stranded. -/
structure Grants (p : Pipeline F) : Prop where
  receivers : p.relay.receivers.length = p.workers.length
  reports : p.relay.receivers.length = p.relay.distributor.workers
  governs : p.Governs
  copies : p.relay.Stocked ∨ ∀ c, p.load c = 0
  alive : ∀ worker ∈ p.workers, ∀ stage i, worker.activity ≠ .dead (.beforeSnapshot stage i)

theorem grants_create (hcreate : create config registry = .ok p) : p.Grants := by
  obtain ⟨-, rfl⟩ := eq_ofConfig hcreate
  exact {
    receivers := by simp [ofConfig, Snapshot.Relay.ready, crew]
    reports := by simp [ofConfig, Snapshot.Relay.ready, Snapshot.Distributor.create]
    governs := .free rfl (fun i call hi => by simp [ofConfig] at hi)
      ⟨none, Snapshot.Relay.rests_ready _⟩
    copies := .inr (load_ofConfig config registry)
    alive := fun worker hworker stage i => by simp [mem_crew hworker] }

/-! ## Calls -/

/-- The call that has got the lock is the one that the relay works for. -/
theorem Governs.relays (h : p.Governs) (hcall : p.calls[c]? = some (.start store rules block next))
    (hholds : next.holdsLock = true) : p.locked = true ∧ next.Relays p.relay store ∧
      ∀ (i : Nat) (call : Call F), p.calls[i]? = some call → i ≠ c → call.holdsLock = false := by
  cases h with
  | free hlocked hfree hrelay =>
      have hnot : next.holdsLock = false := hfree c _ hcall
      rw [hholds] at hnot
      cases hnot
  | held d store' rules' block' next' hlocked hcall' hholds' hothers hrelay =>
      obtain rfl : c = d := by
        by_contra hne
        have hnot : next.holdsLock = false := hothers c _ hcall hne
        rw [hholds] at hnot
        cases hnot
      rw [hcall] at hcall'
      cases hcall'
      exact ⟨hlocked, hrelay, hothers⟩

/-- The calls and the relay go on, and the rest stays as it is. -/
theorem Grants.congr (h : p.Grants) (hgoverns : q.Governs)
    (hreceivers : q.relay.receivers = p.relay.receivers)
    (hreports : q.relay.distributor.workers = p.relay.distributor.workers)
    (hworkers : q.workers = p.workers)
    (hload : q.relay.Stocked ∨ ∀ c, q.load c = p.load c) : q.Grants where
  receivers := by rw [hreceivers, hworkers, h.receivers]
  reports := by rw [hreceivers, hreports, h.reports]
  governs := hgoverns
  copies := by
    rcases hload with hstocked | hload
    · exact .inl hstocked
    · refine h.copies.imp (fun hstocked => ?_) fun hzero c => (hload c).trans (hzero c)
      rw [Snapshot.Relay.Stocked, hreceivers]
      exact hstocked
  alive := hworkers ▸ h.alive

section Held

variable (h : p.Grants) (hcall : p.calls[c]? = some (.start store rules block next))

include h hcall

/-- The call with the lock goes on. -/
theorem Grants.turn {next' : Starting} (hholds : next.holdsLock = true)
    (hholds' : next'.holdsLock = true)
    (hcalls : q.calls = p.calls.set c (.start store rules block next'))
    (hlocked : q.locked = p.locked) (hrelay : next'.Relays q.relay store)
    (hreceivers : q.relay.receivers = p.relay.receivers)
    (hreports : q.relay.distributor.workers = p.relay.distributor.workers)
    (hworkers : q.workers = p.workers)
    (hload : q.relay.Stocked ∨ ∀ c, q.load c = p.load c) : q.Grants := by
  obtain ⟨hl, -, hothers⟩ := h.governs.relays hcall hholds
  refine h.congr (.held c store rules block next' (hlocked.trans hl)
    (getElem?_of_set_calls hcall hcalls) hholds' ?_ hrelay) hreceivers hreports hworkers hload
  intro i call hi hne
  rw [hcalls, getElem?_set_calls hcall, if_neg hne] at hi
  exact hothers i call hi hne

/-- The call with the lock returns and gives it back. -/
theorem Grants.release {outcome : Except Failure Unit} (hholds : next.holdsLock = true)
    (hcalls : q.calls = p.calls.set c (.returned (.started outcome))) (hlocked : q.locked = false)
    (hrelay : q.relay = p.relay) (hrests : ∃ copy, p.relay.Rests copy)
    (hworkers : q.workers = p.workers) (hload : ∀ c, q.load c = p.load c) : q.Grants := by
  obtain ⟨-, -, hothers⟩ := h.governs.relays hcall hholds
  refine h.congr (.free hlocked ?_ (hrelay ▸ hrests)) (by rw [hrelay]) (by rw [hrelay]) hworkers
    (.inr hload)
  intro i call hi
  rw [hcalls, getElem?_set_calls hcall] at hi
  split at hi
  · cases hi
    rfl
  · rename_i hne
    exact hothers i call hi hne

theorem Grants.acquire (hnext : next = .acquire)
    (hstep : p.stepStart? c store rules block next = some q) : q.Grants := by
  subst hnext
  cases startMove_of_stepStart? hstep with
  | refuse active hunlocked hactive =>
      cases h.governs with
      | held d store' rules' block' next' hl hc hh ho hr => simp [hunlocked] at hl
      | free hl hfree hrests =>
          refine h.congr (.free hl ?_ hrests) rfl rfl rfl (.inr fun _ => rfl)
          intro i call hi
          change (p.calls.set c _)[i]? = some call at hi
          rw [getElem?_set_calls hcall] at hi
          split at hi
          · cases hi
            rfl
          · exact hfree i call hi
  | acquire hunlocked hactive =>
      cases h.governs with
      | held d store' rules' block' next' hl hc hh ho hr => simp [hunlocked] at hl
      | free hl hfree hrests =>
          refine h.congr (.held c store rules block .enter rfl (getElem?_of_set_calls hcall rfl)
            rfl ?_ hrests) rfl rfl rfl (.inr fun _ => rfl)
          intro i call hi hne
          change (p.calls.set c _)[i]? = some call at hi
          rw [getElem?_set_calls hcall, if_neg hne] at hi
          exact hfree i call hi

theorem Grants.stepStart? (hstep : p.stepStart? c store rules block next = some q) : q.Grants := by
  by_cases hholds : next.holdsLock = true
  swap
  · refine h.acquire hcall ?_ hstep
    cases next <;> first | rfl | exact absurd rfl hholds
  obtain ⟨-, hrelay, -⟩ := h.governs.relays hcall hholds
  cases startMove_of_stepStart? hstep with
  | refuse | acquire => cases hholds
  | closed | scanFault | scanError =>
      exact h.release hcall rfl rfl rfl rfl hrelay rfl fun _ => rfl
  | scan =>
      exact h.turn hcall rfl rfl rfl rfl hrelay rfl rfl rfl (.inr fun c => load_addFeeders _ c)
  | distribute plan next rest relay hdistribute =>
      obtain ⟨hreceivers, hreports, hrest⟩ := hrelay.distribute? h.reports hdistribute
      exact h.turn hcall rfl rfl rfl rfl hrest hreceivers hreports rfl (.inr fun _ => rfl)
  | distributed plan next relay hdistribute =>
      obtain ⟨hreceivers, hreports, hrests⟩ := hrelay.distribute? h.reports hdistribute
      exact h.turn hcall rfl rfl rfl rfl hrests hreceivers hreports rfl (.inr fun _ => rfl)
  | announceFault | settleFault | activate =>
      exact h.release hcall rfl rfl rfl rfl ⟨_, hrelay⟩ rfl fun _ => rfl
  | dispatch plan =>
      -- only here do jobs come into being, and every worker has its copy by now
      exact h.turn hcall rfl rfl rfl rfl hrelay rfl rfl rfl
        (.inl (Snapshot.Relay.Rests.stocked hrelay))
  | _ => exact h.turn hcall rfl rfl rfl rfl hrelay rfl rfl rfl (.inr fun _ => rfl)

end Held

theorem Governs.set_other {call next : Call F} (h : p.Governs) (hcall : p.calls[c]? = some call)
    (hold : call.holdsLock = false) (hnew : next.holdsLock = false)
    (hcalls : q.calls = p.calls.set c next) (hlocked : q.locked = p.locked)
    (hrelay : q.relay = p.relay) : q.Governs := by
  have hget (i : Nat) (other : Call F) (hi : q.calls[i]? = some other)
      (hp : ∀ old, p.calls[i]? = some old → old.holdsLock = false) : other.holdsLock = false := by
    rw [hcalls, getElem?_set_calls hcall] at hi
    split at hi
    · cases hi
      exact hnew
    · exact hp other hi
  cases h with
  | free hl hfree hrests =>
      exact .free (hlocked.trans hl) (fun i other hi => hget i other hi (hfree i)) (hrelay ▸ hrests)
  | held d store rules block next' hl hd hholds hothers hr =>
      have hne : d ≠ c := by
        rintro rfl
        rw [hcall] at hd
        cases hd
        rw [show next'.holdsLock = false from hold] at hholds
        cases hholds
      refine .held d store rules block next' (hlocked.trans hl) ?_ hholds ?_ (hrelay ▸ hr)
      · rw [hcalls, getElem?_set_calls hcall, if_neg hne, hd]
      · intro i other hi hi'
        exact hget i other hi fun old hold => hothers i old hold hi'

theorem Grants.stepCall? (h : p.Grants) (hstep : p.stepCall? c = some q) : q.Grants := by
  unfold Pipeline.stepCall? at hstep
  split at hstep
  · rename_i store rules block next hcall
    exact h.stepStart? hcall hstep
  · rename_i store block receipts next hcall
    obtain ⟨turned, hturns, hcalls⟩ := turns_of_stepFinish? hstep
    have hnew : turned.holdsLock = false := by cases hturns <;> rfl
    obtain ⟨_, _, _, _, _, rfl⟩ := eq_of_stepFinish? hstep
    exact h.congr (h.governs.set_other hcall rfl hnew hcalls rfl rfl) rfl rfl rfl
      (.inr fun _ => rfl)
  · rename_i next hcall
    obtain ⟨turned, hturns, hcalls⟩ := turns_of_stepClose? hstep
    have hnew : turned.holdsLock = false := by cases hturns <;> rfl
    obtain ⟨_, _, _, _, rfl⟩ := eq_of_stepClose? hstep
    exact h.congr (h.governs.set_other hcall rfl hnew hcalls rfl rfl) rfl rfl rfl
      (.inr fun _ => rfl)
  · cases hstep

theorem Grants.deny? {reason : String} (h : p.Grants) (hdeny : p.deny? c reason = some q) :
    q.Grants := by
  cases denyMove_of_deny? hdeny with
  | deny store rules block decisions ledger log hcall hscan =>
      obtain ⟨-, hrelay, -⟩ := h.governs.relays hcall rfl
      exact h.release hcall rfl rfl rfl rfl hrelay rfl fun _ => rfl

theorem Grants.invoke (h : p.Grants) (task : Task F) : (p.invoke task).Grants := by
  have hfree : (Call.ofTask task).holdsLock = false := by cases task <;> rfl
  have hget (i : Nat) (call : Call F) (hi : (p.invoke task).calls[i]? = some call)
      (hp : p.calls[i]? = some call → call.holdsLock = false) : call.holdsLock = false := by
    rcases getElem?_of_invoke hi with hi | ⟨-, rfl⟩
    · exact hp hi
    · exact hfree
  refine h.congr ?_ rfl rfl rfl (.inr fun _ => rfl)
  cases h.governs with
  | free hl hnone hrests => exact .free hl (fun i call hi => hget i call hi (hnone i call)) hrests
  | held c store rules block next hl hc hholds hothers hr =>
      exact .held c store rules block next hl (getElem?_append_calls hc rfl) hholds
        (fun i call hi hne => hget i call hi fun hi => hothers i call hi hne) hr

/-! ## Threads -/

/-- Copies are taken only while a store is distributed. -/
theorem Governs.exists_distributes (h : p.Governs) (hmoves : ∀ copy, ¬ p.relay.Rests copy) :
    ∃ store d, p.relay.Distributes store d ∧ ∀ relay copies, relay.Distributes store d →
      ({ p with relay, copies } : Pipeline F).Governs := by
  cases h with
  | free hl hfree hrests =>
      obtain ⟨copy, hrests⟩ := hrests
      exact absurd hrests (hmoves copy)
  | held c store rules block next hl hc hholds hothers hr =>
      rcases hr.distributing_or_rests with ⟨plan, d, rfl⟩ | ⟨copy, hrests⟩
      · exact ⟨store, d, hr, fun relay copies hd =>
          .held c store rules block _ hl hc hholds hothers hd⟩
      · exact absurd hrests (hmoves copy)

theorem Grants.refresh? (h : p.Grants) (hstep : p.refresh? w = some q) : q.Grants := by
  obtain ⟨relay, copies, rfl, hmove⟩ := eq_of_refresh? hstep
  have hmoves (copy : Option F.Store) : ¬ p.relay.Rests copy := by
    intro hrests
    simp [hrests.read?, hrests.adopt?] at hmove
  obtain ⟨store, d, hd, hgoverns⟩ := h.governs.exists_distributes hmoves
  have hsizes : relay.receivers.length = p.relay.receivers.length ∧
      relay.distributor.workers = p.relay.distributor.workers :=
    hmove.elim Snapshot.Relay.sizes_of_read? Snapshot.Relay.sizes_of_adopt?
  exact {
    receivers := hsizes.1.trans h.receivers
    reports := by rw [hsizes.1, hsizes.2, h.reports]
    governs := hgoverns relay copies (hmove.elim hd.read? hd.adopt?)
    copies := h.copies.imp_left fun hstocked => hmove.elim hstocked.read? (hstocked.adopt? hd)
    alive := h.alive }

/-- As long as every worker has a copy, none is stranded. -/
theorem alive_of_employs {relay : Snapshot.Relay F.Store} {before after : List (Worker F)}
    (hemploys : Employs relay before after) (hstocked : relay.Stocked)
    (hlen : relay.receivers.length = before.length)
    (halive : ∀ worker ∈ before, ∀ stage i, worker.activity ≠ .dead (.beforeSnapshot stage i)) :
    ∀ worker ∈ after, ∀ stage i, worker.activity ≠ .dead (.beforeSnapshot stage i) := by
  intro worker' hworker' stage i
  obtain ⟨w, hw'⟩ := List.mem_iff_getElem?.mp hworker'
  obtain ⟨worker, hw, hturns⟩ := hemploys.2 w worker' hw'
  have hold := halive worker (List.mem_of_getElem? hw) stage i
  cases hturns with
  | stay => exact hold
  | accept stage' job hcopy => exact gatherOf_ne_dead _
  | leave => simp
  | strand stage' job hcopy =>
      have hlt := (List.getElem?_eq_some_iff.mp hw).1
      have hsome := hstocked.copy?_isSome (hlen ▸ hlt)
      rw [hcopy] at hsome
      cases hsome
  | work stage' h =>
      cases h with
      | die job fault hjob hfault =>
          intro heq
          exact hfault stage i (Activity.dead.inj heq)
      | _ => simp

/-- Without jobs, threads find nothing to do but to leave. -/
theorem workers_of_unloaded {actor : Actor} (hload : ∀ c, p.load c = 0)
    (hactor : ∀ c, actor ≠ .caller c) (hrefresh : ∀ w, actor ≠ .refresher w)
    (hstep : p.step? actor = some q) :
    ∀ worker ∈ q.workers, worker ∈ p.workers ∨ worker.activity = .exited := by
  have hstation {h : Nat} {move : Station F → Option (Station F)}
      (hstep : p.stepStation? h move = some q) :
      ∀ worker ∈ q.workers, worker ∈ p.workers ∨ worker.activity = .exited := by
    obtain ⟨s, s', -, -, rfl⟩ := eq_of_stepStation? hstep
    exact fun _ hworker => .inl hworker
  cases actor with
  | caller c => exact absurd rfl (hactor c)
  | refresher w => exact absurd rfl (hrefresh w)
  | receiver w =>
      obtain ⟨worker, hw, hidle, -, rfl⟩ := eq_exited_of_unloaded hload hstep
      intro other hother
      exact (mem_setActivity hw hother).imp_right fun heq => by rw [heq]
  | worker w =>
      change p.work? w = some q at hstep
      rw [work?_of_unloaded hload] at hstep
      cases hstep
  | feeder lane stage =>
      change p.feed? lane stage = some q at hstep
      rw [feed?_of_unloaded hload] at hstep
      cases hstep
  | handOver lane w =>
      change p.handOver? lane w = some q at hstep
      rw [handOver?_of_unloaded hload] at hstep
      cases hstep
  | preparation h lane => exact hstation hstep
  | replay h lane => exact hstation hstep
  | aggregation h lane => exact hstation hstep

theorem Grants.stepThread? {actor : Actor} (h : p.Grants) (hactor : ∀ c, actor ≠ .caller c)
    (hrefresh : ∀ w, actor ≠ .refresher w) (hstep : p.step? actor = some q) : q.Grants := by
  have hframes := frames_of_stepThread? hactor hstep
  have hrelay := hframes.relay hrefresh
  have hemploys := employs_of_step? hstep
  have hgoverns := h.governs.congr hframes.calls hframes.locked hrelay
  have hreceivers : q.relay.receivers.length = q.workers.length := by
    rw [hrelay, hemploys.1, h.receivers]
  rcases h.copies with hstocked | hload
  · exact ⟨hreceivers, hrelay ▸ h.reports, hgoverns, .inl (hrelay ▸ hstocked),
      alive_of_employs hemploys hstocked h.receivers h.alive⟩
  · refine ⟨hreceivers, hrelay ▸ h.reports, hgoverns, .inr fun c => ?_, ?_⟩
    · exact Multiset.le_zero.mp ((load_le_of_step? hactor hstep c).trans (hload c).le)
    intro worker hworker stage i
    rcases workers_of_unloaded hload hactor hrefresh hstep worker hworker with hold | hexited
    · exact h.alive worker hold stage i
    · simp [hexited]

theorem Grants.step? {actor : Actor} (h : p.Grants) (hstep : p.step? actor = some q) :
    q.Grants := by
  cases actor with
  | caller c => exact h.stepCall? hstep
  | refresher w => exact h.refresh? hstep
  | _ => exact h.stepThread? (by simp) (by simp) hstep

/-- Whatever is asked of a pipeline and whatever its handlers raise, no job is ever stranded. -/
theorem Grants.of_run? (hcreate : create config registry = .ok p) (hrun : p.run? moves = some q) :
    q.Grants :=
  run?_induction hrun (grants_create hcreate) (fun _ task hp => hp.invoke task)
    (fun _ _ _ hp hstep => hp.step? hstep) fun _ _ _ _ hp hdeny => hp.deny? hdeny

/-- A worker with a job in its hands has a copy of some store. -/
theorem Grants.copy?_isSome (h : p.Grants) {worker : Worker F} {job : Job}
    (hw : p.workers[w]? = some worker) (hjob : worker.activity.job? = some job) :
    (p.relay.copy? w).isSome = true := by
  have hlt := (List.getElem?_eq_some_iff.mp hw).1
  rcases h.copies with hstocked | hload
  · exact hstocked.copy?_isSome (h.receivers ▸ hlt)
  · rcases idle_or_over_of_unloaded hload (List.mem_of_getElem? hw) with hidle | hover
    · simp [hidle, Activity.job?] at hjob
    · cases hactivity : worker.activity <;> simp [hactivity, Activity.job?, Activity.isOver] at *

end Pipeline

end TxPipeline
