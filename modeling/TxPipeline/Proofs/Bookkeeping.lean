import TxPipeline.Proofs.Gathering
import TxPipeline.Proofs.Storage.History
import TxPipeline.Snapshot.Session

/-!
# The books of a distributor

Whoever serves a leader's requests could keep a book of them. What is pending, who is behind and
what each copy holds follows from the book alone, however few of the receivers behave like workers.
-/

namespace TxPipeline

namespace Snapshot

/-- A request and the reply to it. -/
structure Exchange where
  request : Request
  reply : Reply

namespace Exchange

/-- How many reports are made. -/
def reported : Exchange → Nat
  | ⟨.ready _, .reported⟩ => 1
  | ⟨.take _, .flag _⟩ => 1
  | ⟨.wait _, .flag _⟩ => 1
  | ⟨.distribute takers, .flags _⟩ => takers.length
  | _ => 0

/-- How often as many reports are counted as there are workers. -/
def counted : Exchange → Nat
  | ⟨.waitReady, .ready⟩ => 1
  | ⟨.distribute _, .flags _⟩ => 1
  | _ => 0

def distributes : Exchange → Bool
  | ⟨.distribute _, .flags _⟩ => true
  | _ => false

/-- Whether receiver `r` subscribes or takes. -/
def adopts (r : Nat) : Exchange → Bool
  | ⟨.subscribe, .number n⟩ => n == r
  | ⟨.take s, .flag _⟩ => s == r
  | ⟨.wait s, .flag _⟩ => s == r
  | ⟨.distribute takers, .flags _⟩ => takers.contains r
  | _ => false

/-- What is written to the copy of a receiver or, for `none`, to the store that is distributed. -/
def writes (target : Option Nat) : Exchange → List Write
  | ⟨.set r address key value, .number _⟩ => if r = target then [⟨address, key, value⟩] else []
  | _ => []

/-- Nothing happens that the book would have to tell. -/
structure Silent (e : Exchange) : Prop where
  reported : e.reported = 0
  counted : e.counted = 0
  distributes : e.distributes = false
  adopts : ∀ r, e.adopts r = false
  writes : ∀ target, e.writes target = []

theorem silent_refused (request : Request) : Silent ⟨request, .refused⟩ := by
  cases request <;> constructor <;> intros <;> rfl

theorem writes_of_adopts {e : Exchange} {r : Nat} (h : e.adopts r = true) (target : Option Nat) :
    e.writes target = [] := by
  obtain ⟨request, reply⟩ := e
  cases request with
  | set s address key value => cases h
  | _ => rfl

end Exchange

/-- What these exchanges write to a store, oldest first. -/
def written (target : Option Nat) (history : List Exchange) : List Write :=
  history.flatMap (Exchange.writes target)

namespace Session

/-- The exchanges that come of these requests, oldest first, and the session after them. -/
def serveAll (session : Session) : List Request → List Exchange × Session
  | [] => ([], session)
  | request :: rest =>
      let (reply, session) := session.serve request
      let (history, session) := session.serveAll rest
      (⟨request, reply⟩ :: history, session)

variable {session next : Session} {r : Nat} {takers : List Nat}

/-! ## Single requests -/

/-- Between two requests nothing is published, no more reports are pending than fit, and nobody
holds a signal that was not made yet. -/
structure Sound (session : Session) : Prop where
  source : session.distributor.source = none
  armed : session.distributor.armed = session.distributor.signal
  reports_le : session.distributor.reports ≤ session.distributor.workers
  signal_le : ∀ s ∈ session.subscribers, s.signal ≤ session.distributor.signal

/-- What an exchange does, as far as the book tells. -/
structure Advances (session : Session) (e : Exchange) (next : Session) : Prop where
  sound : next.Sound
  workers : next.distributor.workers = session.distributor.workers
  reports : next.distributor.reports + session.distributor.workers * e.counted =
    session.distributor.reports + e.reported
  canonical : next.canonical = session.canonical.writeAll (e.writes none)
  length_le : session.subscribers.length ≤ next.subscribers.length
  known : ∀ r, e.adopts r = true → r < next.subscribers.length
  adopted : ∀ r s, next.subscribers[r]? = some s → e.adopts r = true →
    next.distributor.released s.signal = false ∧
      s.copy = if e.distributes then some session.canonical else none
  others : ∀ r s, next.subscribers[r]? = some s → e.adopts r = false →
    ∃ s', session.subscribers[r]? = some s' ∧
      next.distributor.released s.signal =
        (session.distributor.released s'.signal || e.distributes) ∧
      s.copy = s'.copy.map (·.writeAll (e.writes (some r)))

/-- The receivers stay as they are. -/
theorem Sound.idle (h : session.Sound) {e : Exchange} {n : Nat} {store : Storage}
    (hadopts : ∀ r, e.adopts r = false) (hdistributes : e.distributes = false)
    (hwrites : ∀ r, e.writes (some r) = [])
    (hreports : n + session.distributor.workers * e.counted =
      session.distributor.reports + e.reported)
    (hle : n ≤ session.distributor.workers)
    (hstore : store = session.canonical.writeAll (e.writes none)) :
    session.Advances e { session with
      distributor := { session.distributor with reports := n }, canonical := store } where
  sound := ⟨h.source, h.armed, hle, h.signal_le⟩
  workers := rfl
  reports := hreports
  canonical := hstore
  length_le := le_rfl
  known r hr := by simp [hadopts] at hr
  adopted r s _ hr := by simp [hadopts] at hr
  others r s hs _ := ⟨s, hs, by simp [hdistributes, Distributor.released], by simp [hwrites]⟩

theorem Sound.silent (h : session.Sound) {e : Exchange} (he : e.Silent) :
    session.Advances e session :=
  h.idle he.adopts he.distributes (fun _ => he.writes _)
    (by rw [he.counted, he.reported, Nat.mul_zero]) h.reports_le (by rw [he.writes]; rfl)

/-- Some receivers adopt the signal that is published, which is fresh in a distribution. -/
theorem Sound.adoption (h : session.Sound) {e : Exchange} {d : Distributor Storage}
    {subscribers : List Subscriber} (hworkers : d.workers = session.distributor.workers)
    (hsource : d.source = none) (harmed : d.armed = d.signal)
    (hsignal : d.signal = session.distributor.signal + if e.distributes then 1 else 0)
    (hreports : d.reports + session.distributor.workers * e.counted =
      session.distributor.reports + e.reported)
    (hle : d.reports ≤ session.distributor.workers) (hwrites : ∀ target, e.writes target = [])
    (hsubscribers : ∀ r, subscribers[r]? =
      if e.adopts r then some ⟨d.signal, if e.distributes then some session.canonical else none⟩
      else session.subscribers[r]?) :
    session.Advances e ⟨d, session.canonical, subscribers⟩ := by
  have hcases {r : Nat} {s : Subscriber} (hs : subscribers[r]? = some s) :
      e.adopts r = true ∧
          s = ⟨d.signal, if e.distributes then some session.canonical else none⟩ ∨
        e.adopts r = false ∧ session.subscribers[r]? = some s := by
    rw [hsubscribers] at hs
    split at hs
    · rename_i hr
      exact .inl ⟨hr, (Option.some.inj hs).symm⟩
    · rename_i hr
      exact .inr ⟨Bool.eq_false_iff.mpr hr, hs⟩
  refine ⟨⟨hsource, harmed, hworkers ▸ hle, fun s hs => ?_⟩, hworkers, hreports,
    by rw [hwrites]; rfl, ?_, fun r hr => ?_, fun r s hs hr => ?_, fun r s hs hr => ?_⟩
  · obtain ⟨r, hr⟩ := List.mem_iff_getElem?.mp hs
    rcases hcases hr with ⟨-, rfl⟩ | ⟨-, hold⟩
    · exact le_rfl
    · have hle := h.signal_le s (List.mem_of_getElem? hold)
      simp only [hsignal]
      omega
  · by_contra hlt
    have hlast := hsubscribers subscribers.length
    rw [List.getElem?_eq_none le_rfl, List.getElem?_eq_getElem (not_le.mp hlt)] at hlast
    split at hlast <;> cases hlast
  · have hr := (hsubscribers r).trans (if_pos hr)
    exact (List.getElem?_eq_some_iff.mp hr).1
  · rcases hcases hs with ⟨-, rfl⟩ | ⟨hr', -⟩
    · exact ⟨by simp [Distributor.released, harmed], rfl⟩
    · rw [hr] at hr'
      cases hr'
  · rcases hcases hs with ⟨hr', -⟩ | ⟨-, hold⟩
    · rw [hr] at hr'
      cases hr'
    · refine ⟨s, hold, ?_, by simp [hwrites]⟩
      have hle := h.signal_le s (List.mem_of_getElem? hold)
      rw [Distributor.released, Distributor.released, harmed, hsignal, h.armed]
      cases e.distributes
      · simp
      · simp only [if_true, Bool.or_true, decide_eq_true_eq]
        omega

theorem Sound.subscribe (h : session.Sound) :
    session.Advances ⟨.subscribe, (session.serve .subscribe).1⟩ (session.serve .subscribe).2 := by
  refine h.adoption rfl h.source h.armed rfl rfl h.reports_le (fun _ => rfl) fun r => ?_
  change _ = if session.subscribers.length == r then _ else _
  rw [List.getElem?_append]
  split
  · rename_i hlt
    rw [if_neg (by simpa using hlt.ne')]
  · by_cases hr : session.subscribers.length = r
    · subst hr
      simp [Exchange.distributes]
    · rw [if_neg (by simpa using hr), List.getElem?_eq_none (by simp; omega),
        List.getElem?_eq_none (by omega)]

/-- A report that is made without a take. -/
theorem Sound.ready (h : session.Sound) (r : Nat) :
    session.Advances ⟨.ready r, (session.serve (.ready r)).1⟩ (session.serve (.ready r)).2 := by
  simp only [serve, Distributor.report?]
  split
  · rename_i hs hd
    split at hd <;> cases hd
    exact h.idle (fun _ => rfl) rfl (fun _ => rfl) rfl ‹_› rfl
  · exact h.silent (Exchange.silent_refused _)

theorem Sound.waitReady (h : session.Sound) :
    session.Advances ⟨.waitReady, (session.serve .waitReady).1⟩ (session.serve .waitReady).2 := by
  rw [serve]
  split
  · rename_i hall
    refine h.idle (fun _ => rfl) rfl (fun _ => rfl) ?_ ((Nat.sub_le _ _).trans h.reports_le) rfl
    simp [beq_iff_eq.mp hall, Exchange.counted, Exchange.reported]
  · exact h.silent (Exchange.silent_refused _)

/-- Receiver `r` has taken what is published, and reported. -/
def afterTake (session : Session) (r : Nat) : Session :=
  { session with
    distributor := { session.distributor with reports := session.distributor.reports + 1 }
    subscribers :=
      session.subscribers.set r ⟨session.distributor.signal, session.distributor.source⟩ }

/-- A take happens if there is such a receiver and room for its report. -/
theorem take?_eq (session : Session) (r : Nat) : session.take? r =
    if r < session.subscribers.length ∧ session.distributor.reports < session.distributor.workers
    then some (session.distributor.source.isSome, session.afterTake r) else none := by
  by_cases hr : r < session.subscribers.length
  · by_cases hroom : session.distributor.reports < session.distributor.workers
    · simp [take?, afterTake, Distributor.report?, hr, hroom]
    · simp [take?, Distributor.report?, hroom]
  · simp [take?, hr]

theorem getElem?_set_of_lt {subscribers : List Subscriber} {r : Nat} (hr : r < subscribers.length)
    (s : Subscriber) (i : Nat) :
    (subscribers.set r s)[i]? = if r == i then some s else subscribers[i]? := by
  rw [List.getElem?_set]
  by_cases hi : r = i
  · simp [hi, hi ▸ hr]
  · simp [hi]

/-- Outside of a distribution a receiver that takes gets nothing, and it catches up. -/
theorem Sound.taking (h : session.Sound) {request : Request} {r : Nat}
    (hrequest : request = .take r ∨ request = .wait r) :
    session.Advances ⟨request, (session.taken (session.take? r)).1⟩
      (session.taken (session.take? r)).2 := by
  rw [take?_eq, h.source]
  split
  · rename_i hroom
    rw [afterTake, h.source]
    have hset := getElem?_set_of_lt hroom.1 ⟨session.distributor.signal, none⟩
    rcases hrequest with rfl | rfl
    · exact h.adoption rfl h.source h.armed rfl rfl hroom.2 (fun _ => rfl) hset
    · exact h.adoption rfl h.source h.armed rfl rfl hroom.2 (fun _ => rfl) hset
  · exact h.silent (Exchange.silent_refused _)

theorem Sound.wait (h : session.Sound) (r : Nat) :
    session.Advances ⟨.wait r, (session.serve (.wait r)).1⟩ (session.serve (.wait r)).2 := by
  rw [serve]
  split
  · exact h.taking (.inr rfl)
  · exact h.silent (Exchange.silent_refused _)

/-- Receivers that take one after the other all get what is published. -/
theorem takeAll_eq (session : Session) (hknown : ∀ r ∈ takers, r < session.subscribers.length)
    (hroom : session.distributor.reports + takers.length ≤ session.distributor.workers) :
    ∃ subscribers, session.takeAll takers =
        some (List.replicate takers.length session.distributor.source.isSome, { session with
          distributor :=
            { session.distributor with
              reports := session.distributor.reports + takers.length }
          subscribers }) ∧
      ∀ r, subscribers[r]? = if takers.contains r
        then some ⟨session.distributor.signal, session.distributor.source⟩
        else session.subscribers[r]? := by
  induction takers generalizing session with
  | nil => exact ⟨session.subscribers, rfl, fun r => rfl⟩
  | cons r rest ih =>
      rw [List.length_cons] at hroom
      have hr := hknown r List.mem_cons_self
      have hset := getElem?_set_of_lt hr ⟨session.distributor.signal, session.distributor.source⟩
      have hrest : ∀ i ∈ rest, i < (session.afterTake r).subscribers.length := fun i hi => by
        simpa [afterTake] using hknown i (List.mem_cons_of_mem _ hi)
      obtain ⟨subscribers, htake, hsubscribers⟩ :=
        ih (session.afterTake r) hrest (by simp only [afterTake]; omega)
      refine ⟨subscribers, ?_, fun i => ?_⟩
      · rw [takeAll, take?_eq, if_pos ⟨hr, by omega⟩]
        simp only [Option.bind_eq_bind, Option.bind_some, htake]
        simp only [afterTake, List.length_cons, List.replicate_succ, Nat.add_assoc,
          Nat.add_comm 1]
      · simp only [hsubscribers, afterTake, hset, List.contains_cons]
        by_cases hi : i = r
        · simp [hi]
        · simp [hi, Ne.symm hi]

/-- A distribution that neither blocks nor races. -/
theorem canDistribute_iff : session.canDistribute takers = true ↔
    takers.Nodup ∧ (∀ r ∈ takers, session.released? r = some false) ∧
      session.distributor.reports + takers.length = session.distributor.workers := by
  simp [canDistribute, and_assoc]

theorem lt_length_of_released? {b : Bool} (h : session.released? r = some b) :
    r < session.subscribers.length := by
  obtain ⟨s, hs, -⟩ := Option.map_eq_some_iff.mp h
  exact (List.getElem?_eq_some_iff.mp hs).1

/-- All who wait get the store, and all the others fall behind. -/
theorem distribute?_eq (h : session.canDistribute takers = true) :
    ∃ subscribers, session.distribute? takers = some (List.replicate takers.length true,
        ⟨⟨session.distributor.workers, none, session.distributor.signal + 1,
          session.distributor.signal + 1, 0⟩, session.canonical, subscribers⟩) ∧
      ∀ r, subscribers[r]? = if takers.contains r
        then some ⟨session.distributor.signal + 1, some session.canonical⟩
        else session.subscribers[r]? := by
  obtain ⟨-, harmed, hcount⟩ := canDistribute_iff.mp h
  have hknown : ∀ r ∈ takers, r < session.subscribers.length :=
    fun r hr => lt_length_of_released? (harmed r hr)
  obtain ⟨subscribers, htake, hsubscribers⟩ := takeAll_eq
    ⟨(session.distributor.publish session.canonical).release, session.canonical,
      session.subscribers⟩ hknown hcount.le
  refine ⟨subscribers, ?_, hsubscribers⟩
  rw [distribute?]
  simp only [htake, Option.bind_eq_bind, Option.bind_some]
  simp [collectAll, Distributor.publish, Distributor.release, Distributor.withdraw, hcount]

theorem Sound.distribute (h : session.Sound) (takers : List Nat) :
    session.Advances ⟨.distribute takers, (session.serve (.distribute takers)).1⟩
      (session.serve (.distribute takers)).2 := by
  rw [serve]
  split
  · rename_i hcan
    obtain ⟨subscribers, hd, hsubscribers⟩ := distribute?_eq hcan
    obtain ⟨-, -, hcount⟩ := canDistribute_iff.mp hcan
    rw [hd]
    exact h.adoption rfl rfl rfl rfl (by simp [Exchange.counted, Exchange.reported, hcount])
      (Nat.zero_le _) (fun _ => rfl) hsubscribers
  · exact h.silent (Exchange.silent_refused _)

/-- A write to the copy of receiver `r`. -/
theorem Sound.writeCopy (h : session.Sound) {store : Storage}
    (hs : session.target? (some r) = some store) (address : Address) (key value : Word) :
    session.Advances
      ⟨.set (some r) address key value, .number (store.set address key value).numAccounts⟩
      (session.write (some r) (store.set address key value)) := by
  obtain ⟨owner, howner, hcopy⟩ := Option.bind_eq_some_iff.mp hs
  have hcases {i : Nat} {s : Subscriber}
      (hi : (session.write (some r) (store.set address key value)).subscribers[i]? = some s) :
      ∃ s', session.subscribers[i]? = some s' ∧
        s = if r = i then { s' with copy := some (store.set address key value) } else s' := by
    rw [write, List.getElem?_modify] at hi
    obtain ⟨s', hs', rfl⟩ := Option.map_eq_some_iff.mp hi
    exact ⟨s', hs', rfl⟩
  refine ⟨⟨h.source, h.armed, h.reports_le, fun s hmem => ?_⟩, rfl, rfl, rfl,
    (List.length_modify _ _ _).ge, fun _ hr => absurd hr Bool.false_ne_true,
    fun _ _ _ hr => absurd hr Bool.false_ne_true, fun i s hi _ => ?_⟩
  · obtain ⟨i, hi⟩ := List.mem_iff_getElem?.mp hmem
    obtain ⟨s', hs', rfl⟩ := hcases hi
    have hle := h.signal_le s' (List.mem_of_getElem? hs')
    split <;> exact hle
  · obtain ⟨s', hs', rfl⟩ := hcases hi
    refine ⟨s', hs', by split <;> simp [Session.write, Exchange.distributes], ?_⟩
    by_cases heq : r = i
    · subst heq
      obtain rfl : owner = s' := Option.some.inj (howner.symm.trans hs')
      simp [Exchange.writes, hcopy, Storage.writeAll]
    · simp [Exchange.writes, heq]

theorem Sound.set (h : session.Sound) (target : Option Nat) (address : Address)
    (key value : Word) :
    session.Advances
      ⟨.set target address key value, (session.serve (.set target address key value)).1⟩
      (session.serve (.set target address key value)).2 := by
  cases target with
  | none => exact h.idle (fun _ => rfl) rfl (fun _ => rfl) rfl h.reports_le rfl
  | some r =>
      cases hs : session.target? (some r) with
      | none =>
          simp only [serve, hs]
          exact h.silent ⟨rfl, rfl, rfl, fun _ => rfl, fun _ => rfl⟩
      | some store =>
          simp only [serve, hs]
          exact h.writeCopy hs address key value

theorem Sound.advances (h : session.Sound) (request : Request) :
    session.Advances ⟨request, (session.serve request).1⟩ (session.serve request).2 := by
  cases request with
  | subscribe => exact h.subscribe
  | ready r => exact h.ready r
  | take r => exact h.taking (.inl rfl)
  | wait r => exact h.wait r
  | waitReady => exact h.waitReady
  | distribute takers => exact h.distribute takers
  | set r address key value => exact h.set r address key value
  | signal r =>
      rw [serve]
      split <;> exact h.silent ⟨rfl, rfl, rfl, fun _ => rfl, fun _ => rfl⟩
  | get r address key =>
      rw [serve]
      split <;> exact h.silent ⟨rfl, rfl, rfl, fun _ => rfl, fun _ => rfl⟩
  | eq r =>
      rw [serve]
      split <;> exact h.silent ⟨rfl, rfl, rfl, fun _ => rfl, fun _ => rfl⟩
  | other => exact h.silent (Exchange.silent_refused _)

/-! ## The book -/

/-- Receiver `r` subscribed or took in `e`, and did neither since. -/
structure Latest (history : List Exchange) (r : Nat) (before : List Exchange) (e : Exchange)
    (after : List Exchange) : Prop where
  history_eq : history = before ++ e :: after
  adopts : e.adopts r = true
  since : ∀ e' ∈ after, e'.adopts r = false

/-- The book agrees with the session. The reports that are not counted are those that are pending.
Each store holds what was written to it, after what the store it was copied from held then. A
receiver is behind if there was a distribution since it subscribed or took. -/
structure Kept (workers : Nat) (history : List Exchange) (session : Session) : Prop
    extends session.Sound where
  workers_eq : session.distributor.workers = workers
  reports : session.distributor.reports + workers * (history.map Exchange.counted).sum =
    (history.map Exchange.reported).sum
  canonical : session.canonical = Storage.empty.writeAll (written none history)
  known : ∀ e ∈ history, ∀ r, e.adopts r = true → r < session.subscribers.length
  receivers : ∀ r < session.subscribers.length, ∃ before e after, Latest history r before e after ∧
    session.released? r = some (after.any Exchange.distributes) ∧
    session.target? (some r) = if e.distributes
      then some ((Storage.empty.writeAll (written none before)).writeAll (written (some r) after))
      else none

theorem kept_create (workers : Nat) : (create workers).Kept workers [] where
  source := rfl
  armed := rfl
  reports_le := Nat.zero_le _
  signal_le _ hs := absurd hs List.not_mem_nil
  workers_eq := rfl
  reports := rfl
  canonical := rfl
  known _ he := absurd he List.not_mem_nil
  receivers _ hr := absurd hr (Nat.not_lt_zero _)

theorem written_append (target : Option Nat) (history history' : List Exchange) :
    written target (history ++ history') = written target history ++ written target history' :=
  List.flatMap_append

theorem written_singleton (target : Option Nat) (e : Exchange) :
    written target [e] = e.writes target := by
  simp [written]

theorem released?_eq {s : Subscriber} (hs : session.subscribers[r]? = some s) :
    session.released? r = some (session.distributor.released s.signal) := by
  rw [released?, hs, Option.map_some]

theorem target?_eq {s : Subscriber} (hs : session.subscribers[r]? = some s) :
    session.target? (some r) = s.copy := by
  rw [target?, hs, Option.bind_some]

variable {workers : Nat} {history past : List Exchange} {e : Exchange}

theorem Kept.append (h : session.Kept workers history) (ha : session.Advances e next) :
    next.Kept workers (history ++ [e]) where
  toSound := ha.sound
  workers_eq := ha.workers.trans h.workers_eq
  reports := by
    have hstep := ha.reports
    have hold := h.reports
    rw [h.workers_eq] at hstep
    simp only [List.map_append, List.map_singleton, List.sum_append, List.sum_singleton,
      Nat.mul_add]
    omega
  canonical := by
    rw [ha.canonical, h.canonical, written_append, written_singleton, Storage.writeAll_append]
  known e' he' r hr := by
    rcases List.mem_append.mp he' with he' | he'
    · exact (h.known e' he' r hr).trans_le ha.length_le
    · obtain rfl := List.mem_singleton.mp he'
      exact ha.known r hr
  receivers r hr := by
    have hs := List.getElem?_eq_getElem hr
    cases hadopts : e.adopts r with
    | true =>
        obtain ⟨hreleased, hcopy⟩ := ha.adopted r _ hs hadopts
        refine ⟨history, e, [], ⟨rfl, hadopts, fun _ he' => absurd he' List.not_mem_nil⟩, ?_, ?_⟩
        · rw [released?_eq hs, hreleased, List.any_nil]
        · rw [target?_eq hs, hcopy, h.canonical]
          rfl
    | false =>
        obtain ⟨s', hs', hreleased, hcopy⟩ := ha.others r _ hs hadopts
        obtain ⟨before, e', after, hlatest, hreleased', hcopy'⟩ :=
          h.receivers r (List.getElem?_eq_some_iff.mp hs').1
        rw [released?_eq hs', Option.some.injEq] at hreleased'
        rw [target?_eq hs'] at hcopy'
        refine ⟨before, e', after ++ [e],
          ⟨by simp [hlatest.history_eq], hlatest.adopts, ?_⟩, ?_, ?_⟩
        · intro e'' he''
          rcases List.mem_append.mp he'' with he'' | he''
          · exact hlatest.since e'' he''
          · rwa [List.mem_singleton.mp he'']
        · rw [released?_eq hs, hreleased, hreleased', List.any_append, List.any_cons, List.any_nil,
            Bool.or_false]
        · rw [target?_eq hs, hcopy, hcopy', written_append, written_singleton,
            Storage.writeAll_append]
          split <;> rfl

theorem Kept.serveAll (h : session.Kept workers past) (requests : List Request) :
    (session.serveAll requests).2.Kept workers (past ++ (session.serveAll requests).1) := by
  induction requests generalizing session past with
  | nil => simpa [Session.serveAll] using h
  | cons request rest ih =>
      have hnext := ih (h.append (h.toSound.advances request))
      rwa [List.append_assoc] at hnext

/-- Whoever waits while a store is distributed gets a copy of it, and whoever subscribes or takes at
another time gets nothing. All of them are up with the last generation. -/
theorem Kept.of_adopts (h : session.Kept workers (past ++ [e])) (hr : e.adopts r = true) :
    session.released? r = some false ∧
      session.target? (some r) = if e.distributes then some session.canonical else none := by
  have hlt := h.known e (List.mem_append_right _ List.mem_cons_self) r hr
  obtain ⟨before, e', after, hlatest, hreleased, hcopy⟩ := h.receivers r hlt
  have hafter : after = [] := by
    by_contra hne
    have heq := congrArg List.getLast? hlatest.history_eq
    rw [List.getLast?_concat, List.getLast?_append_of_ne_nil _ (List.cons_ne_nil _ _),
      List.getLast?_cons_of_ne_nil hne] at heq
    have hsince := hlatest.since e (List.mem_of_getLast? heq.symm)
    rw [hr] at hsince
    cases hsince
  subst hafter
  obtain ⟨rfl, he⟩ := List.append_inj' hlatest.history_eq rfl
  obtain rfl : e = e' := List.singleton_inj.mp he
  refine ⟨hreleased, hcopy.trans ?_⟩
  rw [h.canonical, written_append, written_singleton, Exchange.writes_of_adopts hr, List.append_nil]
  rfl

/-- A call that would block or race is refused, and nothing happens. Every other call comes to what
it is made for. -/
structure Obliges (session : Session) : Prop where
  subscribe : (session.serve .subscribe).1 = .number session.subscribers.length
  ready : ∀ r, (session.serve (.ready r)).1 =
    if r < session.subscribers.length ∧ session.distributor.reports < session.distributor.workers
    then .reported else .refused
  take : ∀ r, (session.serve (.take r)).1 =
    if r < session.subscribers.length ∧ session.distributor.reports < session.distributor.workers
    then .flag false else .refused
  wait : ∀ r, (session.serve (.wait r)).1 =
    if session.released? r = some true ∧
      session.distributor.reports < session.distributor.workers then .flag false else .refused
  waitReady : (session.serve .waitReady).1 =
    if session.distributor.reports = session.distributor.workers then .ready else .refused
  distribute : ∀ takers, (session.serve (.distribute takers)).1 =
    if takers.Nodup ∧ (∀ r ∈ takers, session.released? r = some false) ∧
      session.distributor.reports + takers.length = session.distributor.workers
    then .flags (List.replicate takers.length true) else .refused
  refused : ∀ request, (session.serve request).1 = .refused → (session.serve request).2 = session

theorem Sound.taken_eq (h : session.Sound) (r : Nat) : (session.taken (session.take? r)).1 =
    if r < session.subscribers.length ∧ session.distributor.reports < session.distributor.workers
    then .flag false else .refused := by
  rw [take?_eq, h.source]
  split <;> rfl

theorem eq_of_taken_refused {outcome : Option (Bool × Session)}
    (h : (session.taken outcome).1 = .refused) : (session.taken outcome).2 = session := by
  cases outcome with
  | none => rfl
  | some outcome => cases h

theorem serve_refused (request : Request) (h : (session.serve request).1 = .refused) :
    (session.serve request).2 = session := by
  cases request with
  | subscribe => cases h
  | take r => exact eq_of_taken_refused h
  | other => rfl
  | wait r =>
      rw [serve] at h ⊢
      split at h
      · rw [if_pos ‹_›]
        exact eq_of_taken_refused h
      · rw [if_neg ‹_›]
  | waitReady =>
      rw [serve] at h ⊢
      split at h
      · cases h
      · rw [if_neg ‹_›]
  | distribute takers =>
      rw [serve] at h ⊢
      split at h
      · rename_i hcan
        obtain ⟨subscribers, hd, -⟩ := distribute?_eq hcan
        rw [hd] at h
        cases h
      · rw [if_neg ‹_›]
  | _ =>
      rw [serve] at h ⊢
      split
      all_goals simp_all

theorem Sound.obliges (h : session.Sound) : session.Obliges where
  subscribe := rfl
  ready r := by
    by_cases hr : r < session.subscribers.length
    · by_cases hroom : session.distributor.reports < session.distributor.workers
      · simp [serve, Distributor.report?, hr, hroom]
      · simp [serve, Distributor.report?, hroom]
    · simp [serve, hr]
  take := h.taken_eq
  wait r := by
    by_cases hr : session.released? r = some true
    · simp [serve, hr, h.taken_eq, lt_length_of_released? hr]
    · simp [serve, hr]
  waitReady := by
    by_cases hall : session.distributor.reports = session.distributor.workers
    · simp [serve, hall]
    · simp [serve, hall]
  distribute takers := by
    simp only [← canDistribute_iff, serve]
    split
    · rename_i hcan
      obtain ⟨subscribers, hd, -⟩ := distribute?_eq hcan
      rw [hd]
    · rfl
  refused := serve_refused

/-! ## Waiting in threads of their own -/

/-- The receivers among `takers`, each in a thread that waits on the signal that it holds. -/
def waiting (session : Session) (takers : List Nat) : Relay Storage :=
  ⟨session.distributor, takers.filterMap fun r =>
    session.subscribers[r]?.map fun s => ⟨s.signal, .parked, s.copy⟩⟩

theorem length_waiting (hknown : ∀ r ∈ takers, r < session.subscribers.length) :
    (session.waiting takers).receivers.length = takers.length := by
  refine List.filterMap_length_eq_length.mpr fun r hr => ?_
  rw [List.getElem?_eq_getElem (hknown r hr)]
  rfl

/-- Armed receivers that complete a generation wait for the next one. -/
theorem Sound.awaits (h : session.Sound) (hcan : session.canDistribute takers = true) :
    (session.waiting takers).Awaits := by
  obtain ⟨-, harmed, hcount⟩ := canDistribute_iff.mp hcan
  refine ⟨h.armed, fun receiver hmem => ?_, ?_⟩
  · obtain ⟨r, hr, hreceiver⟩ := List.mem_filterMap.mp hmem
    obtain ⟨s, hs, rfl⟩ := Option.map_eq_some_iff.mp hreceiver
    have hnot := harmed r hr
    have hle := h.signal_le s (List.mem_of_getElem? hs)
    rw [released?_eq hs, Option.some.injEq, Distributor.released, h.armed,
      decide_eq_false_iff_not] at hnot
    exact ⟨rfl, le_antisymm hle (not_lt.mp hnot)⟩
  · rw [length_waiting fun r hr => lt_length_of_released? (harmed r hr)]
    exact hcount

/-- The session that comes of a distribution is what threads that move in any order arrive at. -/
theorem handedOut_waiting (hcan : session.canDistribute takers = true) :
    (session.waiting takers).handedOut session.canonical =
      (session.serve (.distribute takers)).2.waiting takers := by
  obtain ⟨-, harmed, -⟩ := canDistribute_iff.mp hcan
  obtain ⟨subscribers, hd, hsubscribers⟩ := distribute?_eq hcan
  have hgot : ∀ r ∈ takers, subscribers[r]? =
      some ⟨session.distributor.signal + 1, some session.canonical⟩ := fun r hr => by
    rw [hsubscribers, if_pos (List.contains_iff_mem.mpr hr)]
  rw [serve, if_pos hcan, hd, Relay.handedOut,
    length_waiting fun r hr => lt_length_of_released? (harmed r hr)]
  simp only [waiting, Relay.mk.injEq]
  refine ⟨trivial, (List.eq_replicate_iff.mpr ⟨?_, fun receiver hmem => ?_⟩).symm⟩
  · exact List.filterMap_length_eq_length.mpr fun r hr => by rw [hgot r hr]; rfl
  · obtain ⟨r, hr, hreceiver⟩ := List.mem_filterMap.mp hmem
    rw [hgot r hr] at hreceiver
    exact (Option.some.inj hreceiver).symm

/-- Whatever a leader asks for, what becomes of it follows from the book. The reports that are
pending are those that were made and not counted. A receiver is behind if there was a distribution
since it subscribed or took, and its copy holds what was in the store that was distributed then and
what was written to the copy since. Calls come to what they are made for unless they would block or
race, and a distribution to receivers that wait comes to the same in whatever order they move. -/
theorem books_kept {workers : Nat} {requests : List Request} {history : List Exchange}
    {session : Session} (h : (create workers).serveAll requests = (history, session)) :
    session.Kept workers history ∧ session.Obliges ∧
      (∀ past e r, history = past ++ [e] → e.adopts r = true → session.released? r = some false ∧
        session.target? (some r) = if e.distributes then some session.canonical else none) ∧
      ∀ takers turns c, session.canDistribute takers = true → (∀ given, .give given ∉ turns) →
        (Circulation.handing (session.waiting takers) session.canonical).run? turns = some c →
        c.Hands (session.waiting takers) session.canonical turns.length ∧
          (c.leading = .resting →
            c.relay = (session.serve (.distribute takers)).2.waiting takers) := by
  have hkept : session.Kept workers history := by
    have hkept := (kept_create workers).serveAll requests
    rwa [h] at hkept
  refine ⟨hkept, hkept.toSound.obliges, ?_, fun takers turns c hcan hturns hrun => ?_⟩
  · rintro past e r rfl hr
    exact hkept.of_adopts hr
  · have hands := Circulation.hands_of_run? (hkept.toSound.awaits hcan) hturns hrun
    exact ⟨hands, fun hresting =>
      (hands.handedOut hresting).trans (handedOut_waiting hcan)⟩

/-- A receiver reports early, is passed over, and catches up without a copy. Its second report
completes the next generation too. -/
theorem books_kept_early : ∃ (history : List Exchange) (session : Session)
    (c : Circulation Storage),
    (create 2).serveAll [.subscribe, .subscribe, .ready 0, .distribute [1], .take 0] =
        (history, session) ∧
      session.canDistribute [1] = true ∧
      (Circulation.handing (session.waiting [1]) session.canonical).run?
        [.lead, .lead, .read 0, .lead, .adopt 0, .lead, .lead, .lead] = some c ∧
      session.Kept 2 history ∧
      c.relay = (session.serve (.distribute [1])).2.waiting [1] := by
  have hserve : (create 2).serveAll [.subscribe, .subscribe, .ready 0, .distribute [1], .take 0] =
      ([⟨.subscribe, .number 0⟩, ⟨.subscribe, .number 1⟩, ⟨.ready 0, .reported⟩,
        ⟨.distribute [1], .flags [true]⟩, ⟨.take 0, .flag false⟩],
        ⟨⟨2, none, 1, 1, 1⟩, .empty, [⟨1, none⟩, ⟨1, some .empty⟩]⟩) := rfl
  obtain ⟨hkept, -, -, hands⟩ := books_kept hserve
  refine ⟨_, _, _, hserve, rfl, rfl, hkept, ?_⟩
  exact (hands [1] [.lead, .lead, .read 0, .lead, .adopt 0, .lead, .lead, .lead] _ rfl (by simp)
    rfl).2 rfl

end Session
end Snapshot
end TxPipeline
