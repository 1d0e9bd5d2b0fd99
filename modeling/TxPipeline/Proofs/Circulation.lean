import TxPipeline.Proofs.Relay
import TxPipeline.Snapshot.Circulation

/-!
# Everybody takes every store

Whatever the order of the moves, receivers take the stores in the order in which they are given,
each of them exactly once. A distribution is over only when everybody has taken its store, and no
report is left then that the next one could mistake for its own.
-/

namespace TxPipeline.Snapshot

variable {S : Type}

namespace Relay

variable {relay relay' : Relay S} {store : S} {left w : Nat} {next : Distribution}

/-- Receivers are coming up, and `left` of their reports are still to be counted. -/
structure Greets (relay : Relay S) (left : Nat) : Prop where
  armed : relay.distributor.armed = relay.distributor.signal
  left_le : left ≤ relay.receivers.length
  receivers : ∀ r ∈ relay.receivers, r = ⟨relay.distributor.signal, .fresh, none⟩ ∨
    r = ⟨relay.distributor.signal, .parked, none⟩
  reports : relay.receivers.countP (hasAdopted relay.distributor.signal) + left =
    relay.distributor.reports + relay.receivers.length

theorem greets_create (workers : Nat) : (create workers : Relay S).Greets workers where
  armed := rfl
  left_le := by simp [create]
  receivers := fun r hr => .inl (List.eq_of_mem_replicate hr)
  reports := by
    have hcount : (create workers : Relay S).receivers.countP (hasAdopted 0) = 0 := by
      rw [List.countP_eq_zero]
      intro r hr
      rw [List.eq_of_mem_replicate hr]
      simp [hasAdopted]
    change List.countP (hasAdopted 0) _ + workers = 0 + _
    rw [hcount]
    simp [create]

/-- As long as somebody has not reported, there is room for a report. -/
theorem reports_lt_of_not_adopted {r : Receiver S} {n : Nat} (hr : r ∈ relay.receivers)
    (hnot : hasAdopted relay.distributor.signal r = false) (hleft : left ≤ n)
    (hreports : relay.receivers.countP (hasAdopted relay.distributor.signal) + left =
      relay.distributor.reports + relay.receivers.length) : relay.distributor.reports < n := by
  have hle := List.countP_le_length (p := hasAdopted relay.distributor.signal)
    (l := relay.receivers)
  have hne : relay.receivers.countP (hasAdopted relay.distributor.signal) ≠
      relay.receivers.length := by
    intro heq
    rw [List.countP_eq_length.mp heq r hr] at hnot
    cases hnot
  omega

theorem Greets.greet? (h : relay.Greets left) (hs : relay.greet? w = some relay') :
    relay'.Greets left := by
  unfold Relay.greet? at hs
  obtain ⟨r, hw, hs⟩ := Option.bind_eq_some_iff.mp hs
  obtain ⟨hlt, rfl⟩ := List.getElem?_eq_some_iff.mp hw
  split at hs
  · rename_i hfresh
    obtain ⟨d, hd, hs⟩ := Option.bind_eq_some_iff.mp hs
    cases hs
    have hr : relay.receivers[w] = ⟨relay.distributor.signal, .fresh, none⟩ :=
      (h.receivers _ (List.getElem_mem hlt)).resolve_right fun hparked => by
        simp [hparked] at hfresh
    unfold Distributor.report? at hd
    split at hd <;> cases hd
    refine ⟨h.armed, by simpa using h.left_le, ?_, ?_⟩
    · intro r hmem
      rcases List.mem_or_eq_of_mem_set hmem with hmem | rfl
      · exact h.receivers r hmem
      · exact .inr (by rw [hr])
    · have hcount := h.reports
      simp only [List.length_set, List.countP_set hlt, hr]
      simp only [hasAdopted, BEq.rfl, if_true, Bool.false_eq_true, if_false]
      omega
  · cases hs

theorem Greets.read? (h : relay.Greets left) (w : Nat) : relay.read? w = none := by
  unfold Relay.read?
  cases hw : relay.receivers[w]? with
  | none => rfl
  | some r =>
      rcases h.receivers r (List.mem_of_getElem? hw) with rfl | rfl
      · rfl
      · simp [Distributor.released, h.armed]

theorem Greets.adopt? (h : relay.Greets left) (w : Nat) : relay.adopt? w = none := by
  unfold Relay.adopt?
  cases hw : relay.receivers[w]? with
  | none => rfl
  | some r => rcases h.receivers r (List.mem_of_getElem? hw) with rfl | rfl <;> rfl

theorem Greets.collect {d : Distributor S} (h : relay.Greets (left + 1))
    (hs : relay.distributor.collect? = some d) :
    Greets { relay with distributor := d } left ∧ d.workers = relay.distributor.workers := by
  obtain ⟨n, hn, rfl⟩ := collect?_eq_some hs
  refine ⟨⟨h.armed, Nat.le_of_succ_le h.left_le, h.receivers, ?_⟩, rfl⟩
  have hcount := h.reports
  rw [hn] at hcount
  simp only
  omega

/-- When all reports are counted, everybody is up. -/
theorem Greets.rests (h : relay.Greets 0) : relay.Rests none := by
  obtain ⟨hzero, hadopted⟩ := adopted_of_counted h.reports
  refine ⟨h.armed, hzero, fun r hr => ?_⟩
  have hall := hadopted r hr
  rcases h.receivers r hr with rfl | rfl
  · simp [hasAdopted] at hall
  · rfl

theorem sizes_of_greet? (hs : relay.greet? w = some relay') :
    relay'.receivers.length = relay.receivers.length ∧
      relay'.distributor.workers = relay.distributor.workers := by
  unfold Relay.greet? at hs
  obtain ⟨r, -, hs⟩ := Option.bind_eq_some_iff.mp hs
  split at hs
  · obtain ⟨d, hd, hs⟩ := Option.bind_eq_some_iff.mp hs
    cases hs
    unfold Distributor.report? at hd
    split at hd <;> cases hd
    exact ⟨List.length_set, rfl⟩
  · cases hs

theorem greet?_eq_none (h : ∀ r ∈ relay.receivers, r.receiving ≠ .fresh) (w : Nat) :
    relay.greet? w = none := by
  cases hs : relay.greet? w with
  | none => rfl
  | some relay' =>
      unfold Relay.greet? at hs
      obtain ⟨r, hw, hs⟩ := Option.bind_eq_some_iff.mp hs
      split at hs
      · rename_i hfresh
        exact absurd hfresh (h r (List.mem_of_getElem? hw))
      · cases hs

theorem Still.greet? (h : relay.Still) (w : Nat) : relay.greet? w = none :=
  greet?_eq_none (fun r hr => by simp [(h r hr).1]) w

theorem Gathers.greet? (h : relay.Gathers store left) (w : Nat) : relay.greet? w = none :=
  greet?_eq_none (fun r hr => by cases h.receivers r hr <;> simp) w

theorem Distributes.reports_le (h : relay.Distributes store next) :
    relay.distributor.reports ≤ relay.receivers.length := by
  cases next with
  | publish =>
      obtain ⟨copy, hrests⟩ := h
      simp [hrests.reports]
  | release =>
      obtain ⟨copy, -, -, hreports, -⟩ := h
      simp [hreports]
  | collect left =>
      have hcount := h.reports
      have hle := List.countP_le_length (p := hasAdopted relay.distributor.signal)
        (l := relay.receivers)
      have hleft := h.left_le
      omega
  | withdraw => simp [Rests.reports h]

/-- During a distribution everybody is up. -/
theorem Distributes.ne_fresh (h : relay.Distributes store next) {r : Receiver S}
    (hr : r ∈ relay.receivers) : r.receiving ≠ .fresh := by
  rcases h.collects_or_still with ⟨left, rfl, hcollects⟩ | hstill
  · cases hcollects.receivers r hr <;> simp
  · simp [(hstill r hr).1]

theorem Distributes.greet? (h : relay.Distributes store next) (w : Nat) :
    relay.greet? w = none :=
  greet?_eq_none (fun _ hr => h.ne_fresh hr) w

/-- Only while reports are counted can a receiver have read a generation and not adopted it. -/
theorem Distributes.of_holding (h : relay.Distributes store next) {r : Receiver S}
    {source : Option S} {signal : Nat} (hr : r ∈ relay.receivers)
    (hholding : r.receiving = .holding source signal) :
    ∃ left, next = .collect left ∧ source = some store ∧ signal = relay.distributor.signal := by
  rcases h.collects_or_still with ⟨left, rfl, hcollects⟩ | hstill
  · exact ⟨left, rfl, hcollects.gathers.of_holding hr hholding⟩
  · rw [(hstill r hr).1] at hholding
    cases hholding

theorem Distributes.eq_collect_of_read? (h : relay.Distributes store next)
    (hs : relay.read? w = some relay') : ∃ left, next = .collect left := by
  rcases h.collects_or_still with ⟨left, hleft, -⟩ | hstill
  · exact ⟨left, hleft⟩
  · rw [hstill.read?] at hs
    cases hs

theorem Distributes.room (h : relay.Distributes store next) {r : Receiver S}
    {source : Option S} {signal : Nat} (hr : r ∈ relay.receivers)
    (hholding : r.receiving = .holding source signal) :
    relay.distributor.reports < relay.receivers.length := by
  obtain ⟨left, rfl, -, -⟩ := h.of_holding hr hholding
  exact reports_lt_of_not_adopted hr (by simp [hasAdopted, hholding]) h.left_le h.reports

end Relay

/-! ## Who has taken what -/

namespace Circulation

variable {c c' : Circulation S} {workers : Nat} {store : S} {before : List S}
  {next : Distribution}

/-- Whether a receiver has taken the store that is being distributed. -/
def hasTaken (relay : Relay S) (r : Receiver S) : Distribution → Bool
  | .publish => false
  | _ => Relay.hasAdopted relay.distributor.signal r

/-- Everybody has taken the stores `before`, and those who have adopted it the last one too. -/
def Took (relay : Relay S) (taken : List (List (Option S))) (before : List S) (store : S)
    (next : Distribution) : Prop :=
  ∀ (w : Nat) (r : Receiver S) (t : List (Option S)), relay.receivers[w]? = some r →
    taken[w]? = some t →
    t = (if hasTaken relay r next then before ++ [store] else before).map some

/-- What holds while the leader does this. -/
def Follows (c : Circulation S) : Leading S → Prop
  | .greeting left => c.relay.Greets left ∧ c.given = [] ∧ ∀ t ∈ c.taken, t = []
  | .resting => (∃ copy, c.relay.Rests copy) ∧ ∀ t ∈ c.taken, t = c.given.map some
  | .distributing store next => c.relay.Distributes store next ∧
      ∃ before, c.given = before ++ [store] ∧ Took c.relay c.taken before store next

/-- Everybody is where the leader makes them be. -/
structure Agrees (workers : Nat) (c : Circulation S) : Prop where
  receivers : c.relay.receivers.length = workers
  reports : c.relay.distributor.workers = workers
  taken : c.taken.length = workers
  follows : c.Follows c.leading

theorem agrees_create (workers : Nat) : (create workers : Circulation S).Agrees workers where
  receivers := List.length_replicate
  reports := rfl
  taken := List.length_replicate
  follows := ⟨Relay.greets_create workers, rfl, fun _ ht => List.eq_of_mem_replicate ht⟩

theorem Agrees.give (h : c.Agrees workers) (hs : c.move? (.give store) = some c') :
    c'.Agrees workers := by
  simp only [move?] at hs
  split at hs
  · rename_i hresting
    cases hs
    obtain ⟨hrests, htaken⟩ : c.Follows .resting := hresting ▸ h.follows
    refine ⟨h.receivers, h.reports, h.taken, hrests, c.given, rfl, ?_⟩
    intro w r t _ ht
    exact htaken t (List.mem_of_getElem? ht)
  · cases hs

theorem Agrees.greet (h : c.Agrees workers) {w : Nat} (hs : c.move? (.greet w) = some c') :
    c'.Agrees workers := by
  obtain ⟨relay, hgreet, rfl⟩ := Option.map_eq_some_iff.mp hs
  obtain ⟨hreceivers, hreports⟩ := Relay.sizes_of_greet? hgreet
  refine ⟨hreceivers.trans h.receivers, hreports.trans h.reports, h.taken, ?_⟩
  have hfollows := h.follows
  change Follows _ c.leading
  cases hleading : c.leading with
  | greeting left =>
      obtain ⟨hgreets, hrest⟩ : c.Follows (.greeting left) := hleading ▸ hfollows
      exact ⟨hgreets.greet? hgreet, hrest⟩
  | resting =>
      obtain ⟨⟨copy, hrests⟩, -⟩ : c.Follows .resting := hleading ▸ hfollows
      simp [hrests.still.greet?] at hgreet
  | distributing store next =>
      obtain ⟨hdistributes, -⟩ : c.Follows (.distributing store next) := hleading ▸ hfollows
      simp [hdistributes.greet?] at hgreet

/-- Reading takes nothing yet. -/
theorem Took.read? {relay relay' : Relay S} {taken : List (List (Option S))} {w : Nat}
    (h : Took relay taken before store next) (hd : relay.Distributes store next)
    (hs : relay.read? w = some relay') : Took relay' taken before store next := by
  obtain ⟨left, rfl⟩ := hd.eq_collect_of_read? hs
  obtain ⟨hlt, hparked, hreleased, rfl⟩ := Relay.eq_of_read? hs
  intro i r t hr ht
  rw [List.getElem?_set] at hr
  split at hr
  · rename_i heq
    subst heq
    cases hr
    have hold := h w _ t (List.getElem?_eq_getElem hlt) ht
    have hnot : hasTaken relay relay.receivers[w] (.collect left) = false := by
      have harmed := hd.armed
      simp only [hasTaken, Relay.hasAdopted, hparked, beq_eq_false_iff_ne]
      omega
    rw [hnot] at hold
    exact hold
  · exact h i r t hr ht

/-- Whoever adopts a generation has taken the store of it. -/
theorem Took.adopt? {relay relay' : Relay S} {taken : List (List (Option S))} {w : Nat}
    (h : Took relay taken before store next) (hd : relay.Distributes store next)
    (hs : relay.adopt? w = some relay') :
    Took relay' (taken.modify w (· ++ [relay'.copy? w])) before store next := by
  obtain ⟨hlt, source, signal, hholding, rfl⟩ := Relay.eq_of_adopt? hs
  obtain ⟨left, rfl, rfl, rfl⟩ := hd.of_holding (List.getElem_mem hlt) hholding
  intro i r t hr ht
  rw [List.getElem?_set] at hr
  rw [List.getElem?_modify] at ht
  simp only [hasTaken]
  split at hr
  · rename_i heq
    subst heq
    cases hr
    obtain ⟨old, hold, rfl⟩ := Option.map_eq_some_iff.mp ht
    have htook := h w _ old (List.getElem?_eq_getElem hlt) hold
    have hnot : hasTaken relay relay.receivers[w] (.collect left) = false := by
      simp [hasTaken, Relay.hasAdopted, hholding]
    simp only [hnot, Bool.false_eq_true, if_false] at htook
    simp [Relay.copy?, Relay.hasAdopted, hlt, htook]
  · rename_i hne
    simp only [hne, if_false, id_map'] at ht
    exact h i r t hr ht

theorem Agrees.read (h : c.Agrees workers) {w : Nat} (hs : c.move? (.read w) = some c') :
    c'.Agrees workers := by
  obtain ⟨relay, hread, rfl⟩ := Option.map_eq_some_iff.mp hs
  obtain ⟨hreceivers, hreports⟩ := Relay.sizes_of_read? hread
  refine ⟨hreceivers.trans h.receivers, hreports.trans h.reports, h.taken, ?_⟩
  have hfollows := h.follows
  change Follows _ c.leading
  cases hleading : c.leading with
  | greeting left =>
      obtain ⟨hgreets, -⟩ : c.Follows (.greeting left) := hleading ▸ hfollows
      simp [hgreets.read?] at hread
  | resting =>
      obtain ⟨⟨copy, hrests⟩, -⟩ : c.Follows .resting := hleading ▸ hfollows
      simp [hrests.read?] at hread
  | distributing store next =>
      obtain ⟨hd, before, hgiven, htook⟩ : c.Follows (.distributing store next) :=
        hleading ▸ hfollows
      exact ⟨hd.read? hread, before, hgiven, htook.read? hd hread⟩

theorem Agrees.adopt (h : c.Agrees workers) {w : Nat} (hs : c.move? (.adopt w) = some c') :
    c'.Agrees workers := by
  obtain ⟨relay, hadopt, rfl⟩ := Option.map_eq_some_iff.mp hs
  obtain ⟨hreceivers, hreports⟩ := Relay.sizes_of_adopt? hadopt
  refine ⟨hreceivers.trans h.receivers, hreports.trans h.reports,
    (List.length_modify _ _ _).trans h.taken, ?_⟩
  have hfollows := h.follows
  change Follows _ c.leading
  cases hleading : c.leading with
  | greeting left =>
      obtain ⟨hgreets, -⟩ : c.Follows (.greeting left) := hleading ▸ hfollows
      simp [hgreets.adopt?] at hadopt
  | resting =>
      obtain ⟨⟨copy, hrests⟩, -⟩ : c.Follows .resting := hleading ▸ hfollows
      simp [hrests.adopt?] at hadopt
  | distributing store next =>
      obtain ⟨hd, before, hgiven, htook⟩ : c.Follows (.distributing store next) :=
        hleading ▸ hfollows
      exact ⟨hd.adopt? hadopt, before, hgiven, htook.adopt? hd hadopt⟩

/-- When the distribution is over, everybody has taken its store. -/
theorem Took.all {relay : Relay S} {taken : List (List (Option S))}
    (h : Took relay taken before store next) (hnext : next ≠ .publish)
    (hlen : taken.length = relay.receivers.length)
    (hadopted : ∀ r ∈ relay.receivers, Relay.hasAdopted relay.distributor.signal r = true) :
    ∀ t ∈ taken, t = (before ++ [store]).map some := by
  intro t ht
  obtain ⟨w, hw⟩ := List.mem_iff_getElem?.mp ht
  have hlt : w < relay.receivers.length := hlen ▸ (List.getElem?_eq_some_iff.mp hw).1
  have htook := h w _ t (List.getElem?_eq_getElem hlt) hw
  have hyes : hasTaken relay relay.receivers[w] next = true := by
    cases next with
    | publish => exact absurd rfl hnext
    | _ => exact hadopted _ (List.getElem_mem hlt)
  rwa [if_pos hyes] at htook

/-- No move of the leader takes anything. The signal it publishes is held by nobody. -/
theorem Took.distribute? {relay relay' : Relay S} {taken : List (List (Option S))}
    {rest : Distribution} (h : Took relay taken before store next)
    (hd : relay.Distributes store next)
    (hs : relay.distribute? store next = some (relay', some rest)) :
    Took relay' taken before store rest := by
  intro w r t hr ht
  cases next with
  | publish =>
      obtain ⟨copy, hrests⟩ := hd
      cases hs
      have hold := h w r t hr ht
      have hnot : hasTaken { relay with distributor := relay.distributor.publish store } r
          .release = false := by
        rw [hrests.receivers r (List.mem_of_getElem? hr)]
        simp [hasTaken, Relay.hasAdopted, Distributor.publish]
      rw [hnot]
      exact hold
  | release =>
      cases hs
      exact h w r t hr ht
  | collect left =>
      cases left with
      | zero =>
          cases hs
          exact h w r t hr ht
      | succ n =>
          simp only [Relay.distribute?, Distributor.collect?] at hs
          split at hs <;> cases hs
          exact h w r t hr ht
  | withdraw => cases hs

theorem eq_withdraw_of_distribute? {relay relay' : Relay S}
    (hs : relay.distribute? store next = some (relay', none)) :
    next = .withdraw := by
  cases next with
  | publish => cases hs
  | release => cases hs
  | collect left =>
      cases left with
      | zero => cases hs
      | succ n =>
          simp only [Relay.distribute?, Distributor.collect?] at hs
          split at hs <;> cases hs
  | withdraw => rfl

theorem Agrees.lead (h : c.Agrees workers) (hs : c.move? .lead = some c') :
    c'.Agrees workers := by
  have hfollows := h.follows
  change c.lead? = some c' at hs
  unfold lead? at hs
  split at hs
  · rename_i hleading
    obtain ⟨hgreets, hgiven, htaken⟩ : c.Follows (.greeting 0) := hleading ▸ hfollows
    cases hs
    exact ⟨h.receivers, h.reports, h.taken, ⟨none, hgreets.rests⟩,
      fun t ht => by simp [hgiven, htaken t ht]⟩
  · rename_i n hleading
    obtain ⟨hgreets, hrest⟩ : c.Follows (.greeting (n + 1)) := hleading ▸ hfollows
    obtain ⟨d, hcollect, rfl⟩ := Option.map_eq_some_iff.mp hs
    obtain ⟨hgreets', hworkers⟩ := hgreets.collect hcollect
    exact ⟨h.receivers, hworkers.trans h.reports, h.taken, hgreets', hrest⟩
  · cases hs
  · rename_i store next hleading
    obtain ⟨hd, before, hgiven, htook⟩ : c.Follows (.distributing store next) :=
      hleading ▸ hfollows
    have hlen : c.relay.receivers.length = c.relay.distributor.workers :=
      h.receivers.trans h.reports.symm
    split at hs
    · cases hs
    · rename_i relay rest hdistribute
      cases hs
      obtain ⟨hreceivers, hworkers, hd'⟩ := hd.distribute? hlen hdistribute
      exact ⟨hreceivers ▸ h.receivers, hworkers.trans h.reports, h.taken, hd', before, hgiven,
        htook.distribute? hd hdistribute⟩
    · rename_i relay hdistribute
      cases hs
      obtain ⟨hreceivers, hworkers, hrests⟩ := hd.distribute? hlen hdistribute
      obtain rfl := eq_withdraw_of_distribute? hdistribute
      have hall : c.relay.Rests (some store) := hd
      refine ⟨hreceivers ▸ h.receivers, hworkers.trans h.reports, h.taken, ⟨_, hrests⟩, ?_⟩
      rw [hgiven]
      refine htook.all (by simp) (h.taken.trans h.receivers.symm) ?_
      intro r hr
      rw [hall.receivers r hr]
      simp [Relay.hasAdopted]

theorem Agrees.move? (h : c.Agrees workers) {turn : Turn S} (hs : c.move? turn = some c') :
    c'.Agrees workers := by
  cases turn with
  | give store => exact h.give hs
  | lead => exact h.lead hs
  | greet w => exact h.greet hs
  | read w => exact h.read hs
  | adopt w => exact h.adopt hs

theorem Agrees.run? {turns : List (Turn S)} (h : c.Agrees workers)
    (hrun : c.run? turns = some c') : c'.Agrees workers := by
  induction turns generalizing c with
  | nil =>
      cases hrun
      exact h
  | cons turn rest ih =>
      obtain ⟨next, hmove, hrest⟩ := Option.bind_eq_some_iff.mp hrun
      exact ih (h.move? hmove) hrest

/-- A receiver has taken all that was given, but perhaps the last store. -/
theorem Agrees.taken_eq (h : c.Agrees workers) {t : List (Option S)} (ht : t ∈ c.taken) :
    ∃ k, c.given.length ≤ k + 1 ∧ t = (c.given.take k).map some := by
  have hfollows := h.follows
  cases hleading : c.leading with
  | greeting left =>
      obtain ⟨-, hgiven, htaken⟩ : c.Follows (.greeting left) := hleading ▸ hfollows
      exact ⟨0, by simp [hgiven], by simp [htaken t ht]⟩
  | resting =>
      obtain ⟨-, htaken⟩ : c.Follows .resting := hleading ▸ hfollows
      exact ⟨c.given.length, Nat.le_succ _, by rw [List.take_length, htaken t ht]⟩
  | distributing store next =>
      obtain ⟨-, before, hgiven, htook⟩ : c.Follows (.distributing store next) :=
        hleading ▸ hfollows
      obtain ⟨w, hw⟩ := List.mem_iff_getElem?.mp ht
      have hlt : w < c.relay.receivers.length := by
        rw [h.receivers, ← h.taken]
        exact (List.getElem?_eq_some_iff.mp hw).1
      have heq := htook w _ t (List.getElem?_eq_getElem hlt) hw
      split at heq
      · refine ⟨c.given.length, Nat.le_succ _, ?_⟩
        rw [List.take_length, hgiven, heq]
      · refine ⟨before.length, by simp [hgiven], ?_⟩
        rw [hgiven, List.take_left, heq]

theorem Agrees.reports_le (h : c.Agrees workers) : c.relay.distributor.reports ≤ workers := by
  have hfollows := h.follows
  rw [← h.receivers]
  cases hleading : c.leading with
  | greeting left =>
      obtain ⟨hgreets, -⟩ : c.Follows (.greeting left) := hleading ▸ hfollows
      have hcount := hgreets.reports
      have hle := List.countP_le_length
        (p := Relay.hasAdopted c.relay.distributor.signal) (l := c.relay.receivers)
      have hleft := hgreets.left_le
      omega
  | resting =>
      obtain ⟨⟨copy, hrests⟩, -⟩ : c.Follows .resting := hleading ▸ hfollows
      simp [hrests.reports]
  | distributing store next =>
      obtain ⟨hd, -⟩ : c.Follows (.distributing store next) := hleading ▸ hfollows
      exact hd.reports_le

/-- A receiver that is about to report never waits. -/
theorem Agrees.room (h : c.Agrees workers) {r : Receiver S} (hr : r ∈ c.relay.receivers)
    (hbusy : r.receiving ≠ .parked) : c.relay.distributor.reports < workers := by
  have hfollows := h.follows
  rw [← h.receivers]
  cases hleading : c.leading with
  | greeting left =>
      obtain ⟨hgreets, -⟩ : c.Follows (.greeting left) := hleading ▸ hfollows
      refine Relay.reports_lt_of_not_adopted hr ?_ hgreets.left_le hgreets.reports
      rcases hgreets.receivers r hr with rfl | rfl
      · rfl
      · exact absurd rfl hbusy
  | resting =>
      obtain ⟨⟨copy, hrests⟩, -⟩ : c.Follows .resting := hleading ▸ hfollows
      exact absurd (by rw [hrests.receivers r hr]) hbusy
  | distributing store next =>
      obtain ⟨hd, -⟩ : c.Follows (.distributing store next) := hleading ▸ hfollows
      cases hreceiving : r.receiving with
      | fresh => exact absurd hreceiving (hd.ne_fresh hr)
      | parked => exact absurd hreceiving hbusy
      | holding source signal => exact hd.room hr hreceiving

theorem Agrees.greet?_isSome (h : c.Agrees workers) {w : Nat} {r : Receiver S}
    (hw : c.relay.receivers[w]? = some r) (hfresh : r.receiving = .fresh) :
    (c.relay.greet? w).isSome = true := by
  have hroom := h.room (List.mem_of_getElem? hw) (by simp [hfresh])
  simp [Relay.greet?, hw, hfresh, Distributor.report?, h.reports, hroom]

theorem Agrees.adopt?_isSome (h : c.Agrees workers) {w : Nat} {r : Receiver S}
    {source : Option S} {signal : Nat} (hw : c.relay.receivers[w]? = some r)
    (hholding : r.receiving = .holding source signal) : (c.relay.adopt? w).isSome = true := by
  have hroom := h.room (List.mem_of_getElem? hw) (by simp [hholding])
  simp [Relay.adopt?, hw, hholding, Distributor.report?, h.reports, hroom]

/-- Everybody takes every store once and in order, at most one store behind the leader, and nobody
ever waits to report. When the leader rests, everybody has taken everything and been counted. -/
structure InStep (workers : Nat) (c : Circulation S) : Prop where
  length_taken : c.taken.length = workers
  taken : ∀ t ∈ c.taken, ∃ k, c.given.length ≤ k + 1 ∧ t = (c.given.take k).map some
  rested : c.leading = .resting →
    c.relay.distributor.reports = 0 ∧ ∀ t ∈ c.taken, t = c.given.map some
  reports_le : c.relay.distributor.reports ≤ workers
  greets : ∀ (w : Nat) (r : Receiver S), c.relay.receivers[w]? = some r → r.receiving = .fresh →
    (c.relay.greet? w).isSome = true
  adopts : ∀ (w : Nat) (r : Receiver S) (source : Option S) (signal : Nat),
    c.relay.receivers[w]? = some r → r.receiving = .holding source signal →
    (c.relay.adopt? w).isSome = true

theorem Agrees.inStep (h : c.Agrees workers) : c.InStep workers where
  length_taken := h.taken
  taken := fun _ => h.taken_eq
  rested := fun hresting => by
    obtain ⟨⟨copy, hrests⟩, htaken⟩ : c.Follows .resting := hresting ▸ h.follows
    exact ⟨hrests.reports, htaken⟩
  reports_le := h.reports_le
  greets := fun _ _ => h.greet?_isSome
  adopts := fun _ _ _ _ => h.adopt?_isSome

end Circulation

end TxPipeline.Snapshot
