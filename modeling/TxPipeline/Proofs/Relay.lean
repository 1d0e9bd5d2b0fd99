import TxPipeline.Snapshot.Relay

/-!
# One distribution after the other

Between two distributions every receiver holds the same copy and waits on the published signal, so
that none of them can move. A distribution of a store leaves every receiver with a copy of that
store.
-/

namespace TxPipeline.Snapshot.Relay

variable {S : Type}

/-- No distribution runs, and every receiver holds `copy`. -/
structure Rests (relay : Relay S) (copy : Option S) : Prop where
  armed : relay.distributor.armed = relay.distributor.signal
  reports : relay.distributor.reports = 0
  receivers : ∀ r ∈ relay.receivers, r = ⟨relay.distributor.signal, .parked, copy⟩

/-- The receiver has adopted `signal`. -/
def hasAdopted (signal : Nat) (r : Receiver S) : Bool :=
  match r.receiving with
  | .parked => r.signal == signal
  | _ => false

/-- Where a receiver can be while `store` is distributed under `signal`. -/
inductive Takes (store : S) (signal : Nat) : Receiver S → Prop
  | waiting (held : Nat) (copy : Option S) (h : held < signal) :
      Takes store signal ⟨held, .parked, copy⟩
  | holding (held : Nat) (copy : Option S) :
      Takes store signal ⟨held, .holding (some store) signal, copy⟩
  | adopted : Takes store signal ⟨signal, .parked, some store⟩

/-- Receivers are taking copies of `store`, and `left` of their reports are still to be counted. -/
structure Collects (relay : Relay S) (store : S) (left : Nat) : Prop where
  source : relay.distributor.source = some store
  armed : relay.distributor.armed = relay.distributor.signal
  left_le : left ≤ relay.receivers.length
  receivers : ∀ r ∈ relay.receivers, Takes store relay.distributor.signal r
  reports : relay.receivers.countP (hasAdopted relay.distributor.signal) + left =
    relay.distributor.reports + relay.receivers.length

/-- Receivers are taking copies of `store`, and `left` reports are still to be counted. Some of
these can have been made before, by nobody among the receivers. -/
structure Gathers (relay : Relay S) (store : S) (left : Nat) : Prop where
  source : relay.distributor.source = some store
  armed : relay.distributor.armed = relay.distributor.signal
  receivers : ∀ r ∈ relay.receivers, Takes store relay.distributor.signal r
  reports : relay.receivers.countP (hasAdopted relay.distributor.signal) + left =
    relay.distributor.reports + relay.receivers.length

/-- A distribution of `store` is under way, and does `next` next. -/
def Distributes (relay : Relay S) (store : S) : Distribution → Prop
  | .publish => ∃ copy, relay.Rests copy
  | .release => ∃ copy, relay.distributor.source = some store ∧
      relay.distributor.signal = relay.distributor.armed + 1 ∧ relay.distributor.reports = 0 ∧
      ∀ r ∈ relay.receivers, r = ⟨relay.distributor.armed, .parked, copy⟩
  | .collect left => relay.Collects store left
  | .withdraw => relay.Rests (some store)

theorem rests_ready (workers : Nat) : (Relay.ready workers : Relay S).Rests none where
  armed := rfl
  reports := rfl
  receivers _ hr := List.eq_of_mem_replicate hr

variable {relay relay' : Relay S} {copy : Option S} {store : S} {left w : Nat}
  {next : Distribution}

/-- What reading does. -/
theorem eq_of_read? (hs : relay.read? w = some relay') :
    ∃ hlt : w < relay.receivers.length, relay.receivers[w].receiving = .parked ∧
      relay.receivers[w].signal < relay.distributor.armed ∧
      relay' = { relay with receivers := relay.receivers.set w { relay.receivers[w] with
        receiving := .holding relay.distributor.source relay.distributor.signal } } := by
  unfold Relay.read? at hs
  obtain ⟨r, hw, hs⟩ := Option.bind_eq_some_iff.mp hs
  obtain ⟨hlt, rfl⟩ := List.getElem?_eq_some_iff.mp hw
  split at hs
  · rename_i hparked
    split at hs
    · rename_i hreleased
      cases hs
      exact ⟨hlt, hparked, by simpa [Distributor.released] using hreleased, rfl⟩
    · cases hs
  · cases hs

/-- What adopting does. -/
theorem eq_of_adopt? (hs : relay.adopt? w = some relay') :
    ∃ (hlt : w < relay.receivers.length) (source : Option S) (signal : Nat),
      relay.receivers[w].receiving = .holding source signal ∧
      relay' = ⟨{ relay.distributor with reports := relay.distributor.reports + 1 },
        relay.receivers.set w ⟨signal, .parked, source⟩⟩ := by
  unfold Relay.adopt? at hs
  obtain ⟨r, hw, hs⟩ := Option.bind_eq_some_iff.mp hs
  obtain ⟨hlt, rfl⟩ := List.getElem?_eq_some_iff.mp hw
  split at hs
  · rename_i source signal hholding
    obtain ⟨d, hd, hs⟩ := Option.bind_eq_some_iff.mp hs
    cases hs
    unfold Distributor.report? at hd
    split at hd <;> cases hd
    exact ⟨hlt, source, signal, hholding, rfl⟩
  · cases hs

theorem sizes_of_read? (hs : relay.read? w = some relay') :
    relay'.receivers.length = relay.receivers.length ∧
      relay'.distributor.workers = relay.distributor.workers := by
  obtain ⟨hlt, -, -, rfl⟩ := eq_of_read? hs
  exact ⟨List.length_set, rfl⟩

theorem sizes_of_adopt? (hs : relay.adopt? w = some relay') :
    relay'.receivers.length = relay.receivers.length ∧
      relay'.distributor.workers = relay.distributor.workers := by
  obtain ⟨hlt, source, signal, -, rfl⟩ := eq_of_adopt? hs
  exact ⟨List.length_set, rfl⟩

/-- No receiver can move. -/
def Still (relay : Relay S) : Prop :=
  ∀ r ∈ relay.receivers, r.receiving = .parked ∧ relay.distributor.armed ≤ r.signal

theorem Still.read? (h : relay.Still) (w : Nat) : relay.read? w = none := by
  cases hs : relay.read? w with
  | none => rfl
  | some relay' =>
      obtain ⟨hlt, -, hreleased, -⟩ := eq_of_read? hs
      have harmed := (h _ (List.getElem_mem hlt)).2
      omega

theorem Still.adopt? (h : relay.Still) (w : Nat) : relay.adopt? w = none := by
  cases hs : relay.adopt? w with
  | none => rfl
  | some relay' =>
      obtain ⟨hlt, source, signal, hholding, -⟩ := eq_of_adopt? hs
      rw [(h _ (List.getElem_mem hlt)).1] at hholding
      cases hholding

theorem Still.not_move (h : relay.Still) :
    ¬ (relay.read? w = some relay' ∨ relay.adopt? w = some relay') := by
  rw [h.read?, h.adopt?]
  simp

theorem Rests.copy? (h : relay.Rests copy) (hw : w < relay.receivers.length) :
    relay.copy? w = copy := by
  have hr := h.receivers _ (List.getElem_mem hw)
  simp [Relay.copy?, List.getElem?_eq_getElem hw, hr]

theorem Rests.still (h : relay.Rests copy) : relay.Still := by
  intro r hr
  obtain rfl := h.receivers r hr
  exact ⟨rfl, Nat.le_of_eq h.armed⟩

theorem Rests.read? (h : relay.Rests copy) (w : Nat) : relay.read? w = none :=
  h.still.read? w

theorem Rests.adopt? (h : relay.Rests copy) (w : Nat) : relay.adopt? w = none :=
  h.still.adopt? w

theorem Gathers.of_holding (h : relay.Gathers store left) {r : Receiver S} {source : Option S}
    {signal : Nat} (hr : r ∈ relay.receivers) (hholding : r.receiving = .holding source signal) :
    source = some store ∧ signal = relay.distributor.signal := by
  cases h.receivers r hr with
  | waiting held copy hlt => cases hholding
  | adopted => cases hholding
  | holding held copy =>
      cases hholding
      exact ⟨rfl, rfl⟩

theorem Gathers.read? (h : relay.Gathers store left) (hs : relay.read? w = some relay') :
    relay'.Gathers store left := by
  obtain ⟨hlt, hparked, hreleased, rfl⟩ := eq_of_read? hs
  refine ⟨h.source, h.armed, fun r hr => ?_, ?_⟩
  · rcases List.mem_or_eq_of_mem_set hr with hr | rfl
    · exact h.receivers r hr
    · rw [h.source]
      exact .holding _ _
  · have hcount := h.reports
    have hsignal : relay.receivers[w].signal ≠ relay.distributor.signal := by
      rw [h.armed] at hreleased
      exact Nat.ne_of_lt hreleased
    simp only [List.length_set, List.countP_set hlt]
    simpa [hasAdopted, hparked, hsignal] using hcount

theorem Gathers.adopt? (h : relay.Gathers store left) (hs : relay.adopt? w = some relay') :
    relay'.Gathers store left := by
  obtain ⟨hlt, source, signal, hholding, rfl⟩ := eq_of_adopt? hs
  obtain ⟨rfl, rfl⟩ := h.of_holding (List.getElem_mem hlt) hholding
  refine ⟨h.source, h.armed, fun r hr => ?_, ?_⟩
  · rcases List.mem_or_eq_of_mem_set hr with hr | rfl
    · exact h.receivers r hr
    · exact .adopted
  · have hcount := h.reports
    have hold : hasAdopted relay.distributor.signal relay.receivers[w] = false := by
      simp [hasAdopted, hholding]
    simp only [List.length_set, List.countP_set hlt, hold]
    simp only [hasAdopted, BEq.rfl, if_true, Bool.false_eq_true, if_false]
    omega

theorem Collects.gathers (h : relay.Collects store left) : relay.Gathers store left :=
  ⟨h.source, h.armed, h.receivers, h.reports⟩

theorem Collects.read? (h : relay.Collects store left) (hs : relay.read? w = some relay') :
    relay'.Collects store left := by
  obtain ⟨hsource, harmed, hreceivers, hreports⟩ := h.gathers.read? hs
  exact ⟨hsource, harmed, (sizes_of_read? hs).1 ▸ h.left_le, hreceivers, hreports⟩

theorem Collects.adopt? (h : relay.Collects store left) (hs : relay.adopt? w = some relay') :
    relay'.Collects store left := by
  obtain ⟨hsource, harmed, hreceivers, hreports⟩ := h.gathers.adopt? hs
  exact ⟨hsource, harmed, (sizes_of_adopt? hs).1 ▸ h.left_le, hreceivers, hreports⟩

theorem collect?_eq_some {d d' : Distributor S} (hs : d.collect? = some d') :
    ∃ n, d.reports = n + 1 ∧ d' = { d with reports := n } := by
  unfold Distributor.collect? at hs
  split at hs
  · cases hs
  · rename_i n hn
    cases hs
    exact ⟨n, hn, rfl⟩

theorem Gathers.collect? {d : Distributor S} (h : relay.Gathers store (left + 1))
    (hs : relay.distributor.collect? = some d) :
    Gathers { relay with distributor := d } store left := by
  obtain ⟨n, hn, rfl⟩ := collect?_eq_some hs
  refine ⟨h.source, h.armed, h.receivers, ?_⟩
  have hcount := h.reports
  rw [hn] at hcount
  simp only
  omega

/-- When all reports are counted, none is pending and every receiver has made one. -/
theorem adopted_of_counted
    (hreports : relay.receivers.countP (hasAdopted relay.distributor.signal) + 0 =
      relay.distributor.reports + relay.receivers.length) :
    relay.distributor.reports = 0 ∧
      ∀ r ∈ relay.receivers, hasAdopted relay.distributor.signal r = true := by
  have hle := List.countP_le_length (p := hasAdopted relay.distributor.signal)
    (l := relay.receivers)
  exact ⟨by omega, List.countP_eq_length.mp (by omega)⟩

/-- When all reports are counted, every receiver has adopted the generation. -/
theorem Gathers.rests (h : relay.Gathers store 0) : relay.Rests (some store) := by
  obtain ⟨hzero, hadopted⟩ := adopted_of_counted h.reports
  refine ⟨h.armed, hzero, fun r hr => ?_⟩
  have hall := hadopted r hr
  cases h.receivers r hr with
  | waiting held copy hlt =>
      have : held = relay.distributor.signal := by simpa [hasAdopted] using hall
      omega
  | holding held copy => simp [hasAdopted] at hall
  | adopted => rfl

/-- Nobody takes a copy before a distribution has released the previous signal, nor after all have
taken one. -/
theorem Distributes.collects_or_still (h : relay.Distributes store next) :
    (∃ left, next = .collect left ∧ relay.Collects store left) ∨ relay.Still := by
  cases next with
  | publish =>
      obtain ⟨copy, hrests⟩ := h
      exact .inr hrests.still
  | release =>
      obtain ⟨copy, -, -, -, hreceivers⟩ := h
      refine .inr fun r hr => ?_
      obtain rfl := hreceivers r hr
      exact ⟨rfl, Nat.le_refl _⟩
  | collect left => exact .inl ⟨left, rfl, h⟩
  | withdraw => exact .inr (Rests.still h)

theorem Distributes.read? (h : relay.Distributes store next) (hs : relay.read? w = some relay') :
    relay'.Distributes store next := by
  rcases h.collects_or_still with ⟨left, rfl, hcollects⟩ | hstill
  · exact hcollects.read? hs
  · rw [hstill.read?] at hs
    cases hs

theorem Distributes.adopt? (h : relay.Distributes store next)
    (hs : relay.adopt? w = some relay') : relay'.Distributes store next := by
  rcases h.collects_or_still with ⟨left, rfl, hcollects⟩ | hstill
  · exact hcollects.adopt? hs
  · rw [hstill.adopt?] at hs
    cases hs

theorem Distributes.distribute? {rest : Option Distribution}
    (hlen : relay.receivers.length = relay.distributor.workers)
    (h : relay.Distributes store next) (hs : relay.distribute? store next = some (relay', rest)) :
    relay'.receivers = relay.receivers ∧
      relay'.distributor.workers = relay.distributor.workers ∧
      match rest with
      | some rest => relay'.Distributes store rest
      | none => relay'.Rests (some store) := by
  cases next with
  | publish =>
      obtain ⟨copy, hrests⟩ := h
      cases hs
      refine ⟨rfl, rfl, copy, rfl, by simp [Distributor.publish, hrests.armed], hrests.reports, ?_⟩
      intro r hr
      simpa [Distributor.publish, hrests.armed] using hrests.receivers r hr
  | release =>
      obtain ⟨copy, hsource, hsignal, hreports, hreceivers⟩ := h
      cases hs
      refine ⟨rfl, rfl, hsource, rfl, Nat.le_of_eq hlen.symm, ?_, ?_⟩
      · intro r hr
        obtain rfl := hreceivers r hr
        exact .waiting _ _ (by simp [Distributor.release, hsignal])
      · -- the signal is fresh, so that nobody has adopted it yet
        have hcount : relay.receivers.countP (hasAdopted relay.distributor.signal) = 0 := by
          rw [List.countP_eq_zero]
          intro r hr
          rw [hreceivers r hr]
          simp [hasAdopted, hsignal]
        simp [Distributor.release, hcount, hreports, hlen]
  | collect left =>
      cases left with
      | zero =>
          cases hs
          exact ⟨rfl, rfl, Gathers.rests (Collects.gathers h)⟩
      | succ n =>
          obtain ⟨d, hd, hs⟩ := Option.bind_eq_some_iff.mp hs
          cases hs
          obtain ⟨hsource, harmed, hreceivers, hreports⟩ := (Collects.gathers h).collect? hd
          obtain ⟨m, -, rfl⟩ := collect?_eq_some hd
          exact ⟨rfl, rfl, hsource, harmed, Nat.le_of_succ_le h.left_le, hreceivers, hreports⟩
  | withdraw =>
      cases hs
      exact ⟨rfl, rfl, h.armed, h.reports, h.receivers⟩

end TxPipeline.Snapshot.Relay
