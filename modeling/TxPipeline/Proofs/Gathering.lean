import TxPipeline.Proofs.Circulation
import TxPipeline.Proofs.Lists

/-!
# A distribution in any order

Some of the reports that a distribution counts can have been made before it, as long as the
receivers that wait meanwhile make up for the rest. Leader and receivers then move in any order, and
the distribution comes to the same end after the same number of moves.
-/

namespace TxPipeline.Snapshot

variable {S : Type}

/-! ## Counting the moves of receivers -/

/-- How many moves a receiver still has to make to adopt `signal`. -/
def Receiver.effort (signal : Nat) (r : Receiver S) : Nat :=
  match r.receiving with
  | .holding _ _ => 1
  | .parked => if r.signal = signal then 0 else 2
  | .fresh => 0

theorem Receiver.effort_le (signal : Nat) (r : Receiver S) : r.effort signal ≤ 2 := by
  unfold effort
  split
  · exact Nat.le_succ 1
  · split
    · exact Nat.zero_le 2
    · exact le_rfl
  · exact Nat.zero_le 2

namespace Relay

variable {relay relay' start : Relay S} {store : S} {left w : Nat}

/-- How many moves all receivers together still have to make to adopt the published generation. -/
def effort (relay : Relay S) : Nat :=
  (relay.receivers.map (Receiver.effort relay.distributor.signal)).sum

theorem effort_le (relay : Relay S) : relay.effort ≤ 2 * relay.receivers.length := by
  unfold effort
  induction relay.receivers with
  | nil => simp
  | cons r rest ih =>
      have hr := r.effort_le relay.distributor.signal
      simp only [List.map_cons, List.sum_cons, List.length_cons]
      omega

theorem effort_eq_mul {n : Nat}
    (h : ∀ r ∈ relay.receivers, r.effort relay.distributor.signal = n) :
    relay.effort = relay.receivers.length * n := by
  rw [effort, List.map_congr_left h, List.map_const', List.sum_replicate_nat]

theorem effort_set {r r' : Receiver S} (hw : relay.receivers[w]? = some r)
    (hreceivers : relay'.receivers = relay.receivers.set w r')
    (hsignal : relay'.distributor.signal = relay.distributor.signal)
    (hone : r'.effort relay.distributor.signal + 1 = r.effort relay.distributor.signal) :
    relay'.effort + 1 = relay.effort := by
  have hsum := sum_map_set (Receiver.effort relay.distributor.signal) hw r'
  unfold effort
  rw [hreceivers, hsignal]
  omega

theorem Gathers.effort_read? (h : relay.Gathers store left) (hs : relay.read? w = some relay') :
    relay'.effort + 1 = relay.effort := by
  obtain ⟨hlt, hparked, hreleased, rfl⟩ := eq_of_read? hs
  refine effort_set (List.getElem?_eq_getElem hlt) rfl rfl ?_
  rw [h.armed] at hreleased
  simp [Receiver.effort, hparked, hreleased.ne]

theorem Gathers.effort_adopt? (h : relay.Gathers store left) (hs : relay.adopt? w = some relay') :
    relay'.effort + 1 = relay.effort := by
  obtain ⟨hlt, source, signal, hholding, rfl⟩ := eq_of_adopt? hs
  refine effort_set (List.getElem?_eq_getElem hlt) rfl rfl ?_
  obtain ⟨-, rfl⟩ := h.of_holding (List.getElem_mem hlt) hholding
  simp [Receiver.effort, hholding]

/-- A receiver that has not adopted the generation can move, and there is room for its report. -/
theorem Gathers.isSome_of_not_adopted (h : relay.Gathers store left)
    (hle : left ≤ relay.distributor.workers) {r : Receiver S} (hw : relay.receivers[w]? = some r)
    (hnot : hasAdopted relay.distributor.signal r = false) :
    (relay.read? w).isSome = true ∨ relay.read? w = none ∧ (relay.adopt? w).isSome = true := by
  have hmem := List.mem_of_getElem? hw
  cases h.receivers r hmem with
  | waiting held copy hlt =>
      left
      simp [Relay.read?, hw, Distributor.released, h.armed, hlt]
  | holding held copy =>
      right
      have hroom := reports_lt_of_not_adopted hmem hnot hle h.reports
      simp [Relay.read?, Relay.adopt?, hw, Distributor.report?, hroom]
  | adopted => simp [hasAdopted] at hnot

/-- If a report is awaited that was not made yet, somebody can take a copy. -/
theorem Gathers.exists_move (h : relay.Gathers store (left + 1))
    (hle : left + 1 ≤ relay.distributor.workers) (hreports : relay.distributor.reports = 0) :
    ∃ w < relay.receivers.length,
      (relay.read? w).isSome = true ∨ relay.read? w = none ∧ (relay.adopt? w).isSome = true := by
  have hcount := h.reports
  have hnot : ¬ ∀ r ∈ relay.receivers, hasAdopted relay.distributor.signal r = true := by
    intro hall
    rw [List.countP_eq_length.mpr hall] at hcount
    omega
  push Not at hnot
  obtain ⟨r, hr, hnot⟩ := hnot
  obtain ⟨w, hw⟩ := List.mem_iff_getElem?.mp hr
  exact ⟨w, (List.getElem?_eq_some_iff.mp hw).1,
    h.isSome_of_not_adopted hle hw (by simpa using hnot)⟩

/-! ## From the first move to the last -/

/-- The receivers wait for the next generation, and with the reports that are pending they complete
it. -/
structure Awaits (relay : Relay S) : Prop where
  armed : relay.distributor.armed = relay.distributor.signal
  receivers : ∀ r ∈ relay.receivers, r.receiving = .parked ∧ r.signal = relay.distributor.signal
  completes : relay.distributor.reports + relay.receivers.length = relay.distributor.workers

/-- All receivers have adopted a further generation, with a copy of `store`. -/
def handedOut (relay : Relay S) (store : S) : Relay S :=
  let signal := relay.distributor.signal + 1
  ⟨⟨relay.distributor.workers, none, signal, signal, 0⟩,
    List.replicate relay.receivers.length ⟨signal, .parked, some store⟩⟩

/-- Receivers are taking copies in the generation that comes after `start`. -/
structure GathersAfter (start : Relay S) (store : S) (left : Nat) (relay : Relay S) : Prop where
  gathers : relay.Gathers store left
  left_le : left ≤ relay.distributor.workers
  signal : relay.distributor.signal = start.distributor.signal + 1
  workers : relay.distributor.workers = start.distributor.workers
  length : relay.receivers.length = start.receivers.length

/-- Where the distribution of `store` is that began with `start`. -/
def Reached (start : Relay S) (store : S) (relay : Relay S) : Leading S → Prop
  | .distributing given next => given = store ∧ match next with
      | .publish => relay = start
      | .release => relay = { start with distributor := start.distributor.publish store }
      | .collect left => start.GathersAfter store left relay
      | .withdraw => { relay with distributor := relay.distributor.withdraw } =
          start.handedOut store
  | .resting => relay = start.handedOut store
  | .greeting _ => False

/-- The signal that was published is not released, so that who waits goes on waiting. -/
theorem Awaits.still (h : start.Awaits) : start.Still := fun r hr =>
  ⟨(h.receivers r hr).1, by rw [(h.receivers r hr).2, h.armed]⟩

theorem still_handedOut (start : Relay S) (store : S) : (start.handedOut store).Still := by
  intro r hr
  rw [List.eq_of_mem_replicate hr]
  exact ⟨rfl, le_rfl⟩

/-- Copies are taken only while reports are collected. -/
theorem Reached.collecting_or_still (ha : start.Awaits) {leading : Leading S}
    (h : start.Reached store relay leading) :
    (∃ left, leading = .distributing store (.collect left) ∧
      start.GathersAfter store left relay) ∨ relay.Still := by
  cases leading with
  | greeting left => cases h
  | resting =>
      obtain rfl : relay = start.handedOut store := h
      exact .inr (still_handedOut start store)
  | distributing given next =>
      obtain ⟨rfl, h⟩ := h
      cases next with
      | publish =>
          obtain rfl : relay = start := h
          exact .inr ha.still
      | release =>
          obtain rfl : relay = { start with distributor := start.distributor.publish given } := h
          exact .inr ha.still
      | collect left => exact .inl ⟨left, rfl, h⟩
      | withdraw =>
          have hstill : Still { relay with distributor := relay.distributor.withdraw } := by
            rw [show { relay with distributor := relay.distributor.withdraw } =
              start.handedOut given from h]
            exact still_handedOut start given
          exact .inr hstill

theorem GathersAfter.read? (h : start.GathersAfter store left relay)
    (hs : relay.read? w = some relay') : start.GathersAfter store left relay' := by
  have hgathers := h.gathers.read? hs
  obtain ⟨hlt, -, -, rfl⟩ := eq_of_read? hs
  exact ⟨hgathers, h.left_le, h.signal, h.workers, List.length_set.trans h.length⟩

theorem GathersAfter.adopt? (h : start.GathersAfter store left relay)
    (hs : relay.adopt? w = some relay') : start.GathersAfter store left relay' := by
  have hgathers := h.gathers.adopt? hs
  obtain ⟨hlt, source, signal, -, rfl⟩ := eq_of_adopt? hs
  exact ⟨hgathers, h.left_le, h.signal, h.workers, List.length_set.trans h.length⟩

/-- How many moves a leader who does this and the receivers still have to make. -/
def movesLeft (relay : Relay S) : Leading S → Nat
  | .distributing _ .publish => relay.distributor.workers + 2 * relay.receivers.length + 4
  | .distributing _ .release => relay.distributor.workers + 2 * relay.receivers.length + 3
  | .distributing _ (.collect left) => relay.effort + left + 2
  | .distributing _ .withdraw => 1
  | _ => 0

/-- Early reports and the receivers who wait add up to the reports that are counted. -/
theorem Awaits.gathers_release (h : start.Awaits) (store : S) :
    start.GathersAfter store start.distributor.workers
      { start with distributor := (start.distributor.publish store).release } where
  gathers := by
    refine ⟨rfl, rfl, ?_, ?_⟩
    · rintro ⟨signal, receiving, copy⟩ hr
      obtain ⟨rfl, rfl⟩ := h.receivers _ hr
      exact .waiting _ _ (Nat.lt_succ_self _)
    · have hcount : start.receivers.countP (hasAdopted (start.distributor.signal + 1)) = 0 := by
        rw [List.countP_eq_zero]
        intro r hr
        obtain ⟨hparked, hsignal⟩ := h.receivers r hr
        simp [hasAdopted, hparked, hsignal]
      change List.countP (hasAdopted (start.distributor.signal + 1)) _ + _ = _
      rw [hcount, Nat.zero_add]
      exact h.completes.symm
  left_le := le_rfl
  signal := rfl
  workers := rfl
  length := rfl

theorem Awaits.effort_release (h : start.Awaits) (store : S) :
    effort { start with distributor := (start.distributor.publish store).release } =
      start.receivers.length * 2 := by
  refine effort_eq_mul fun r hr => ?_
  obtain ⟨hparked, hsignal⟩ := h.receivers r hr
  simp [Receiver.effort, hparked, hsignal, Distributor.publish, Distributor.release]

/-- When all reports are counted, all that remains is to withdraw the source. -/
theorem GathersAfter.eq_handedOut (h : start.GathersAfter store 0 relay) :
    { relay with distributor := relay.distributor.withdraw } = start.handedOut store := by
  have hrests := h.gathers.rests
  have hreceivers := List.eq_replicate_of_mem hrests.receivers
  obtain ⟨⟨workers, source, signal, armed, reports⟩, receivers⟩ := relay
  obtain rfl : armed = signal := hrests.armed
  obtain rfl : reports = 0 := hrests.reports
  obtain rfl : armed = _ := h.signal
  obtain rfl : workers = _ := h.workers
  have hlength : receivers.length = start.receivers.length := h.length
  rw [hlength] at hreceivers
  simp only [handedOut, Distributor.withdraw, mk.injEq, true_and]
  exact hreceivers

/-- A move of the leader brings the distribution on. -/
theorem Reached.distribute? (ha : start.Awaits) {next : Distribution}
    (h : start.Reached store relay (.distributing store next)) {rest : Option Distribution}
    (hs : relay.distribute? store next = some (relay', rest)) :
    let leading := (rest.map (.distributing store)).getD .resting
    start.Reached store relay' leading ∧
      relay'.movesLeft leading + 1 = relay.movesLeft (.distributing store next) := by
  obtain ⟨-, h⟩ := h
  cases next with
  | publish =>
      obtain rfl : relay = start := h
      cases hs
      exact ⟨⟨rfl, rfl⟩, rfl⟩
  | release =>
      obtain rfl : relay = { start with distributor := start.distributor.publish store } := h
      cases hs
      refine ⟨⟨rfl, ha.gathers_release store⟩, ?_⟩
      have heffort := ha.effort_release store
      simp only [Option.map_some, Option.getD_some, movesLeft, Distributor.publish,
        Distributor.release] at heffort ⊢
      omega
  | collect left =>
      have hgathers : start.GathersAfter store left relay := h
      cases left with
      | zero =>
          cases hs
          refine ⟨⟨rfl, hgathers.eq_handedOut⟩, ?_⟩
          have heffort : relay.effort = relay.receivers.length * 0 := effort_eq_mul fun r hr => by
            rw [hgathers.gathers.rests.receivers r hr]
            simp [Receiver.effort]
          simp only [Option.map_some, Option.getD_some, movesLeft, heffort, Nat.mul_zero]
      | succ n =>
          obtain ⟨d, hd, hs⟩ := Option.bind_eq_some_iff.mp hs
          cases hs
          have hcollect := hgathers.gathers.collect? hd
          obtain ⟨m, -, rfl⟩ := collect?_eq_some hd
          exact ⟨⟨rfl, hcollect, Nat.le_of_succ_le hgathers.left_le, hgathers.signal,
            hgathers.workers, hgathers.length⟩, rfl⟩
  | withdraw =>
      cases hs
      exact ⟨h, rfl⟩

theorem Reached.reports_le (ha : start.Awaits) {leading : Leading S}
    (h : start.Reached store relay leading) :
    relay.distributor.reports ≤ start.distributor.workers := by
  have hcompletes := ha.completes
  cases leading with
  | greeting left => cases h
  | resting =>
      obtain rfl : relay = start.handedOut store := h
      exact Nat.zero_le _
  | distributing given next =>
      obtain ⟨rfl, h⟩ := h
      cases next with
      | publish =>
          obtain rfl : relay = start := h
          omega
      | release =>
          obtain rfl : relay = { start with distributor := start.distributor.publish given } := h
          simp only [Distributor.publish]
          omega
      | collect left =>
          obtain ⟨hgathers, hle, -, hworkers, -⟩ : start.GathersAfter given left relay := h
          have hcount := hgathers.reports
          have hadopted := List.countP_le_length (p := hasAdopted relay.distributor.signal)
            (l := relay.receivers)
          omega
      | withdraw =>
          have heq : { relay with distributor := relay.distributor.withdraw } =
            start.handedOut given := h
          have hreports : relay.distributor.reports = 0 :=
            congrArg (fun relay : Relay S => relay.distributor.reports) heq
          omega

end Relay

/-! ## All orders of the moves -/

namespace Circulation

variable {c c' : Circulation S} {start : Relay S} {store : S} {turn : Turn S}

/-- The leader is about to distribute `store` to these receivers. -/
def handing (start : Relay S) (store : S) : Circulation S :=
  ⟨start, .distributing store .publish, [store], List.replicate start.receivers.length []⟩

theorem reached_move? (ha : start.Awaits) (hturn : ∀ given, turn ≠ .give given)
    (h : start.Reached store c.relay c.leading) (hs : c.move? turn = some c') :
    start.Reached store c'.relay c'.leading ∧
      c'.relay.movesLeft c'.leading + 1 = c.relay.movesLeft c.leading := by
  cases turn with
  | give given => exact absurd rfl (hturn given)
  | lead =>
      change c.lead? = some c' at hs
      unfold lead? at hs
      split at hs
      · rename_i hleading
        rw [hleading] at h
        cases h
      · rename_i hleading
        rw [hleading] at h
        cases h
      · cases hs
      · rename_i given next hleading
        rw [hleading] at h ⊢
        obtain rfl : given = store := h.1
        split at hs
        · cases hs
        · rename_i relay rest hd
          cases hs
          exact h.distribute? ha hd
        · rename_i relay hd
          cases hs
          exact h.distribute? ha hd
  | greet w =>
      obtain ⟨relay, hgreet, -⟩ := Option.map_eq_some_iff.mp hs
      rcases h.collecting_or_still ha with ⟨left, -, hgathers⟩ | hstill
      · rw [hgathers.gathers.greet?] at hgreet
        cases hgreet
      · rw [hstill.greet?] at hgreet
        cases hgreet
  | read w =>
      obtain ⟨relay, hread, rfl⟩ := Option.map_eq_some_iff.mp hs
      rcases h.collecting_or_still ha with ⟨left, hleading, hgathers⟩ | hstill
      · have heffort := hgathers.gathers.effort_read? hread
        simp only [hleading, Relay.movesLeft]
        exact ⟨⟨rfl, hgathers.read? hread⟩, by omega⟩
      · rw [hstill.read?] at hread
        cases hread
  | adopt w =>
      obtain ⟨relay, hadopt, rfl⟩ := Option.map_eq_some_iff.mp hs
      rcases h.collecting_or_still ha with ⟨left, hleading, hgathers⟩ | hstill
      · have heffort := hgathers.gathers.effort_adopt? hadopt
        simp only [hleading, Relay.movesLeft]
        exact ⟨⟨rfl, hgathers.adopt? hadopt⟩, by omega⟩
      · rw [hstill.adopt?] at hadopt
        cases hadopt

theorem reached_run? (ha : start.Awaits) {turns : List (Turn S)}
    (hturns : ∀ given, .give given ∉ turns) (h : start.Reached store c.relay c.leading)
    (hrun : c.run? turns = some c') :
    start.Reached store c'.relay c'.leading ∧
      c'.relay.movesLeft c'.leading + turns.length = c.relay.movesLeft c.leading := by
  induction turns generalizing c with
  | nil =>
      cases hrun
      exact ⟨h, rfl⟩
  | cons turn rest ih =>
      obtain ⟨next, hmove, hrest⟩ := Option.bind_eq_some_iff.mp hrun
      have hturn : ∀ given, turn ≠ .give given := fun given heq => hturns given (by simp [heq])
      obtain ⟨hreached, hone⟩ := reached_move? ha hturn h hmove
      obtain ⟨hreached', hmoves⟩ := ih (fun given hg => hturns given (by simp [hg])) hreached hrest
      exact ⟨hreached', by simp only [List.length_cons]; omega⟩

/-- As long as a distribution is not over, somebody can move. -/
theorem exists_turn (h : start.Reached store c.relay c.leading) (hne : c.leading ≠ .resting) :
    ∃ turn, (∀ given, turn ≠ .give given) ∧ (c.move? turn).isSome = true := by
  have hlead (hs : (c.lead?).isSome = true) :
      ∃ turn, (∀ given, turn ≠ .give given) ∧ (c.move? turn).isSome = true :=
    ⟨.lead, by simp, hs⟩
  cases hleading : c.leading with
  | greeting left => rw [hleading] at h; cases h
  | resting => exact absurd hleading hne
  | distributing given next =>
      rw [hleading] at h
      cases next with
      | publish => exact hlead (by simp [lead?, hleading, Relay.distribute?])
      | release => exact hlead (by simp [lead?, hleading, Relay.distribute?])
      | withdraw => exact hlead (by simp [lead?, hleading, Relay.distribute?])
      | collect left =>
          cases left with
          | zero => exact hlead (by simp [lead?, hleading, Relay.distribute?])
          | succ n =>
              obtain ⟨rfl, hgathers⟩ : given = store ∧ start.GathersAfter store (n + 1) c.relay := h
              cases hreports : c.relay.distributor.reports with
              | succ m =>
                  exact hlead (by
                    simp [lead?, hleading, Relay.distribute?, Distributor.collect?, hreports])
              | zero =>
                  obtain ⟨w, -, hread | ⟨-, hadopt⟩⟩ :=
                    hgathers.gathers.exists_move hgathers.left_le hreports
                  · exact ⟨.read w, by simp, by simp [move?, hread]⟩
                  · exact ⟨.adopt w, by simp, by simp [move?, hadopt]⟩

/-- How a distribution goes that has come so many moves far. It never waits for anything but a move
that can be made, and no report waits for room. It is over after a number of moves that is known
beforehand, and then everybody has a copy of its own and nothing is left of it. -/
structure Hands (start : Relay S) (store : S) (moves : Nat) (c : Circulation S) : Prop where
  moves_le : moves ≤ start.distributor.workers + 2 * start.receivers.length + 4
  rests_iff : c.leading = .resting ↔
    moves = start.distributor.workers + 2 * start.receivers.length + 4
  handedOut : c.leading = .resting → c.relay = start.handedOut store
  goes_on : c.leading ≠ .resting →
    ∃ turn, (∀ given, turn ≠ .give given) ∧ (c.move? turn).isSome = true
  reports_le : c.relay.distributor.reports ≤ start.distributor.workers
  adopts : ∀ (w : Nat) (r : Receiver S) (source : Option S) (signal : Nat),
    c.relay.receivers[w]? = some r → r.receiving = .holding source signal →
    (c.relay.adopt? w).isSome = true

theorem movesLeft_pos (h : start.Reached store c.relay c.leading) (hne : c.leading ≠ .resting) :
    0 < c.relay.movesLeft c.leading := by
  cases hleading : c.leading with
  | greeting left => rw [hleading] at h; cases h
  | resting => exact absurd hleading hne
  | distributing given next => cases next <;> simp [Relay.movesLeft]

theorem hands_of_run? (ha : start.Awaits) {turns : List (Turn S)}
    (hturns : ∀ given, .give given ∉ turns) (hrun : (handing start store).run? turns = some c) :
    c.Hands start store turns.length := by
  have hbegin : start.Reached store (handing start store).relay (handing start store).leading :=
    ⟨rfl, rfl⟩
  obtain ⟨h, hmoves⟩ := reached_run? ha hturns hbegin hrun
  have hmoves : c.relay.movesLeft c.leading + turns.length =
    start.distributor.workers + 2 * start.receivers.length + 4 := hmoves
  refine ⟨by omega, ⟨fun hresting => ?_, fun hall => ?_⟩, fun hresting => ?_, exists_turn h,
    h.reports_le ha, fun w r source signal hw hholding => ?_⟩
  · simpa [hresting, Relay.movesLeft] using hmoves
  · by_contra hne
    have hpos := movesLeft_pos h hne
    omega
  · rw [hresting] at h
    exact h
  · rcases h.collecting_or_still ha with ⟨left, -, hgathers⟩ | hstill
    · have hnot : Relay.hasAdopted c.relay.distributor.signal r = false := by
        simp [Relay.hasAdopted, hholding]
      have hread : c.relay.read? w = none := by simp [Relay.read?, hw, hholding]
      rcases hgathers.gathers.isSome_of_not_adopted hgathers.left_le hw hnot with hsome | ⟨-, hsome⟩
      · simp [hread] at hsome
      · exact hsome
    · simp [(hstill r (List.mem_of_getElem? hw)).1] at hholding

end Circulation

end TxPipeline.Snapshot
