import TxPipeline.Proofs.Copies
import TxPipeline.Proofs.Erasure.Threads

/-!
# Calls without those that leave nothing behind

The calls that are kept go on as if the others had not been made. Those are calls to start a block
that are refused, or may still be, and calls to close the pipeline.
-/

namespace TxPipeline

variable {F : Flow}

/-- Whether the call is to start a block that is refused, or has not been brought into work yet. -/
def Call.isRefusable : Call F → Bool
  | .start _ _ _ next => !next.isAccepted
  | .returned (.started (.error (.error _))) => true
  | _ => false

namespace Pipeline

variable {revived : Bool} {dropped : Nat → Bool} {p p' q : Pipeline F} {c : Nat}
  {store : F.Store} {rules : Rules} {block : Block}

/-! ## The lock -/

/-- The lock on the active block is held by the call that is starting one. -/
theorem Governs.locked_eq (hp : p.Governs) : p.locked = p.calls.any Call.holdsLock := by
  cases hp with
  | free hlocked hfree hrelay =>
      rw [hlocked, eq_comm, List.any_eq_false]
      intro call hmem
      obtain ⟨i, hi⟩ := List.mem_iff_getElem?.mp hmem
      simp [hfree i call hi]
  | held c store rules block next hlocked hcall hholds hothers hrelay =>
      rw [hlocked, eq_comm, List.any_eq_true]
      exact ⟨_, List.mem_of_getElem? hcall, hholds⟩

/-! ## The scan -/

/-- What a scan says depends on the handlers alone. -/
theorem scan_congr (hstations : p'.stations = p.stations)
    (hledger : ∀ hash, p'.ledger.find? hash = p.ledger.find? hash) (rules : Rules)
    (txs : List IndexedTx) : (p'.scan rules txs).1 = (p.scan rules txs).1 ∧
      ∀ hash, (p'.scan rules txs).2.ledger.find? hash =
        (p.scan rules txs).2.ledger.find? hash := by
  induction txs generalizing p p' with
  | nil => exact ⟨rfl, hledger⟩
  | cons tx rest ih =>
      have hfst : (p'.shouldProcess tx rules).1 = (p.shouldProcess tx rules).1 := by
        rw [shouldProcess_fst rfl, shouldProcess_fst rfl, hstations]
      have hfind (hash : Word) : (p'.shouldProcess tx rules).2.ledger.find? hash =
          (p.shouldProcess tx rules).2.ledger.find? hash := by
        rw [find?_shouldProcess rfl, find?_shouldProcess rfl, hstations, hledger]
      have hsame : (p'.shouldProcess tx rules).2.stations =
          (p.shouldProcess tx rules).2.stations := hstations
      have hrest := ih hsame hfind
      rcases hp : p.shouldProcess tx rules with ⟨outcome, next⟩
      rcases hp' : p'.shouldProcess tx rules with ⟨outcome', next'⟩
      rw [scan, scan, hp, hp']
      rw [hp, hp'] at hfst hfind hrest
      obtain rfl : outcome' = outcome := hfst
      cases outcome' with
      | error failure => exact ⟨rfl, hfind⟩
      | ok eligible =>
          rcases hs : next.scan rules rest with ⟨first, last⟩
          rcases hs' : next'.scan rules rest with ⟨first', last'⟩
          rw [hs, hs'] at hrest
          obtain ⟨heq, hlast⟩ := hrest
          obtain rfl : first' = first := heq
          dsimp only
          rw [hs, hs']
          cases first' with
          | error e => exact ⟨rfl, hlast⟩
          | ok decisions => exact ⟨rfl, hlast⟩

namespace Erases

variable (hp : p.Erases revived dropped p')

include hp

/-! ## Calls that are kept -/

theorem setCall (hkept : dropped c = false) (call : Call F) :
    (p.setCall c call).Erases revived dropped (p'.setCall (rank dropped c) call) :=
  { hp with calls := by rw [Pipeline.setCall, Pipeline.setCall, hp.calls, keep_set_of_kept hkept] }

theorem lock (locked locked' : Bool) : ({ p with locked } : Pipeline F).Erases revived dropped
    { p' with locked := locked' } := { hp with }

theorem setActive (active : Option ActiveBlock) :
    ({ p with active } : Pipeline F).Erases revived dropped { p' with active } :=
  { hp with active := rfl }

theorem endStart (hkept : dropped c = false) (outcome : Except Failure Unit) :
    (p.endStart c outcome).Erases revived dropped (p'.endStart (rank dropped c) outcome) :=
  (hp.lock false false).setCall hkept _

theorem scan (rules : Rules) (txs : List IndexedTx) :
    (p'.scan rules txs).1 = (p.scan rules txs).1 ∧
    (p.scan rules txs).2.Erases revived dropped (p'.scan rules txs).2 := by
  obtain ⟨houtcome, hledger⟩ := scan_congr hp.stations hp.ledger rules txs
  obtain ⟨ledger, log, hsnd⟩ := scan_snd p rules txs
  obtain ⟨ledger', log', hsnd'⟩ := scan_snd p' rules txs
  rw [hsnd, hsnd'] at hledger
  rw [hsnd, hsnd']
  exact ⟨houtcome, { hp with ledger := hledger }⟩

/-- A scan comes to the same without the dropped calls. -/
theorem exists_scan {txs : List IndexedTx} {ledger : Gas.Ledger} {log : List Event}
    {outcome : Except (Failure × IndexedTx) (List (IndexedTx × List Bool))}
    (hscan : p.scan rules txs = (outcome, { p with ledger, log })) :
    ∃ ledger' log', p'.scan rules txs = (outcome, { p' with ledger := ledger', log := log' }) ∧
      ({ p with ledger, log } : Pipeline F).Erases revived dropped
        { p' with ledger := ledger', log := log' } := by
  obtain ⟨houtcome, herases⟩ := hp.scan rules txs
  obtain ⟨ledger', log', hsnd'⟩ := scan_snd p' rules txs
  rw [hscan] at houtcome herases
  rw [hsnd'] at herases
  exact ⟨ledger', log', Prod.ext houtcome hsnd', herases⟩

theorem clear (hashes : List Word) :
    ({ p with ledger := p.ledger.clear hashes } : Pipeline F).Erases revived dropped
      { p' with ledger := p'.ledger.clear hashes } :=
  { hp with ledger := fun hash => by simp only [Gas.Ledger.find?_clear, hp.ledger] }

theorem addFeeders : p.addFeeders.Erases revived dropped p'.addFeeders :=
  { hp with feeders := by simp only [Pipeline.addFeeders, hp.feeders] }

theorem prepareAll (lane : Nat) (store : F.Store) (rules : Rules) (block : Block) :
    (p.prepareAll lane store rules block).Erases revived dropped
      (p'.prepareAll lane store rules block) :=
  { hp with
    stations := by simp only [Pipeline.prepareAll, hp.stations]
    copies := by simp only [Pipeline.prepareAll, hp.stations, hp.copies] }

theorem dispatchAll (plan : Plan) :
    (p.dispatchAll plan).Erases revived dropped (p'.dispatchAll plan) :=
  { hp with
    feeders := by simp only [Pipeline.dispatchAll, hp.feeders]
    stations := by simp only [Pipeline.dispatchAll, hp.stations] }

/-- A call that is denied a thread is denied it without the dropped calls as well. -/
theorem deny? {reason : String} (hkept : dropped c = false) (hdeny : p.deny? c reason = some q) :
    ∃ q', p'.deny? (rank dropped c) reason = some q' ∧ q.Erases revived dropped q' := by
  cases denyMove_of_deny? hdeny with
  | deny store rules block decisions ledger log hcall hscan =>
      have hcall' : p'.calls[rank dropped c]? = some (.start store rules block .scan) := by
        rw [hp.calls]
        exact getElem?_keep hcall hkept
      obtain ⟨ledger', log', hscan', hafter⟩ := hp.exists_scan hscan
      refine ⟨_, ?_, (hafter.clear _).endStart hkept _⟩
      simp [Pipeline.deny?, hcall', hscan']

/-- A call to start a block makes the same move without the dropped calls, unless it finds the
pipeline closed that would be open then. -/
theorem stepStart? {next : Starting} (hkept : dropped c = false)
    (hunlocked : p.locked = false → p'.locked = false)
    (hopen : revived = true → next = .enter → p.isOpen = true)
    (hstep : p.stepStart? c store rules block next = some q) :
    ∃ q', p'.stepStart? (rank dropped c) store rules block next = some q' ∧
      q.Erases revived dropped q' := by
  have hrelay (relay : Snapshot.Relay F.Store) (n : Nat) :
      ({ p with relay, copies := p.copies + n } : Pipeline F).Erases revived dropped
        { p' with relay, copies := p'.copies + n } :=
    { hp with relay := rfl, copies := by simp only [hp.copies] }
  cases startMove_of_stepStart? hstep with
  | refuse active hfree hactive =>
      refine ⟨_, ?_, hp.setCall hkept _⟩
      simp [Pipeline.stepStart?, hunlocked hfree, hp.active, hactive]
  | acquire hfree hactive =>
      refine ⟨_, ?_, (hp.lock true true).setCall hkept _⟩
      simp [Pipeline.stepStart?, hunlocked hfree, hp.active, hactive]
  | enter hisOpen =>
      refine ⟨_, ?_, hp.setCall hkept _⟩
      simp [Pipeline.stepStart?, hp.isOpen, hisOpen]
  | closed hclosed =>
      cases revived with
      | true => cases (hopen rfl rfl).symm.trans hclosed
      | false =>
          refine ⟨_, ?_, hp.endStart hkept _⟩
          simp [Pipeline.stepStart?, hp.isOpen, hclosed]
  | scanFault fault tx ledger log hscan =>
      obtain ⟨ledger', log', hscan', hafter⟩ := hp.exists_scan hscan
      refine ⟨_, ?_, hafter.endStart hkept _⟩
      simp [Pipeline.stepStart?, hscan']
  | scanError error tx ledger log hscan =>
      obtain ⟨ledger', log', hscan', hafter⟩ := hp.exists_scan hscan
      refine ⟨_, ?_, (hafter.clear _).endStart hkept _⟩
      simp [Pipeline.stepStart?, hscan']
  | scan decisions ledger log hscan =>
      obtain ⟨ledger', log', hscan', hafter⟩ := hp.exists_scan hscan
      refine ⟨_, ?_, hafter.addFeeders.setCall hkept _⟩
      simp [Pipeline.stepStart?, hscan', hp.feeders]
  | openStation plan h s hs =>
      refine ⟨_, ?_, (hp.setStation h _).setCall hkept _⟩
      simp [Pipeline.stepStart?, hp.stations, hs]
  | opened plan h hs =>
      refine ⟨_, ?_, hp.setCall hkept _⟩
      simp [Pipeline.stepStart?, hp.stations, hs]
  | distribute plan next rest relay hdistribute =>
      refine ⟨_, ?_, (hrelay relay next.copies).setCall hkept _⟩
      simp [Pipeline.stepStart?, hp.relay, hdistribute]
  | distributed plan next relay hdistribute =>
      refine ⟨_, ?_, ((hrelay relay 0).note _).setCall hkept _⟩
      simp [Pipeline.stepStart?, hp.relay, hdistribute]
  | prepare plan => exact ⟨_, rfl, (hp.prepareAll _ _ _ _).setCall hkept _⟩
  | declined plan => exact ⟨_, rfl, hp.setCall hkept _⟩
  | skipAnnounce plan job rest hs | skipSettle plan job rest hs =>
      refine ⟨_, ?_, hp.setCall hkept _⟩
      simp [Pipeline.stepStart?, hp.stations, hs]
  | announceFault plan job rest s fault hs hput | settleFault plan job rest s fault hs hput =>
      refine ⟨_, ?_, hp.endStart hkept _⟩
      simp [Pipeline.stepStart?, hp.stations, hs, hput]
  | announce plan job rest s s' hs hput | settle plan job rest s s' hs hput =>
      refine ⟨_, ?_, (hp.setStation job.handler s').setCall hkept _⟩
      simp [Pipeline.stepStart?, hp.stations, hs, hput]
  | dispatch plan => exact ⟨_, rfl, (hp.dispatchAll plan).setCall hkept _⟩
  | activate plan => exact ⟨_, rfl, ((hp.setActive _).note _).endStart hkept _⟩

/-- A call to finish a block makes the same move without the dropped calls. -/
theorem stepFinish? {receipts : List Receipt} {next : Finishing} (hkept : dropped c = false)
    (hunlocked : p.locked = false → p'.locked = false)
    (hstep : p.stepFinish? c store block receipts next = some q) :
    ∃ q', p'.stepFinish? (rank dropped c) store block receipts next = some q' ∧
      q.Erases revived dropped q' := by
  cases finishMove_of_stepFinish? hstep with
  | miss hfree hactive =>
      refine ⟨_, ?_, (hp.note _).setCall hkept _⟩
      simp [Pipeline.stepFinish?, hunlocked hfree, hp.active, hactive, endFinish]
  | take active hfree hactive hnumber =>
      refine ⟨_, ?_, (hp.setActive none).setCall hkept _⟩
      simp [Pipeline.stepFinish?, hunlocked hfree, hp.active, hactive, hnumber]
  | mismatch active hfree hactive hnumber =>
      refine ⟨_, ?_, (hp.setActive none).setCall hkept _⟩
      simp [Pipeline.stepFinish?, hunlocked hfree, hp.active, hactive, hnumber, endFinish]
  | prepared active h hs | aggregated active h hs | reset active h kept hs
    | beginReset active h kept s hs =>
      refine ⟨_, ?_, hp.setCall hkept _⟩
      simp [Pipeline.stepFinish?, hp.stations, hs]
  | joinPreparation active h s hs hended | joinAggregation active h s hs hended =>
      refine ⟨_, ?_, hp.setCall hkept _⟩
      simp [Pipeline.stepFinish?, hp.stations, hs, hended]
  | preparationDead active h s fault hs hdead | aggregationDead active h s fault hs hdead =>
      refine ⟨_, ?_, hp.setCall hkept _⟩
      simp [Pipeline.stepFinish?, hp.stations, hs, hdead, endFinish]
  | joinFeeders active hfeeders =>
      refine ⟨_, ?_, hp.setCall hkept _⟩
      simp [Pipeline.stepFinish?, hp.feeders, hfeeders]
  | concludeFault active h s s' a fault store' hs htake hafter =>
      refine ⟨_, ?_, (hp.setStation h s').setCall hkept _⟩
      simp [Pipeline.stepFinish?, hp.stations, hs, htake, hafter, endFinish]
  | conclude active h s s' a store' hs htake hafter =>
      refine ⟨_, ?_, (hp.setStation h s').setCall hkept _⟩
      simp [Pipeline.stepFinish?, hp.stations, hs, htake, hafter]
  | drain active h i length kept s s' hlt hs hdrain =>
      refine ⟨_, ?_, (hp.setStation h s').setCall hkept _⟩
      simp [Pipeline.stepFinish?, hp.stations, hlt, hs, hdrain]
  | drained active h i length kept hle =>
      refine ⟨_, ?_, hp.setCall hkept _⟩
      simp [Pipeline.stepFinish?, Nat.not_lt_of_le hle]
  | closeStation active h kept s hs =>
      refine ⟨_, ?_, (hp.setStation h s.closeBlock).setCall hkept _⟩
      simp [Pipeline.stepFinish?, hp.stations, hs]
  | leaveFault active fault => exact ⟨_, rfl, (hp.clear active.hashes).setCall hkept _⟩
  | leave active => exact ⟨_, rfl, ((hp.clear active.hashes).note _).setCall hkept _⟩

omit hp in
/-- A call to close the pipeline makes the same move without the dropped calls. -/
theorem stepClose? {next : Closing} (hp : p.Erases false dropped p') (hkept : dropped c = false)
    (hunlocked : p.locked = false → p'.locked = false) (hstep : p.stepClose? c next = some q) :
    ∃ q', p'.stepClose? (rank dropped c) next = some q' ∧ q.Erases false dropped q' := by
  have hworkers : p'.workers = p.workers := hp.workers.trans (Worker.map_revive_false _)
  cases closeMove_of_stepClose? hstep with
  | take hopen =>
      have hclose : ({ p with isOpen := false } : Pipeline F).Erases false dropped
          { p' with isOpen := false } := { hp with isOpen := rfl }
      refine ⟨_, ?_, hclose.setCall hkept _⟩
      simp [Pipeline.stepClose?, hp.isOpen, hopen]
  | miss hopen =>
      refine ⟨_, ?_, (hp.note _).setCall hkept _⟩
      simp [Pipeline.stepClose?, hp.isOpen, hopen]
  | check log hfree =>
      simp only [Pipeline.stepClose?, hunlocked hfree, Bool.false_eq_true, if_false]
      refine ⟨_, rfl, ?_⟩
      split <;> exact { hp.setCall hkept _ with poolSenders := rfl }
  | closed w hw =>
      refine ⟨_, ?_, (hp.note _).setCall hkept _⟩
      simp [Pipeline.stepClose?, hworkers, hw]
  | join w worker hw hexited =>
      refine ⟨_, ?_, hp.setCall hkept _⟩
      simp [Pipeline.stepClose?, hworkers, hw, hexited]
  | lost w worker fault hw hdead =>
      refine ⟨_, ?_, (hp.note _).setCall hkept _⟩
      simp [Pipeline.stepClose?, hworkers, hw, hdead]

end Erases

end Pipeline

end TxPipeline
