import TxPipeline.Snapshot.Distributor

/-!
# Distribution among disciplined receivers

A relay is a distributor together with one receiver per worker. A receiver reports once when it is
up, and from then on takes a copy only after the signal it holds was released. Taking has two moves,
between which others can move: reading the generation, and adopting its signal with a report.
Distributing has one move for each thing the distributor does.
-/

namespace TxPipeline.Snapshot

/-- Where a receiver is. -/
inductive Receiving (S : Type)
  /-- It has not reported that it is up. -/
  | fresh
  | parked
  /-- It has read a generation, its source and its signal, and not reported yet. -/
  | holding (source : Option S) (signal : Nat)

/-- One worker's view of the distributor. -/
structure Receiver (S : Type) where
  signal : Nat
  receiving : Receiving S
  copy : Option S

/-- What a distribution does next. -/
inductive Distribution
  | publish
  | release
  | collect (left : Nat)
  | withdraw
deriving DecidableEq

/-- How many copies of the store the next move of a distribution makes. -/
def Distribution.copies : Distribution → Nat
  | .publish => 1
  | _ => 0

/-- A distributor and its receivers. -/
structure Relay (S : Type) where
  distributor : Distributor S
  receivers : List (Receiver S)

namespace Relay

variable {S : Type}

/-- A distributor and as many receivers, none of which has reported. -/
def create (workers : Nat) : Relay S :=
  ⟨.create workers, List.replicate workers ⟨0, .fresh, none⟩⟩

/-- A relay all of whose receivers have reported and been counted. -/
def ready (workers : Nat) : Relay S :=
  ⟨.create workers, List.replicate workers ⟨0, .parked, none⟩⟩

def greet? (relay : Relay S) (w : Nat) : Option (Relay S) := do
  let r ← relay.receivers[w]?
  match r.receiving with
  | .fresh =>
      let d ← relay.distributor.report?
      some ⟨d, relay.receivers.set w { r with receiving := .parked }⟩
  | _ => none

/-- Receiver `w` reads the generation, once its signal was released. -/
def read? (relay : Relay S) (w : Nat) : Option (Relay S) := do
  let r ← relay.receivers[w]?
  match r.receiving with
  | .parked =>
      if relay.distributor.released r.signal then
        let d := relay.distributor
        some { relay with
          receivers := relay.receivers.set w { r with receiving := .holding d.source d.signal } }
      else none
  | _ => none

/-- Receiver `w` adopts the generation it has read and reports. -/
def adopt? (relay : Relay S) (w : Nat) : Option (Relay S) := do
  let r ← relay.receivers[w]?
  match r.receiving with
  | .holding source signal =>
      let d ← relay.distributor.report?
      some ⟨d, relay.receivers.set w ⟨signal, .parked, source⟩⟩
  | _ => none

/-- The next move of a distribution of `store`, and what remains of it. -/
def distribute? (relay : Relay S) (store : S) :
    Distribution → Option (Relay S × Option Distribution)
  | .publish => some ({ relay with distributor := relay.distributor.publish store }, some .release)
  | .release =>
      some ({ relay with distributor := relay.distributor.release },
        some (.collect relay.distributor.workers))
  | .collect 0 => some (relay, some .withdraw)
  | .collect (n + 1) => do
      let d ← relay.distributor.collect?
      some ({ relay with distributor := d }, some (.collect n))
  | .withdraw => some ({ relay with distributor := relay.distributor.withdraw }, none)

/-- Whether receiver `w` is between two copies, free to work. -/
def isParked (relay : Relay S) (w : Nat) : Bool :=
  match relay.receivers[w]? with
  | some r => match r.receiving with
    | .parked => true
    | _ => false
  | none => false

def copy? (relay : Relay S) (w : Nat) : Option S := (relay.receivers[w]?).bind (·.copy)

end Relay

end TxPipeline.Snapshot
