import TxPipeline.Snapshot.Relay

/-!
# Stores in circulation

A leader waits until all receivers are up, and then distributes one store after the other. Receivers
and leader move in any order. What was given and what was taken is written down.
-/

namespace TxPipeline.Snapshot

/-- What the leader is doing. -/
inductive Leading (S : Type)
  /-- It waits until everybody is up, and `left` reports are still to be counted. -/
  | greeting (left : Nat)
  | resting
  | distributing (store : S) (next : Distribution)

/-- A relay with its leader. -/
structure Circulation (S : Type) where
  relay : Relay S
  leading : Leading S
  /-- The stores that the leader was told to distribute, oldest first. -/
  given : List S
  /-- What the takes of each receiver came to, oldest first. -/
  taken : List (List (Option S))

/-- What happens next. -/
inductive Turn (S : Type)
  /-- The leader is told to distribute `store`. -/
  | give (store : S)
  | lead
  | greet (w : Nat)
  | read (w : Nat)
  | adopt (w : Nat)

namespace Circulation

variable {S : Type}

/-- Nobody is up yet. -/
def create (workers : Nat) : Circulation S :=
  ⟨.create workers, .greeting workers, [], List.replicate workers []⟩

/-- The next move of the leader. It counts reports, or goes on with its distribution. -/
def lead? (c : Circulation S) : Option (Circulation S) :=
  match c.leading with
  | .greeting 0 => some { c with leading := .resting }
  | .greeting (n + 1) => c.relay.distributor.collect?.map fun d =>
      { c with relay := { c.relay with distributor := d }, leading := .greeting n }
  | .resting => none
  | .distributing store next =>
      match c.relay.distribute? store next with
      | none => none
      | some (relay, some rest) => some { c with relay, leading := .distributing store rest }
      | some (relay, none) => some { c with relay, leading := .resting }

def move? (c : Circulation S) : Turn S → Option (Circulation S)
  | .give store =>
      match c.leading with
      | .resting =>
          some { c with leading := .distributing store .publish, given := c.given ++ [store] }
      | _ => none
  | .lead => c.lead?
  | .greet w => (c.relay.greet? w).map fun relay => { c with relay }
  | .read w => (c.relay.read? w).map fun relay => { c with relay }
  | .adopt w => (c.relay.adopt? w).map fun relay =>
      { c with relay, taken := c.taken.modify w (· ++ [relay.copy? w]) }

/-- What is circulating after these turns, if all of them can happen. -/
def run? (c : Circulation S) : List (Turn S) → Option (Circulation S)
  | [] => some c
  | turn :: rest => (c.move? turn).bind fun c => c.run? rest

end Circulation

end TxPipeline.Snapshot
