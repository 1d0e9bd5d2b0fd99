import TxPipeline.Gas.Ledger

/-!
# A session with one ledger

Requests that concern a ledger alone, and what they answer.
-/

namespace TxPipeline.Gas.Ledger

/-- What is asked of a ledger. -/
inductive Request
  | reserve (hash : Word)
  | record (hash : Word) (total : UInt64)
  | clear (hashes : List Word)
  | charge (hash : Word)
  | size

/-- What a ledger answers. -/
inductive Reply
  | size (size : Nat) (isEmpty : Bool)
  | charge (outcome : Except Error UInt64)

/-- The answer to a request for the size. -/
def sizeReply (ledger : Ledger) : Reply := .size ledger.size ledger.isEmpty

/-- Carries out a request; a change is answered with the size that it leads to. -/
def serve (ledger : Ledger) : Request → Reply × Ledger
  | .reserve hash => let ledger := ledger.reserve hash; (ledger.sizeReply, ledger)
  | .record hash total => let ledger := ledger.record hash total; (ledger.sizeReply, ledger)
  | .clear hashes => let ledger := ledger.clear hashes; (ledger.sizeReply, ledger)
  | .charge hash => (.charge (ledger.charge hash), ledger)
  | .size => (ledger.sizeReply, ledger)

end TxPipeline.Gas.Ledger
