import TxPipeline.Event
import TxPipeline.Gas.Intrinsic
import TxPipeline.Gas.Ledger

/-!
# Reservations

Whether the handlers that want a transaction can be paid for it. Their costs are summed, stopping at
the largest 64-bit number; if the gas that intrinsic gas leaves does not cover the sum, no handler
works on the transaction and nothing is reserved.

The hash of the transaction is in the ledger with a zero from before the first handler is asked, and
stays there if the transaction is refused.
-/

namespace TxPipeline.Gas

/-- The sum of the accepted costs, as far as 64 bits go. -/
def totalCost (answers : List (Option UInt64)) : UInt64 :=
  answers.foldl (fun total answer => addSaturating total (answer.getD 0)) 0

/-- The answers of all handlers, or the first fault among them. -/
def gather : List (Except Fault (Option UInt64)) → Except Fault (List (Option UInt64))
  | [] => .ok []
  | .error fault :: _ => .error fault
  | .ok answer :: rest => (gather rest).map (answer :: ·)

/-- What becomes of one transaction. -/
structure Reservation where
  /-- For each handler, whether it works on the transaction. -/
  eligible : List Bool
  /-- What is reserved for all of them together. -/
  total : UInt64
deriving DecidableEq

/-- The reservation for a transaction, given what its intrinsic gas leaves and what the handlers
answer. -/
def reservation (available : UInt64) (answers : List (Option UInt64)) : Reservation :=
  let total := totalCost answers
  if available < total then ⟨answers.map fun _ => false, 0⟩
  else ⟨answers.map Option.isSome, total⟩

/-- What a decision leaves behind: the outcome, the ledger, and the events on the way. -/
structure Decision where
  outcome : Except Failure (List Bool)
  ledger : Ledger
  events : List Event

/-- Decides about a transaction, given what the handlers answer, and writes it into the ledger. -/
def Ledger.assess (ledger : Ledger) (answers : List (Except Fault (Option UInt64))) (tx : IndexedTx)
    (rules : Rules) : Decision :=
  let ledger := ledger.reserve tx.hash
  match gather answers with
  | .error fault => ⟨.error (.fault fault), ledger, []⟩
  | .ok answers =>
      match intrinsicOf tx.tx rules with
      | .error error => ⟨.error (.error error), ledger, []⟩
      | .ok intrinsic =>
          let limit := tx.tx.gasLimit
          if limit < intrinsic then
            ⟨.error (.error (.intrinsicGasExceedsLimit tx.hash intrinsic limit)), ledger,
              [.intrinsicViolation tx.index tx.hash intrinsic limit]⟩
          else
            let available := limit - intrinsic
            let required := totalCost answers
            let r := reservation available answers
            ⟨.ok r.eligible, ledger.record tx.hash r.total,
              if available < required then [.insufficientGas tx.index available required] else []⟩

end TxPipeline.Gas
