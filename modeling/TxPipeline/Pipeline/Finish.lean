import TxPipeline.Pipeline.Basic

/-!
# Finishing a block

A call to finish a block takes the active block and waits for the preparations, the feeders and the
aggregations in this order. It runs `afterBlock` of each handler as soon as the aggregate of that
handler is there, the handlers in order. Then it resets every station, each after all its results
were written, and clears the ledger.

A fault of a preparation, an aggregation or an `afterBlock` ends the call at once and leaves the
rest undone. A fault of a worker stage is raised at the end, when everything was reset.
-/

namespace TxPipeline.Pipeline

variable {F : Flow}

def endFinish (p : Pipeline F) (c : Nat) (store : F.Store) (fault : Option Fault) : Pipeline F :=
  p.setCall c (.returned (.finished fault store))

/-- The next move of call `c`, which finishes a block. -/
def stepFinish? (p : Pipeline F) (c : Nat) (store : F.Store) (block : Block)
    (receipts : List Receipt) : Finishing → Option (Pipeline F)
  | .take =>
      if p.locked then none
      else
        match p.active with
        | none => some ((p.note (.finishedWithoutBlock block.number)).endFinish c store none)
        | some active =>
            let p := { p with active := none }
            if active.number = block.number then
              some (p.setCall c (.finish store block receipts (.joinPreparation active 0)))
            else
              some (p.endFinish c store (some (.blockMismatch active.number block.number)))
  | .joinPreparation active h =>
      match p.stations[h]? with
      | none => some (p.setCall c (.finish store block receipts (.joinFeeders active)))
      | some s =>
          match s.preparation? active.lane with
          | some .ended =>
              some (p.setCall c (.finish store block receipts (.joinPreparation active (h + 1))))
          | some (.dead fault) => some (p.endFinish c store (some fault))
          | _ => none
  | .joinFeeders active =>
      match p.feeders[active.lane]? with
      | some ⟨[], []⟩ =>
          some (p.setCall c (.finish store block receipts (.joinAggregation active 0)))
      | _ => none
  | .joinAggregation active h =>
      match p.stations[h]? with
      | none => some (p.setCall c (.finish store block receipts (.ending active 0 none)))
      | some s =>
          match s.aggregation? active.lane with
          | some .ended =>
              some (p.setCall c (.finish store block receipts (.conclude active h)))
          | some (.dead fault) => some (p.endFinish c store (some fault))
          | _ => none
  | .conclude active h => do
      let s ← p.stations[h]?
      let (aggregate, s') ← s.takeAggregate?
      let p := p.setStation h s'
      match s.handler.afterBlock store aggregate block receipts with
      | (store, some fault) => some (p.endFinish c store (some fault))
      | (store, none) =>
          some (p.setCall c (.finish store block receipts (.joinAggregation active (h + 1))))
  | .ending active h kept =>
      match p.stations[h]? with
      | none => some (p.setCall c (.finish store block receipts (.leaving active kept)))
      | some s =>
          some (p.setCall c
            (.finish store block receipts (.draining active h 0 s.blockLength kept)))
  | .draining active h index length kept =>
      if index < length then do
        let s ← p.stations[h]?
        let s ← s.drain? index
        some ((p.setStation h s).setCall c
          (.finish store block receipts (.draining active h (index + 1) length kept)))
      else some (p.setCall c (.finish store block receipts (.closing active h kept)))
  | .closing active h kept => do
      let s ← p.stations[h]?
      some ((p.setStation h s.closeBlock).setCall c
        (.finish store block receipts (.ending active (h + 1) (kept <|> s.fault))))
  | .leaving active kept =>
      let p := { p with ledger := p.ledger.clear active.hashes }
      match kept with
      | some fault => some (p.endFinish c store (some fault))
      | none =>
          some ((p.note (.blockFinished active.number active.hashes.length)).endFinish c store none)

end TxPipeline.Pipeline
