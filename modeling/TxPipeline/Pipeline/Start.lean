import TxPipeline.Pipeline.Basic

/-!
# Starting a block

A call to start a block holds the lock on the active block until it returns. It decides about every
transaction before it touches a handler, so that a refusal leaves nothing behind but an emptied part
of the ledger. Then it opens the stations, distributes the store, starts the preparations, writes
the results of declined transactions, and starts everything that works on the rest.

All threads of a block are spawned between the two. If the operating system denies one of them, the
others are called off before they have done anything, and the call takes the reservations back.
-/

namespace TxPipeline.Pipeline

variable {F : Flow}

def gasAnswers (p : Pipeline F) (tx : IndexedTx) (rules : Rules) :
    List (Except Fault (Option UInt64)) :=
  p.stations.map fun s => s.handler.gas tx rules

/-- Decides about one transaction, and reserves its gas. -/
def shouldProcess (p : Pipeline F) (tx : IndexedTx) (rules : Rules) :
    Except Failure (List Bool) × Pipeline F :=
  let d := p.ledger.assess (p.gasAnswers tx rules) tx rules
  (d.outcome, { p with ledger := d.ledger, log := p.log ++ d.events })

/-- Decides about transactions in order, up to the first that fails. -/
def scan (p : Pipeline F) (rules : Rules) :
    List IndexedTx → Except (Failure × IndexedTx) (List (IndexedTx × List Bool)) × Pipeline F
  | [] => (.ok [], p)
  | tx :: rest =>
      match p.shouldProcess tx rules with
      | (.error failure, p) => (.error (failure, tx), p)
      | (.ok eligible, p) =>
          match p.scan rules rest with
          | (.error e, p) => (.error e, p)
          | (.ok decisions, p) => (.ok ((tx, eligible) :: decisions), p)

/-- The work that decisions mark, or that they leave out if `wanted` is false, by transaction and
then by handler. -/
def jobsOf (wanted : Bool) (decisions : List (IndexedTx × List Bool)) : List Job :=
  decisions.flatMap fun (tx, eligible) =>
    eligible.zipIdx.filterMap fun (marked, h) => if marked == wanted then some ⟨h, tx⟩ else none

/-- Makes a place for the feeders of a new block. -/
def addFeeders (p : Pipeline F) : Pipeline F := { p with feeders := p.feeders ++ [⟨[], []⟩] }

/-- Starts the preparations of a lane, each on a copy of the store. -/
def prepareAll (p : Pipeline F) (lane : Nat) (store : F.Store) (rules : Rules) (block : Block) :
    Pipeline F :=
  { p with
    stations := p.stations.map fun s => s.prepare lane store rules block
    copies := p.copies + p.stations.length }

/-- Starts the feeders and the aggregations of a block. -/
def dispatchAll (p : Pipeline F) (plan : Plan) : Pipeline F :=
  { p with
    feeders := p.feeders.set plan.lane ⟨plan.jobs, plan.jobs⟩
    stations := p.stations.map fun s => s.aggregate plan.lane }

def activate (p : Pipeline F) (block : Block) (plan : Plan) : Pipeline F :=
  { p with active := some ⟨block.number, block.hashes, plan.lane⟩ }.note
    (.blockStarted block.number block.length plan.jobs.length)

/-- Ends a call to start a block and gives the lock back. -/
def endStart (p : Pipeline F) (c : Nat) (outcome : Except Failure Unit) : Pipeline F :=
  { p with locked := false }.setCall c (.returned (.started outcome))

/-- The next move of call `c`, which starts a block. -/
def stepStart? (p : Pipeline F) (c : Nat) (store : F.Store) (rules : Rules) (block : Block) :
    Starting → Option (Pipeline F)
  | .acquire =>
      if p.locked then none
      else
        match p.active with
        | some active =>
            some (p.setCall c
              (.returned (.started (.error (.error (.blockInProgress active.number))))))
        | none => some ({ p with locked := true }.setCall c (.start store rules block .enter))
  | .enter =>
      if p.isOpen then some (p.setCall c (.start store rules block .scan))
      else some (p.endStart c (.error (.error .closed)))
  | .scan =>
      match p.scan rules block.indexed with
      | (.error (.fault fault, _), p) => some (p.endStart c (.error (.fault fault)))
      | (.error (.error error, tx), p) =>
          let ledger := p.ledger.clear (block.hashes.take (tx.index + 1))
          some ({ p with ledger }.endStart c (.error (.error error)))
      | (.ok decisions, p) =>
          let plan : Plan :=
            ⟨p.feeders.length, jobsOf false decisions, jobsOf true decisions⟩
          some (p.addFeeders.setCall c (.start store rules block (.opening plan 0)))
  | .opening plan h =>
      match p.stations[h]? with
      | some s =>
          some ((p.setStation h (s.openBlock block.length)).setCall c
            (.start store rules block (.opening plan (h + 1))))
      | none => some (p.setCall c (.start store rules block (.distributing plan .publish)))
  | .distributing plan next =>
      match p.relay.distribute? store next with
      | none => none
      | some (relay, some rest) =>
          some ({ p with relay, copies := p.copies + next.copies }.setCall c
            (.start store rules block (.distributing plan rest)))
      | some (relay, none) =>
          some (({ p with relay }.note (.snapshotsDistributed relay.distributor.workers)).setCall c
            (.start store rules block (.preparing plan)))
  | .preparing plan =>
      some ((p.prepareAll plan.lane store rules block).setCall c
        (.start store rules block (.declining plan plan.declined)))
  | .declining plan [] => some (p.setCall c (.start store rules block (.dispatching plan)))
  | .declining plan (job :: rest) =>
      match p.stations[job.handler]? with
      | none => some (p.setCall c (.start store rules block (.declining plan rest)))
      | some s =>
          match s.announce (.declined job.tx) with
          | .error fault => some (p.endStart c (.error (.fault fault)))
          | .ok s =>
              some ((p.setStation job.handler s).setCall c
                (.start store rules block (.settling plan job rest)))
  | .settling plan job rest =>
      match p.stations[job.handler]? with
      | none => some (p.setCall c (.start store rules block (.declining plan rest)))
      | some s =>
          match s.settle (.declined job.tx) with
          | .error fault => some (p.endStart c (.error (.fault fault)))
          | .ok s =>
              some ((p.setStation job.handler s).setCall c
                (.start store rules block (.declining plan rest)))
  | .dispatching plan =>
      some ((p.dispatchAll plan).setCall c (.start store rules block (.activating plan)))
  | .activating plan => some ((p.activate block plan).endStart c (.ok ()))

/-- The end of call `c`, which has decided about every transaction of its block and is denied a
thread. -/
def deny? (p : Pipeline F) (c : Nat) (reason : String) : Option (Pipeline F) :=
  match p.calls[c]? with
  | some (.start _ rules block .scan) =>
      match p.scan rules block.indexed with
      | (.error _, _) => none
      | (.ok _, p) =>
          let ledger := p.ledger.clear block.hashes
          some ({ p with ledger }.endStart c (.error (.error (.spawn reason))))
  | _ => none

end TxPipeline.Pipeline
