import TxPipeline.Gas.Ledger.Session
import TxPipeline.Pipeline.Schedule
import TxPipeline.Script.Stages

/-!
# A session with one pipeline

One caller drives a pipeline of scripted handlers: it starts and finishes blocks, reads results and
charges, and looks at the store and the log. The threads of the pipeline work while it waits for an
answer.
-/

namespace TxPipeline.Script

/-- What the caller does next. -/
inductive Request
  | should (index : Nat) (rules : Rules) (tx : Transaction)
  | start (rules : Rules) (block : Block)
  | result (h index : Nat)
  | results (h : Nat)
  | readers (h index n : Nat)
  | charge (hash : Word)
  | charges
  | ledger (request : Gas.Ledger.Request)
  /-- Finishes the given block, or the current one. -/
  | finish (receipts : List Receipt) (block : Option Block)
  | set (address : Address) (key value : Word)
  | get (address : Address) (key : Word)
  | accounts
  | snapshots
  | handle (h : Nat)
  | close
  | isClosed
  | logs

/-- What a read of a result yields; nothing inside says that the transaction was declined. -/
abbrev Reading := Except Fault (Option Value)

/-- A fault that a worker has caught. -/
structure Caught where
  handler : String
  stage : Stage
  index : Nat

/-- What the caller learns. -/
inductive Reply
  | decided (outcome : Except Failure (List Bool))
  | started (outcome : Except Failure Unit)
  | reading (reading : Reading)
  | readings (readings : List Reading)
  | results (outcome : Except Fault (List (Option Value)))
  | charge (outcome : Except Error UInt64)
  | charges (outcomes : List (Except Error UInt64))
  | ledger (reply : Gas.Ledger.Reply)
  | finished (fault : Option Fault) (entries : List Entry) (caught : List Caught)
  | number (n : Nat)
  | word (w : Word)
  | text (text : String)
  | flag (b : Bool)
  | events (events : List Event)
  /-- The pipeline came to rest before the call returned. -/
  | stuck

/-- A pipeline, the store it works for, and the block that was started last. -/
structure Session where
  pipeline : Pipeline flow
  world : World
  current : Block

namespace Session

def patience : Nat := 1000000000

/-- A new session, if the configuration can work. -/
def create (config : Config) (scripts : List Script) (storage : Storage) : Except Error Session :=
  let registry := scripts.foldl (fun r script => r.register script.handler) Registry.empty
  (Pipeline.create config registry).map fun pipeline => ⟨pipeline, ⟨storage, []⟩, .empty⟩

/-- Makes a call and waits for it. -/
def perform (session : Session) (task : Task flow) : Option (Answer flow) × Session :=
  let (answer, pipeline) := session.pipeline.perform patience task
  (answer, { session with pipeline })

def read (session : Session) (h index : Nat) : Reading × Session :=
  let (outcome, pipeline) := session.pipeline.readResult patience h index
  (outcome.map fun r => r.bind (·.output), { session with pipeline })

/-- Reads results in order, up to the first fault. -/
def readAll (session : Session) (h : Nat) :
    List Nat → Except Fault (List (Option Value)) × Session
  | [] => (.ok [], session)
  | index :: rest =>
      match session.read h index with
      | (.error fault, session) => (.error fault, session)
      | (.ok value, session) =>
          let (outcome, session) := session.readAll h rest
          (outcome.map (value :: ·), session)

def readMany (session : Session) (h index : Nat) : Nat → List Reading × Session
  | 0 => ([], session)
  | n + 1 =>
      let (reading, session) := session.read h index
      let (readings, session) := session.readMany h index n
      (reading :: readings, session)

/-- The fault of a worker stage that an event reports. -/
def caught? : Event → Option Caught
  | .stageFaulted handler stage index => some ⟨handler, stage, index⟩
  | _ => none

/-- The order of faults in a report: by handler, by transaction, by stage. -/
def Caught.le (a b : Caught) : Bool :=
  if a.handler == b.handler then
    if a.index == b.index then a.stage == .prefetch || b.stage == .process
    else decide (a.index < b.index)
  else decide (a.handler < b.handler)

/-- Takes the faults of workers out of the log. -/
def takeCaught (session : Session) : List Caught × Session :=
  let log := session.pipeline.log
  ((log.filterMap caught?).mergeSort Caught.le,
    { session with
      pipeline :=
        { session.pipeline with log := log.filter fun event => (caught? event).isNone } })

/-- Takes the events of the caller out of the log. -/
def takeEvents (session : Session) : List Event × Session :=
  let log := session.pipeline.log
  (log.filter fun event => (caught? event).isNone,
    { session with
      pipeline :=
        { session.pipeline with log := log.filter fun event => (caught? event).isSome } })

def takeJournal (session : Session) : List Entry × Session :=
  (session.world.journal, { session with world := { session.world with journal := [] } })

def finish (session : Session) (receipts : List Receipt) (block : Option Block) :
    Reply × Session :=
  let block := block.getD session.current
  match session.perform (.finish session.world block receipts) with
  | (some (.finished fault world), session) =>
      let (entries, session) := { session with world }.takeJournal
      let (caught, session) := session.takeCaught
      (.finished fault entries caught, session)
  | (_, session) => (.stuck, session)

def start (session : Session) (rules : Rules) (block : Block) : Reply × Session :=
  match session.perform (.start session.world rules block) with
  | (some (.started (.ok ())), session) => (.started (.ok ()), { session with current := block })
  | (some (.started (.error failure)), session) => (.started (.error failure), session)
  | (_, session) => (.stuck, session)

def serve (session : Session) : Request → Reply × Session
  | .should index rules tx =>
      let (outcome, pipeline) := session.pipeline.shouldProcess ⟨index, tx⟩ rules
      (.decided outcome, { session with pipeline })
  | .start rules block => session.start rules block
  | .result h index =>
      let (reading, session) := session.read h index
      (.reading reading, session)
  | .results h =>
      let (outcome, session) := session.readAll h (List.range session.current.length)
      (.results outcome, session)
  | .readers h index n =>
      let (readings, session) := session.readMany h index n
      (.readings readings, session)
  | .charge hash => (.charge (session.pipeline.charge hash), session)
  | .charges => (.charges (session.current.hashes.map session.pipeline.charge), session)
  | .ledger request =>
      let (reply, ledger) := session.pipeline.ledger.serve request
      (.ledger reply, { session with pipeline := { session.pipeline with ledger } })
  | .finish receipts block => session.finish receipts block
  | .set address key value =>
      let storage := session.world.storage.set address key value
      (.number storage.numAccounts, { session with world := { session.world with storage } })
  | .get address key => (.word (session.world.storage.get address key), session)
  | .accounts => (.number session.world.storage.numAccounts, session)
  | .snapshots => (.number session.pipeline.copies, session)
  | .handle h =>
      match session.pipeline.stations[h]? with
      | some s => (.text s.handleText, session)
      | none => (.stuck, session)
  | .close =>
      match session.perform .close with
      | (some .closed, session) => (.flag !session.pipeline.isOpen, session)
      | (_, session) => (.stuck, session)
  | .isClosed => (.flag !session.pipeline.isOpen, session)
  | .logs =>
      let (events, session) := session.takeEvents
      (.events events, session)

end Session

end TxPipeline.Script
