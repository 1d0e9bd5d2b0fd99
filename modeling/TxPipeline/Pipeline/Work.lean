import TxPipeline.Pipeline.Basic

/-!
# Workers and feeders

A free worker takes a new copy of the store when its signal is released, and a job when there is
one. It works on a job in several moves, and announces the result before it writes it. A fault of a
handler stage is kept at the station and turns into a declined transaction; any other fault ends the
worker.

A feeder passes the jobs of a block to the queue of its stage, in order, while there is room. With
depth 0 there is never room, and a job passes directly to a free worker.
-/

namespace TxPipeline.Pipeline

variable {F : Flow}

/-- Keeps and logs a fault of a handler stage. -/
def catchFault (p : Pipeline F) (stage : Stage) (job : Job) (s : Station F) (fault : Fault) :
    Pipeline F :=
  (p.setStation job.handler (s.keep fault)).note
    (.stageFaulted s.handler.name stage job.tx.index)

/-- Worker `w` of `stage` begins with a job. Without a copy of the store it cannot. -/
def accept (p : Pipeline F) (w : Nat) (stage : Stage) (job : Job) : Pipeline F :=
  match p.relay.copy? w with
  | none => p.setActivity w (.dead (.beforeSnapshot stage job.tx.index))
  | some _ =>
      match stage with
      | .prefetch => p.setActivity w (.prefetchGather job)
      | .process => p.setActivity w (.processGather job)

/-- A free worker takes the oldest job of its queue, or leaves if there will be none. -/
def receive? (p : Pipeline F) (w : Nat) : Option (Pipeline F) :=
  if p.isFree w then
    match p.workers[w]? with
    | none => none
    | some worker =>
        match p.queue worker.stage with
        | job :: rest => some ((p.setQueue rest worker.stage).accept w worker.stage job)
        | [] => if p.hasSender worker.stage then none else some (p.setActivity w .exited)
  else none

/-- A worker that holds no job reads a published generation, or adopts the one it has read. -/
def refresh? (p : Pipeline F) (w : Nat) : Option (Pipeline F) :=
  match p.workers[w]? with
  | some ⟨_, .idle⟩ =>
      match p.relay.read? w with
      | some relay =>
          some { p with
            relay
            copies := if p.relay.distributor.source.isSome then p.copies + 1 else p.copies }
      | none => (p.relay.adopt? w).map fun relay => { p with relay }
  | _ => none

/-- The result of moving a worker on: the next activity if all went well, the end of the worker
otherwise. -/
def advance (p : Pipeline F) (w h : Nat) (outcome : Except Fault (Station F))
    (next : Activity F) : Pipeline F :=
  match outcome with
  | .ok s => (p.setStation h s).setActivity w next
  | .error fault => p.setActivity w (.dead fault)

/-- The next move of a worker that holds a job. -/
def work? (p : Pipeline F) (w : Nat) : Option (Pipeline F) := do
  let worker ← p.workers[w]?
  match worker.activity with
  | .prefetchGather job =>
      let s ← p.stations[job.handler]?
      let common ← s.common.value
      some (p.setActivity w (.prefetchRun job common))
  | .prefetchRun job common =>
      let s ← p.stations[job.handler]?
      let store ← p.relay.copy? w
      match s.handler.prefetch store job.tx common with
      | .ok data => some (p.setActivity w (.prefetchDeposit job (some data)))
      | .error fault =>
          some ((p.catchFault .prefetch job s fault).setActivity w (.prefetchDeposit job none))
  | .prefetchDeposit job data =>
      let s ← p.stations[job.handler]?
      some (p.advance w job.handler (s.deposit job.tx.index data) .idle)
  | .processGather job =>
      let s ← p.stations[job.handler]?
      let common ← s.common.value
      some (p.setActivity w (.processAwait job common))
  | .processAwait job common =>
      let s ← p.stations[job.handler]?
      match s.data[job.tx.index]? with
      | none => some (p.setActivity w (.dead (.outOfBounds job.tx.index s.data.length)))
      | some cell =>
          match ← cell.value with
          | some data => some (p.setActivity w (.processRun job common data))
          | none => some (p.setActivity w (.processAnnounce ⟨job.tx, none⟩ job.handler))
  | .processRun job common data =>
      let s ← p.stations[job.handler]?
      let store ← p.relay.copy? w
      match s.handler.process store job.tx common data with
      | .ok output =>
          some (p.setActivity w (.processAnnounce ⟨job.tx, some output⟩ job.handler))
      | .error fault =>
          some ((p.catchFault .process job s fault).setActivity w
            (.processAnnounce ⟨job.tx, none⟩ job.handler))
  | .processAnnounce r h =>
      let s ← p.stations[h]?
      some (p.advance w h (s.announce r) (.processSettle r h))
  | .processSettle r h =>
      let s ← p.stations[h]?
      some (p.advance w h (s.settle r) .idle)
  | _ => none

/-- The feeder of `stage` in `lane` puts its next job into the queue, if there is room. It gives up
if nobody can receive. -/
def feed? (p : Pipeline F) (lane : Nat) (stage : Stage) : Option (Pipeline F) := do
  let feeders ← p.feeders[lane]?
  match feeders.pending stage with
  | [] => none
  | job :: rest =>
      if p.hasReceiver stage then
        if (p.queue stage).length < p.config.queueDepth then
          some ({ p with feeders := p.feeders.set lane (feeders.setPending rest stage) }.setQueue
            (p.queue stage ++ [job]) stage)
        else none
      else some { p with feeders := p.feeders.set lane (feeders.setPending [] stage) }

/-- With queues of depth 0, the feeder in `lane` hands its next job to a free worker. -/
def handOver? (p : Pipeline F) (lane w : Nat) : Option (Pipeline F) := do
  let feeders ← p.feeders[lane]?
  let worker ← p.workers[w]?
  match feeders.pending worker.stage with
  | [] => none
  | job :: rest =>
      if p.config.queueDepth = 0 && p.isFree w then
        some ({ p with feeders := p.feeders.set lane (feeders.setPending rest worker.stage) }.accept
          w worker.stage job)
      else none

end TxPipeline.Pipeline
