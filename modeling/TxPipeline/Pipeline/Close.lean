import TxPipeline.Pipeline.Basic

/-!
# Closing a pipeline

Closing drops the sending ends of the job queues and waits for the workers. A worker leaves when its
queue is empty and nobody can send to it any more, so that jobs of a block in progress are still
worked on.
-/

namespace TxPipeline.Pipeline

variable {F : Flow}

/-- The next move of call `c`, which closes the pipeline. -/
def stepClose? (p : Pipeline F) (c : Nat) : Closing → Option (Pipeline F)
  | .take =>
      if p.isOpen then some ({ p with isOpen := false }.setCall c (.close .check))
      else some ((p.note .alreadyClosed).setCall c (.returned .closed))
  | .check =>
      if p.locked then none
      else
        let p := if p.active.isSome then p.note .closingInProgress else p
        some ({ p with poolSenders := false }.setCall c (.close (.join 0)))
  | .join w =>
      match p.workers[w]? with
      | none => some ((p.note .processorClosed).setCall c (.returned .closed))
      | some worker =>
          match worker.activity with
          | .exited => some (p.setCall c (.close (.join (w + 1))))
          | .dead _ => some ((p.note .workerLost).setCall c (.close (.join (w + 1))))
          | _ => none

end TxPipeline.Pipeline
