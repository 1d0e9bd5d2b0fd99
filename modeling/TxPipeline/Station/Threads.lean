import TxPipeline.Station.Basic

/-!
# The threads of a station

Each lane has three threads of its own: the preparation runs `beforeBlock`, the replay feeds the
ordered stream, and the aggregation runs `postProcess`. Each function here is the next move of one
of them, or `none` while the thread has to wait or has nothing left to do.
-/

namespace TxPipeline.Station

variable {F : Flow}

/-- The move of the preparation: runs `beforeBlock` and writes what it made. -/
def stepPreparation? (s : Station F) (lane : Nat) : Option (Station F) :=
  match s.lanes[lane]? with
  | none => none
  | some l =>
      match l.preparation with
      | .ready store rules block =>
          match s.handler.beforeBlock store rules block with
          | .error fault => some (s.updateLane lane fun l => { l with preparation := .dead fault })
          | .ok common =>
              match s.common.set? common with
              | none =>
                  some (s.updateLane lane fun l => { l with preparation := .dead .alreadySet })
              | some cell =>
                  some { s.updateLane lane fun l => { l with preparation := .ended } with
                    common := cell }
      | _ => none

/-- The moves of the replay: waits for the next cell, then sends what it holds. It ends after the
last cell, or when nobody reads any more. -/
def stepReplay? (s : Station F) (lane : Nat) : Option (Station F) :=
  match s.lanes[lane]? with
  | none => none
  | some l =>
      match l.replay with
      | .reading index =>
          match (s.results[index]?).bind (·.value) with
          | none => none
          | some r => some (s.updateLane lane fun l => { l with replay := .sending index r })
      | .sending index r =>
          if l.ordered.held then
            some (s.updateLane lane fun l =>
              { l with ordered := l.ordered.send r, replay := .at (index + 1) l.length })
          else some (s.updateLane lane fun l => { l with replay := .ended })
      | _ => none

/-- The move of a reader in lane `l`, whose completions come from lane `feed`. -/
def stepReader? (s : Station F) (lane source : Nat) (l feed : Lane F) :
    Reader (TxResult F.Output) F.Aggregate → Option (Station F)
  | .done outcome =>
      some ((s.updateLane lane fun l =>
          { l with ordered := l.ordered.release, aggregation := .joining outcome }).updateLane
        source fun l => { l with completions := l.completions.release })
  | .nextByIndex k =>
      match l.ordered.next? with
      | some (r, stream) =>
          some (s.updateLane lane fun l =>
            { l with ordered := stream, aggregation := .reading source (k (some r)) })
      | none =>
          if l.replay.isEnded then
            some (s.updateLane lane fun l => { l with aggregation := .reading source (k none) })
          else none
  | .nextByCompletion k =>
      match feed.completions.next? with
      | some (r, stream) =>
          some ((s.updateLane source fun l => { l with completions := stream }).updateLane
            lane fun l => { l with aggregation := .reading source (k (some r)) })
      | none =>
          if s.sender = some source then none
          else
            some (s.updateLane lane fun l => { l with aggregation := .reading source (k none) })
  | .backlog k =>
      some (s.updateLane lane fun l =>
        { l with aggregation :=
            .reading source (k l.ordered.queued.length feed.completions.queued.length) })

/-- The moves of the aggregation: claims the completion stream, waits for what `beforeBlock` made,
starts the replay, reads, waits for the replay to end, and writes the aggregate. -/
def stepAggregation? (s : Station F) (lane : Nat) : Option (Station F) :=
  match s.lanes[lane]? with
  | none => none
  | some l =>
      match l.aggregation with
      | .claiming =>
          match s.receiver with
          | none =>
              some (s.updateLane lane fun l =>
                { l with aggregation := .dead (.streamMissing s.handler.name) })
          | some source =>
              some { s.updateLane lane fun l => { l with aggregation := .gathering source } with
                receiver := none }
      | .gathering source =>
          match s.common.value with
          | none => none
          | some common =>
              some (s.updateLane lane fun l =>
                { l with
                  length := s.blockLength
                  replay := .at 0 s.blockLength
                  aggregation :=
                    .reading source (s.handler.postProcess common s.blockLength) })
      | .reading source reader =>
          match s.lanes[source]? with
          | none => none
          | some feed => s.stepReader? lane source l feed reader
      | .joining outcome =>
          if l.replay.isEnded then
            match outcome with
            | .error fault =>
                some (s.updateLane lane fun l => { l with aggregation := .dead fault })
            | .ok a =>
                match s.aggregated.set? a with
                | none =>
                    some (s.updateLane lane fun l => { l with aggregation := .dead .alreadySet })
                | some cell =>
                    some { s.updateLane lane fun l => { l with aggregation := .ended } with
                      aggregated := cell }
          else none
      | _ => none

end TxPipeline.Station
