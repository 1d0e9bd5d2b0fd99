import TxPipeline.Cell.Threads

/-!
# A session with one cell

One thread leads and the others wait: the leader calls the operations that cannot block at that
moment and starts threads that do block. Whenever it sets the cell, all threads that wait move on as
far as they can before it continues.
-/

namespace TxPipeline.Cell

/-- What the leader does next. -/
inductive Request (α : Type)
  | isSet
  | peek
  | take
  | peekBlocking
  | takeBlocking
  /-- Starts threads that wait for a value to see. -/
  | spawnPeek (n : Nat)
  /-- Starts threads that wait for a value to remove. -/
  | spawnTake (n : Nat)
  | waiting
  | set (a : α)

/-- What the leader learns. -/
inductive Reply (α : Type)
  | wasSet (isSet : Bool)
  | value (value : Option α)
  | count (n : Nat)
  /-- The call would block, or mix threads that look with threads that remove. -/
  | blocked
  | refused
  /-- The value was written; these threads have left with a value. -/
  | accepted (peeked : List α) (taken : Option α) (isSet : Bool)

namespace Room

variable {α : Type}

/-- The leader calls an operation and looks at the cell. -/
def lead (room : Room α) (op : Op α) : Room α := room.run [.call 0 op, .look 0]

/-- A new thread calls an operation and looks at the cell. -/
def spawn (room : Room α) (op : Op α) : Room α :=
  let t := room.threads.length
  { room with threads := room.threads ++ [Thread.idle] }.run [.call t op, .look t]

/-- Lets `n` new threads call an operation, one after the other. -/
def spawnMany (room : Room α) (op : Op α) : Nat → Room α
  | 0 => room
  | n + 1 => (room.spawn op).spawnMany op n

/-- Every thread wakes if it can and then looks at the cell, the longest waiting thread first. -/
def settle (room : Room α) : Room α :=
  room.run ((List.range room.threads.length).flatMap fun t => [.wake t, .look t])

def waiting (room : Room α) : Nat := room.threads.countP Thread.isParked

def waitsFor (room : Room α) (p : Op α → Bool) : Bool :=
  room.threads.any fun
    | .parked op _ => p op
    | _ => false

/-- The answer of the operation that ended last. -/
def lastAnswer? (room : Room α) : Option (Answer α) := room.ended.getLast?.map (·.2.2)

/-- The reply to an operation of the leader that has ended. -/
def reply (room : Room α) : Reply α :=
  match room.lastAnswer? with
  | some (.took value) => .value value
  | some (.peeked value) => .value value
  | some (.wasSet isSet) => .wasSet isSet
  | _ => .blocked

def isTaker : Op α → Bool
  | .takeBlocking => true
  | _ => false

/-- The values that threads have seen and removed since `start` operations had ended. -/
def leaving (room : Room α) (start : Nat) : List α × Option α :=
  (room.ended.drop start).foldl
    (fun (seen, taken) (_, _, answer) =>
      match answer with
      | .peeked (some a) => (seen ++ [a], taken)
      | .took (some a) => (seen, some a)
      | _ => (seen, taken))
    ([], none)

def serve (room : Room α) : Request α → Reply α × Room α
  | .isSet => let room := room.lead .isSet; (room.reply, room)
  | .peek => let room := room.lead .peek; (room.reply, room)
  | .take => let room := room.lead .take; (room.reply, room)
  | .peekBlocking =>
      if room.cell.isSet then
        let room := room.lead .peekBlocking
        (room.reply, room)
      else (.blocked, room)
  | .takeBlocking =>
      if room.cell.isSet then
        let room := room.lead .takeBlocking
        (room.reply, room)
      else (.blocked, room)
  | .spawnPeek n =>
      if room.cell.isSet || room.waitsFor isTaker then (.blocked, room)
      else
        let room := room.spawnMany .peekBlocking n
        (.count room.waiting, room)
  | .spawnTake n =>
      if room.cell.isSet || room.waitsFor (fun op => !isTaker op) then (.blocked, room)
      else
        let room := room.spawnMany .takeBlocking n
        (.count room.waiting, room)
  | .waiting => (.count room.waiting, room)
  | .set a =>
      if room.cell.isSet then (.refused, room.lead (.set a))
      else
        let room := room.lead (.set a)
        let ended := room.ended.length
        let room := room.settle
        let (seen, taken) := room.leaving ended
        (.accepted seen taken room.cell.isSet, room)

end Room

end TxPipeline.Cell
