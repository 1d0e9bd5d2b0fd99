import TxPipeline.Cell.Basic

/-!
# Threads on one cell

Any number of threads use one cell. Between two moves of a thread any other thread may move. A
blocking operation looks at the cell under its lock; if it does not find what it wants, it parks on
the latch it saw and looks again once that latch is released.
-/

namespace TxPipeline.Cell

/-- What a thread can do with a cell. -/
inductive Op (α : Type)
  | set (a : α)
  | take
  | takeBlocking
  | peek
  | peekBlocking
  | isSet

/-- How an operation ends. -/
inductive Answer (α : Type)
  | accepted
  | refused
  /-- This was removed, or there was nothing to remove. -/
  | took (value : Option α)
  | peeked (value : Option α)
  | wasSet (isSet : Bool)

/-- Where a thread is. -/
inductive Thread (α : Type)
  | idle
  | ready (op : Op α)
  | parked (op : Op α) (latch : Nat)

namespace Thread

variable {α : Type}

def isParked : Thread α → Bool
  | .parked _ _ => true
  | _ => false

end Thread

/-- What one look at the cell does: the answer, if the operation is over, and the cell after it. -/
def look {α : Type} (cell : Cell α) : Op α → Option (Answer α) × Cell α
  | .set a =>
      match cell.set? a with
      | some cell' => (some .accepted, cell')
      | none => (some .refused, cell)
  | .take =>
      match cell.take? with
      | some (a, cell') => (some (.took (some a)), cell')
      | none => (some (.took none), cell)
  | .takeBlocking =>
      match cell.take? with
      | some (a, cell') => (some (.took (some a)), cell')
      | none => (none, cell)
  | .peek => (some (.peeked cell.value), cell)
  | .peekBlocking => (cell.value.map fun a => .peeked (some a), cell)
  | .isSet => (some (.wasSet cell.isSet), cell)

/-- A cell, the threads that use it, and every operation that has ended, in order. -/
structure Room (α : Type) where
  cell : Cell α
  threads : List (Thread α)
  ended : List (Nat × Op α × Answer α)

/-- One move in a room. -/
inductive Move (α : Type)
  | call (thread : Nat) (op : Op α)
  /-- A thread looks at the cell under its lock. -/
  | look (thread : Nat)
  /-- A thread notices that its latch was released. -/
  | wake (thread : Nat)

namespace Room

variable {α : Type}

def create (n : Nat) : Room α := ⟨.empty, List.replicate n .idle, []⟩

/-- The room after a move, if the move is possible. -/
def step? (room : Room α) : Move α → Option (Room α)
  | .call t op =>
      match room.threads[t]? with
      | some .idle => some { room with threads := room.threads.set t (.ready op) }
      | _ => none
  | .look t =>
      match room.threads[t]? with
      | some (.ready op) =>
          match room.cell.look op with
          | (some answer, cell) =>
              some ⟨cell, room.threads.set t .idle, room.ended ++ [(t, op, answer)]⟩
          | (none, cell) =>
              some { room with cell, threads := room.threads.set t (.parked op cell.latch) }
      | _ => none
  | .wake t =>
      match room.threads[t]? with
      | some (.parked op latch) =>
          if room.cell.released latch then
            some { room with threads := room.threads.set t (.ready op) }
          else none
      | _ => none

/-- The room after a move, or the same room if the move is not possible. -/
def stepOrStay (room : Room α) (move : Move α) : Room α := (room.step? move).getD room

/-- The room after the possible ones among a list of moves. -/
def run (room : Room α) (moves : List (Move α)) : Room α := moves.foldl stepOrStay room

end Room

end TxPipeline.Cell
