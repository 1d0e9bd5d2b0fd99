/-!
# Streams

The channel between somebody who announces results and somebody who reads them. It keeps everything
that was sent, so that what was read is a prefix of it. Sending never waits. Nobody reads what is
still queued, or sent later, once the reading end is gone.
-/

namespace TxPipeline

/-- A stream of values of type `α`. -/
structure Stream (α : Type) where
  sent : List α
  read : Nat
  held : Bool

namespace Stream

variable {α : Type}

def fresh : Stream α := ⟨[], 0, true⟩

def send (stream : Stream α) (a : α) : Stream α := { stream with sent := stream.sent ++ [a] }

def queued (stream : Stream α) : List α := stream.sent.drop stream.read

/-- Reads the next value, if one is queued. -/
def next? (stream : Stream α) : Option (α × Stream α) :=
  match stream.sent[stream.read]? with
  | some a => some (a, { stream with read := stream.read + 1 })
  | none => none

def release (stream : Stream α) : Stream α := { stream with held := false }

theorem next?_eq_none_iff (stream : Stream α) :
    stream.next? = none ↔ stream.queued = [] := by
  unfold next? queued
  split
  · rename_i a h
    have := (List.getElem?_eq_some_iff.1 h).1
    simp [List.drop_eq_nil_iff]
    omega
  · rename_i h
    simpa [List.drop_eq_nil_iff] using h

end Stream

end TxPipeline
