import TxPipeline.Pipeline.Start

/-!
# The sequential reference

What a block comes to when one thread works on it, handler by handler and transaction by
transaction, on the store as it was at the start. Nothing here depends on a pipeline.
-/

namespace TxPipeline

variable {F : Flow}

/-- What all handlers together decide about a transaction. -/
def verdict (handlers : List (Handler F)) (rules : Rules) (tx : IndexedTx) :
    Except Failure Gas.Reservation :=
  match Gas.gather (handlers.map fun handler => handler.gas tx rules) with
  | .error fault => .error (.fault fault)
  | .ok answers =>
      match Gas.intrinsicOf tx.tx rules with
      | .error error => .error (.error error)
      | .ok intrinsic =>
          if tx.tx.gasLimit < intrinsic then
            .error (.error (.intrinsicGasExceedsLimit tx.hash intrinsic tx.tx.gasLimit))
          else .ok (Gas.reservation (tx.tx.gasLimit - intrinsic) answers)

/-- What is reserved for a transaction; nothing if it is refused. -/
def reserved (handlers : List (Handler F)) (rules : Rules) (tx : IndexedTx) : UInt64 :=
  match verdict handlers rules tx with
  | .ok r => r.total
  | .error _ => 0

/-- What is reserved under a hash: what the last transaction with this hash is to pay. -/
def lastReserved (handlers : List (Handler F)) (rules : Rules) (txs : List IndexedTx)
    (hash : Word) : Option UInt64 :=
  (txs.reverse.find? fun tx => tx.hash == hash).map (reserved handlers rules)

/-- What a pipeline is asked to work on. -/
structure Work (F : Flow) where
  store : F.Store
  rules : Rules
  block : Block

namespace Work

/-- The call that asks for it. -/
def task (work : Work F) : Task F := .start work.store work.rules work.block

theorem task_injective : Function.Injective (task : Work F → Task F) := by
  rintro ⟨_, _, _⟩ ⟨_, _, _⟩ h
  cases h
  rfl

variable (handlers : List (Handler F)) (work : Work F)

/-- Every transaction is decided about without an error. -/
def Accepted : Prop := ∀ tx ∈ work.block.indexed, ∃ r, verdict handlers work.rules tx = .ok r

/-- For each handler, whether it works on the transaction. -/
def marks (tx : IndexedTx) : List Bool :=
  match verdict handlers work.rules tx with
  | .ok r => r.eligible
  | .error _ => []

/-- Every transaction with the marks of the handlers. -/
def decisions : List (IndexedTx × List Bool) :=
  work.block.indexed.map fun tx => (tx, work.marks handlers tx)

/-- What handlers work on. -/
def jobs : List Job := Pipeline.jobsOf true (work.decisions handlers)

/-- What handlers do not work on. -/
def declined : List Job := Pipeline.jobsOf false (work.decisions handlers)

/-- What the ledger holds under a hash. -/
def charge (hash : Word) : Option UInt64 :=
  lastReserved handlers work.rules work.block.indexed hash

/-- What `beforeBlock` of handler `h` makes. -/
def commonOf (h : Nat) : Option F.Common := do
  let handler ← handlers[h]?
  (handler.beforeBlock work.store work.rules work.block).toOption

/-- What `prefetch` of handler `h` makes for a transaction; nothing if it raises a fault. -/
def dataOf (h : Nat) (tx : IndexedTx) : Option F.Data := do
  let handler ← handlers[h]?
  let common ← work.commonOf handlers h
  (handler.prefetch work.store tx common).toOption

/-- What `process` of handler `h` makes for a transaction; nothing if a stage raises a fault. -/
def outputOf (h : Nat) (tx : IndexedTx) : Option F.Output := do
  let handler ← handlers[h]?
  let common ← work.commonOf handlers h
  let data ← work.dataOf handlers h tx
  (handler.process work.store tx common data).toOption

/-- The result of handler `h` for a transaction. -/
def resultOf (h : Nat) (tx : IndexedTx) : TxResult F.Output :=
  ⟨tx, if (work.marks handlers tx)[h]? = some true then work.outputOf handlers h tx else none⟩

/-- The results of handler `h` in the order of transactions. -/
def resultsOf (h : Nat) : List (TxResult F.Output) :=
  work.block.indexed.map (work.resultOf handlers h)

/-- The fault that `prefetch` of a job raises, if it raises one. -/
def prefetchFault (job : Job) : Option Fault :=
  match handlers[job.handler]?, work.commonOf handlers job.handler with
  | some handler, some common =>
      match handler.prefetch work.store job.tx common with
      | .error fault => some fault
      | .ok _ => none
  | _, _ => none

/-- The fault that `process` of a job raises, if it comes so far and raises one. -/
def processFault (job : Job) : Option Fault :=
  match handlers[job.handler]?, work.commonOf handlers job.handler,
      work.dataOf handlers job.handler job.tx with
  | some handler, some common, some data =>
      match handler.process work.store job.tx common data with
      | .error fault => some fault
      | .ok _ => none
  | _, _, _ => none

end Work

end TxPipeline
