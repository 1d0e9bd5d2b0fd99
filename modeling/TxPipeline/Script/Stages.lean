import TxPipeline.Script.Basic

/-!
# The stages of a script

What a scripted handler does at each stage. Every stage begins with its traps.
-/

namespace TxPipeline.Script

/-- The fault of the first trap at this point, if one is set there. -/
def trap? (script : Script) (point : Point) (position : Nat) : Option Fault :=
  (script.traps.find? fun t => t.point == point && t.position == position).map fun t =>
    .raised t.message

def guarded {α : Type} (script : Script) (point : Point) (position : Nat) (a : α) :
    Except Fault α :=
  match script.trap? point position with
  | some fault => .error fault
  | none => .ok a

/-- The cost of a transaction that the choice includes. -/
def Choice.cost? (choice : Choice) (cost : UInt64) (tx : IndexedTx) : Option UInt64 :=
  let when (b : Bool) : Option UInt64 := if b then some cost else Option.none
  match choice with
  | .all => some cost
  | .none => Option.none
  | .everyNth modulus remainder => when (tx.index % modulus == remainder)
  | .flagged => when (tx.tx.input.head?.any (· != 0))
  | .recipient address => when (tx.tx.recipient == some address)
  | .creations => when tx.tx.isCreate
  | .listed costs => (costs[tx.index]?).bind id
  | .perByte =>
      if tx.tx.input.isEmpty then Option.none
      else some (cost * UInt64.ofNat tx.tx.input.length)

/-- The cost of a transaction, if the script wants it. -/
def gas (script : Script) (tx : IndexedTx) (rules : Rules) : Except Fault (Option UInt64) :=
  script.guarded .gas tx.index
    (if rules.covers script.needs then script.choice.cost? script.cost tx else none)

def beforeBlock (script : Script) (world : World) (rules : Rules) (block : Block) :
    Except Fault Common :=
  script.guarded .beforeBlock block.number.toNat
    ⟨block.number, block.header.extra, block.length, world.storage.get script.read 0, rules⟩

/-- The slot of the account that belongs to a transaction. -/
def slotOf (script : Script) (world : World) (tx : IndexedTx) : Word :=
  world.storage.get script.read (Word.ofNat tx.index)

def prefetch (script : Script) (world : World) (tx : IndexedTx) (_ : Common) : Except Fault Word :=
  script.guarded .prefetch tx.index (script.slotOf world tx)

def answer (script : Script) (world : World) (tx : IndexedTx) (common : Common)
    (prefetched : Word) : Value :=
  match script.output with
  | .index => .number (UInt64.ofNat tx.index)
  | .sum => .number (prefetched.low64 * 2 + common.number)
  | .echo => .bytes (common.extra ++ Bytes.ofNat 4 tx.index)
  | .input => .bytes tx.tx.input
  | .full => .full tx common prefetched (script.slotOf world tx)

def process (script : Script) (world : World) (tx : IndexedTx) (common : Common)
    (prefetched : Word) : Except Fault Value :=
  script.guarded .process tx.index (script.answer world tx common prefetched)

def itemOf (r : TxResult Value) : Item := (r.index, r.output)

/-- Reads the ordered stream to its end, at most `limit` results. -/
def readOrdered (limit : Nat) (seen : List Item)
    (k : List Item → Reader (TxResult Value) Summary) : Reader (TxResult Value) Summary :=
  match limit with
  | 0 => k seen
  | limit + 1 =>
      .nextByIndex fun
        | some r => readOrdered limit (seen ++ [itemOf r]) k
        | none => k seen

/-- Reads the completion stream to its end, at most `limit` results. -/
def readCompleted (limit : Nat) (seen : List Item)
    (k : List Item → Reader (TxResult Value) Summary) : Reader (TxResult Value) Summary :=
  match limit with
  | 0 => k seen
  | limit + 1 =>
      .nextByCompletion fun
        | some r => readCompleted limit (seen ++ [itemOf r]) k
        | none => k seen

/-- Items in the order in which a script reports completions. -/
def arrange (script : Script) (items : List Item) : List Item :=
  if script.sorted then items.mergeSort (fun a b => a.1 ≤ b.1) else items

/-- Reads the ordered stream and then looks at what is left on both. -/
def summarizeOrdered (length : Nat) (k : Summary → Reader (TxResult Value) Summary) :
    Reader (TxResult Value) Summary :=
  readOrdered (length + 1) [] fun items =>
    .backlog fun a b => k ⟨some items, some (a, b), none, none⟩

def summarizeCompleted (script : Script) (length : Nat) (summary : Summary) :
    Reader (TxResult Value) Summary :=
  readCompleted (length + 1) [] fun items =>
    .done (.ok { summary with completed := some (script.arrange items) })

def postProcess (script : Script) (common : Common) (length : Nat) :
    Reader (TxResult Value) Summary :=
  let blank : Summary := ⟨none, none, none, none⟩
  match script.trap? .postProcess common.number.toNat with
  | some fault => .done (.error fault)
  | none =>
      match script.drain with
      | .both => summarizeOrdered length (script.summarizeCompleted length)
      | .byIndex => summarizeOrdered length fun summary => .done (.ok summary)
      | .byCompletion => script.summarizeCompleted length blank
      | .first => .nextByIndex fun r => .done (.ok { blank with first := some (r.map itemOf) })
      | .nothing => .done (.ok blank)

/-- How many transactions were answered, as far as the script has looked. -/
def Summary.processed (summary : Summary) : Nat :=
  match summary.ordered, summary.completed with
  | some items, _ => items.countP (·.2.isSome)
  | none, some items => items.countP (·.2.isSome)
  | none, none => 0

/-- Changes the slot that the script writes, if it writes one. -/
def writeSlot (script : Script) (storage : Storage) (processed : Nat) : Storage :=
  match script.write with
  | none => storage
  | some (address, key) =>
      let old := (storage.get address key).low64
      storage.set address key (Word.ofUInt64 (old * 31 + UInt64.ofNat processed))

def afterBlock (script : Script) (world : World) (summary : Summary) (block : Block)
    (receipts : List Receipt) : World × Option Fault :=
  match script.trap? .afterBlock block.number.toNat with
  | some fault => (world, some fault)
  | none =>
      let processed := summary.processed
      let entry : Entry :=
        ⟨script.name, block.number, block.length, receipts, processed,
          if script.quiet then none else some summary⟩
      (⟨script.writeSlot world.storage processed, world.journal ++ [entry]⟩, none)

def handler (script : Script) : Handler flow where
  name := script.name
  gas := script.gas
  beforeBlock := script.beforeBlock
  prefetch := script.prefetch
  process := script.process
  postProcess := script.postProcess
  afterBlock := script.afterBlock

end TxPipeline.Script
