import TxPipeline.Snapshot.Distributor
import TxPipeline.Storage

/-!
# A session with one distributor

A leader makes one call at a time on a distributor, on receivers that need not be as many as the
workers, on the store that is distributed, and on the copies. A call that would block, or whose
effect would depend on a race, is refused.
-/

namespace TxPipeline.Snapshot

/-- A receiver as the leader sees it. -/
structure Subscriber where
  signal : Nat
  copy : Option Storage

/-- What the leader does next. `none` as a target is the store that is distributed. -/
inductive Request
  | subscribe
  | signal (r : Nat)
  | ready (r : Nat)
  | take (r : Nat)
  | wait (r : Nat)
  | waitReady
  | distribute (takers : List Nat)
  | set (r : Option Nat) (address : Address) (key value : Word)
  | get (r : Option Nat) (address : Address) (key : Word)
  | eq (r : Nat)
  | other

/-- What the leader learns. -/
inductive Reply
  | refused
  | number (n : Nat)
  | released
  | armed
  | reported
  | ready
  | flag (b : Bool)
  | flags (bs : List Bool)
  | word (w : Word)
  | absent

/-- Everything the leader works with. -/
structure Session where
  distributor : Distributor Storage
  canonical : Storage
  subscribers : List Subscriber

namespace Session

/-- A new distributor, no receivers and an empty store. -/
def create (workers : Nat) : Session := ⟨.create workers, .empty, []⟩

/-- Whether receiver `r` holds a released signal; `none` if there is no such receiver. -/
def released? (session : Session) (r : Nat) : Option Bool :=
  session.subscribers[r]?.map fun s => session.distributor.released s.signal

/-- Receiver `r` copies what is published, adopts the published signal and reports. -/
def take? (session : Session) (r : Nat) : Option (Bool × Session) :=
  match session.subscribers[r]?, session.distributor.report? with
  | some _, some d =>
      some (session.distributor.source.isSome,
        { session with
          distributor := d
          subscribers :=
            session.subscribers.set r
              ⟨session.distributor.signal, session.distributor.source⟩ })
  | _, _ => none

/-- The given receivers take a copy, one after the other. -/
def takeAll (session : Session) : List Nat → Option (List Bool × Session)
  | [] => some ([], session)
  | r :: rest => do
      let (got, session) ← session.take? r
      let (gots, session) ← session.takeAll rest
      some (got :: gots, session)

/-- Counts as many reports as there are workers. -/
def collectAll (session : Session) : Session :=
  { session with
    distributor :=
      { session.distributor with
        reports := session.distributor.reports - session.distributor.workers } }

/-- Whether a distribution to `takers` neither blocks nor races: they are distinct, each waits on a
signal that is not released, and together with the pending reports they complete the generation. -/
def canDistribute (session : Session) (takers : List Nat) : Bool :=
  decide takers.Nodup && takers.all (fun r => session.released? r == some false) &&
    session.distributor.reports + takers.length == session.distributor.workers

/-- Distributes the store to `takers`, which wait meanwhile. -/
def distribute? (session : Session) (takers : List Nat) : Option (List Bool × Session) := do
  let d := (session.distributor.publish session.canonical).release
  let (gots, session) ← { session with distributor := d }.takeAll takers
  let session := session.collectAll
  some (gots, { session with distributor := session.distributor.withdraw })

def target? (session : Session) : Option Nat → Option Storage
  | none => some session.canonical
  | some r => (session.subscribers[r]?).bind (·.copy)

def write (session : Session) (r : Option Nat) (store : Storage) : Session :=
  match r with
  | none => { session with canonical := store }
  | some r =>
      { session with
        subscribers := session.subscribers.modify r fun s => { s with copy := some store } }

/-- The reply to a take, whether or not it happened. -/
def taken (session : Session) (outcome : Option (Bool × Session)) : Reply × Session :=
  match outcome with
  | some (got, session) => (.flag got, session)
  | none => (.refused, session)

def serve (session : Session) : Request → Reply × Session
  | .subscribe =>
      (.number session.subscribers.length,
        { session with
          subscribers := session.subscribers ++ [⟨session.distributor.signal, none⟩] })
  | .signal r =>
      match session.released? r with
      | some true => (.released, session)
      | some false => (.armed, session)
      | none => (.refused, session)
  | .ready r =>
      match session.subscribers[r]?, session.distributor.report? with
      | some _, some d => (.reported, { session with distributor := d })
      | _, _ => (.refused, session)
  | .take r => session.taken (session.take? r)
  | .wait r =>
      if session.released? r == some true then session.taken (session.take? r)
      else (.refused, session)
  | .waitReady =>
      if session.distributor.reports == session.distributor.workers then
        (.ready, session.collectAll)
      else (.refused, session)
  | .distribute takers =>
      if session.canDistribute takers then
        match session.distribute? takers with
        | some (gots, session) => (.flags gots, session)
        | none => (.refused, session)
      else (.refused, session)
  | .set r address key value =>
      match session.target? r with
      | some store =>
          let store := store.set address key value
          (.number store.numAccounts, session.write r store)
      | none => (.absent, session)
  | .get r address key =>
      match session.target? r with
      | some store => (.word (store.get address key), session)
      | none => (.absent, session)
  | .eq r =>
      match session.target? (some r) with
      | some store => (.flag (store == session.canonical), session)
      | none => (.flag false, session)
  | .other => (.refused, session)

end Session

end TxPipeline.Snapshot
