import TxPipeline.Proofs.Moves

/-!
# What a move leaves alone

Each kind of move changes a few fields of the pipeline and no others.
-/

namespace TxPipeline.Pipeline

variable {F : Flow} {p q : Pipeline F} {c w h lane : Nat} {stage : Stage}

/-! ## Workers and feeders -/

theorem eq_of_accept (p : Pipeline F) (w : Nat) (stage : Stage) (job : Job) :
    ∃ workers, p.accept w stage job = { p with workers } := by
  unfold accept
  split
  · exact ⟨_, rfl⟩
  · cases stage <;> exact ⟨_, rfl⟩

/-- Whatever the stage, no more than the two queues changes. -/
theorem exists_setQueue (p : Pipeline F) (jobs : List Job) (stage : Stage) :
    ∃ first second, p.setQueue jobs stage =
      { p with prefetchQueue := first, processQueue := second } := by
  cases stage
  · exact ⟨jobs, p.processQueue, rfl⟩
  · exact ⟨p.prefetchQueue, jobs, rfl⟩

theorem eq_of_receive? (hstep : p.receive? w = some q) : ∃ prefetchQueue processQueue workers,
    q = { p with prefetchQueue, processQueue, workers } := by
  unfold receive? at hstep
  split at hstep
  · split at hstep
    · cases hstep
    · rename_i worker _
      split at hstep
      · rename_i job rest _
        cases hstep
        obtain ⟨first, second, hset⟩ := exists_setQueue p rest worker.stage
        obtain ⟨workers, haccept⟩ := eq_of_accept (p.setQueue rest worker.stage) w worker.stage job
        exact ⟨first, second, workers, by rw [haccept, hset]⟩
      · split at hstep <;> cases hstep
        exact ⟨_, _, _, rfl⟩
  · cases hstep

theorem eq_of_refresh? (hstep : p.refresh? w = some q) : ∃ relay copies,
    q = { p with relay, copies } ∧
      (p.relay.read? w = some relay ∨ p.relay.adopt? w = some relay) := by
  unfold refresh? at hstep
  split at hstep
  · split at hstep
    · rename_i relay hread
      cases hstep
      exact ⟨_, _, rfl, .inl hread⟩
    · obtain ⟨relay, hadopt, rfl⟩ := Option.map_eq_some_iff.mp hstep
      exact ⟨_, _, rfl, .inr hadopt⟩
  · cases hstep

theorem eq_of_deny? {reason : String} (hdeny : p.deny? c reason = some q) :
    ∃ calls locked ledger log, q = { p with calls, locked, ledger, log } := by
  cases denyMove_of_deny? hdeny
  exact ⟨_, _, _, _, rfl⟩

theorem advance_eq (p : Pipeline F) (w h : Nat) (outcome : Except Fault (Station F))
    (next : Activity F) :
    ∃ stations workers log, p.advance w h outcome next = { p with stations, workers, log } := by
  cases outcome with
  | ok s => exact ⟨_, _, _, rfl⟩
  | error fault => exact ⟨_, _, _, rfl⟩

/-- A worker that holds a job touches nothing but its station, itself and the log. -/
theorem eq_of_work? (hstep : p.work? w = some q) :
    ∃ stations workers log, q = { p with stations, workers, log } := by
  obtain ⟨⟨stage, activity⟩, -, hmove⟩ := workMove_of_work? hstep
  cases hmove with
  | prefetchDeposit => exact advance_eq _ _ _ _ _
  | processAnnounce => exact advance_eq _ _ _ _ _
  | processSettle => exact advance_eq _ _ _ _ _
  | _ => exact ⟨_, _, _, rfl⟩

theorem eq_of_feed? (hstep : p.feed? lane stage = some q) : ∃ prefetchQueue processQueue feeders,
    q = { p with prefetchQueue, processQueue, feeders } := by
  cases feedMove_of_feed? hstep with
  | enqueue feeders job rest =>
      obtain ⟨first, second, hset⟩ := exists_setQueue
        { p with feeders := p.feeders.set lane (feeders.setPending rest stage) }
        (p.queue stage ++ [job]) stage
      exact ⟨first, second, _, hset⟩
  | giveUp => exact ⟨_, _, _, rfl⟩

theorem eq_of_handOver? (hstep : p.handOver? lane w = some q) : ∃ feeders workers,
    q = { p with feeders, workers } := by
  obtain ⟨feeders, worker, job, rest⟩ := handOverMove_of_handOver? hstep
  obtain ⟨workers, haccept⟩ := eq_of_accept
    { p with feeders := p.feeders.set lane (feeders.setPending rest worker.stage) } w worker.stage
    job
  exact ⟨_, workers, haccept⟩

theorem eq_of_stepStation? {move : Station F → Option (Station F)}
    (hstep : p.stepStation? h move = some q) :
    ∃ s s', p.stations[h]? = some s ∧ move s = some s' ∧ q = p.setStation h s' := by
  obtain ⟨s, hs, hstep⟩ := Option.bind_eq_some_iff.mp hstep
  obtain ⟨s', hs', hstep⟩ := Option.bind_eq_some_iff.mp hstep
  cases hstep
  exact ⟨s, s', hs, hs', rfl⟩

/-- A move of a thread that is no caller leaves alone what only calls change. Nobody but those who
take copies of the store changes the relay. -/
structure Frames (p : Pipeline F) (actor : Actor) (q : Pipeline F) : Prop where
  calls : q.calls = p.calls
  active : q.active = p.active
  ledger : q.ledger = p.ledger
  locked : q.locked = p.locked
  poolSenders : q.poolSenders = p.poolSenders
  relay : (∀ w, actor ≠ .refresher w) → q.relay = p.relay

theorem frames_of_stepThread? {actor : Actor} (hactor : ∀ c, actor ≠ .caller c)
    (hstep : p.step? actor = some q) : p.Frames actor q := by
  have hstation {h : Nat} {move : Station F → Option (Station F)}
      (hstep : p.stepStation? h move = some q) : p.Frames actor q := by
    obtain ⟨s, s', -, -, rfl⟩ := eq_of_stepStation? hstep
    exact ⟨rfl, rfl, rfl, rfl, rfl, fun _ => rfl⟩
  cases actor with
  | caller c => exact absurd rfl (hactor c)
  | refresher w =>
      obtain ⟨relay, copies, rfl, -⟩ := eq_of_refresh? hstep
      exact ⟨rfl, rfl, rfl, rfl, rfl, fun hrefresh => absurd rfl (hrefresh w)⟩
  | receiver w =>
      obtain ⟨prefetchQueue, processQueue, workers, rfl⟩ := eq_of_receive? hstep
      exact ⟨rfl, rfl, rfl, rfl, rfl, fun _ => rfl⟩
  | worker w =>
      obtain ⟨stations, workers, log, rfl⟩ := eq_of_work? hstep
      exact ⟨rfl, rfl, rfl, rfl, rfl, fun _ => rfl⟩
  | feeder lane stage =>
      obtain ⟨prefetchQueue, processQueue, feeders, rfl⟩ := eq_of_feed? hstep
      exact ⟨rfl, rfl, rfl, rfl, rfl, fun _ => rfl⟩
  | handOver lane w =>
      obtain ⟨feeders, workers, rfl⟩ := eq_of_handOver? hstep
      exact ⟨rfl, rfl, rfl, rfl, rfl, fun _ => rfl⟩
  | preparation h lane => exact hstation hstep
  | replay h lane => exact hstation hstep
  | aggregation h lane => exact hstation hstep

/-! ## Callers -/

theorem eq_of_stepStart? {store : F.Store} {rules : Rules} {block : Block} {next : Starting}
    (hstep : p.stepStart? c store rules block next = some q) :
    ∃ stations relay feeders ledger locked active calls copies log, q =
      { p with stations, relay, feeders, ledger, locked, active, calls, copies, log } := by
  cases startMove_of_stepStart? hstep <;> exact ⟨_, _, _, _, _, _, _, _, _, rfl⟩

theorem eq_of_stepFinish? {store : F.Store} {block : Block} {receipts : List Receipt}
    {next : Finishing} (hstep : p.stepFinish? c store block receipts next = some q) :
    ∃ stations ledger active calls log, q = { p with stations, ledger, active, calls, log } := by
  cases finishMove_of_stepFinish? hstep <;> exact ⟨_, _, _, _, _, rfl⟩

theorem eq_of_stepClose? {next : Closing} (hstep : p.stepClose? c next = some q) :
    ∃ isOpen poolSenders calls log, q = { p with isOpen, poolSenders, calls, log } := by
  cases closeMove_of_stepClose? hstep <;> exact ⟨_, _, _, _, rfl⟩

end TxPipeline.Pipeline
