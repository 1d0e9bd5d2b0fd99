import TxPipeline.Proofs.Results

/-!
# Streams of results

Declines come from the call that starts the block, other results from the workers, and the ordered
stream from a thread of its own. Still each of the two streams of a block carries every result
exactly once, and is closed after the last one.
-/

namespace TxPipeline

variable {F : Flow} {calm : Prop} {handlers : List (Handler F)} {past : List (Work F)}
  {work : Work F} {phase : Phase F} {progress : Progress} {p q : Pipeline F} {s : Station F}
  {l : Lane F} {c h lane : Nat} {reader : Reader (TxResult F.Output) F.Aggregate}

/-- Where `postProcess` of a lane is, or what it has come to. -/
inductive Station.Reaches (s : Station F) (l : Lane F) :
    Reader (TxResult F.Output) F.Aggregate → Prop
  | reading (source : Nat) (reader : Reader (TxResult F.Output) F.Aggregate)
      (h : l.aggregation = .reading source reader) : Reaches s l reader
  | joining (outcome : Except Fault F.Aggregate) (h : l.aggregation = .joining outcome) :
      Reaches s l (.done outcome)
  | ended (a : F.Aggregate) (h : l.aggregation = .ended) (ha : s.aggregated.value = some a) :
      Reaches s l (.done (.ok a))
  | dead (fault : Fault) (h : l.aggregation = .dead fault) : Reaches s l (.done (.error fault))

/-- The two streams of lane `l`, which is number `lane`, carry these results. -/
structure Station.Covers (s : Station F) (lane : Nat) (l : Lane F)
    (results : List (TxResult F.Output)) : Prop where
  sent_le : l.completions.sent.length ≤ results.length
  remaining_eq : s.remaining = results.length - l.completions.sent.length
  sender_eq : s.sender = if 0 < s.remaining then some lane else none
  /-- What was announced and what will be is a permutation of the results. -/
  completed : ∃ rest, (l.completions.sent ++ rest).Perm results
  replayed : l.ordered.sent <+: results
  /-- The ordered stream closes when it carries all results, unless nobody reads it. -/
  replayed_all : l.replay = .ended → l.ordered.held = true → l.ordered.sent = results
  announce_room : s.sender = some lane → l.completions.queued.length < results.length
  replay_room : ∀ i r, l.replay = .sending i r → l.ordered.queued.length < results.length

theorem Aggregates.reads {receiver : Option Nat}
    (ha : Aggregates calm handlers work h progress lane receiver s.aggregated.value l l.aggregation)
    (hreaches : s.Reaches l reader) : l.Reads handlers work h reader := by
  generalize haggregation : l.aggregation = aggregation at ha
  generalize hvalue : s.aggregated.value = aggregated at ha
  cases hreaches with
  | reading source reader h =>
      rw [h] at haggregation
      subst haggregation
      cases ha with
      | reading _ _ _ _ _ _ hreads => exact hreads
  | joining outcome h =>
      rw [h] at haggregation
      subst haggregation
      cases ha with
      | joining _ _ _ _ _ hreads => exact hreads
  | ended a h hsome =>
      rw [h] at haggregation
      subst haggregation
      cases ha with
      | ended b _ _ hif _ hreads =>
          rw [hvalue] at hsome
          rw [hsome] at hif
          split at hif
          · cases hif
          · cases hif
            exact hreads
  | dead fault h =>
      rw [h] at haggregation
      subst haggregation
      cases ha with
      | dead _ _ _ _ _ _ _ hreads => exact hreads

theorem Aggregates.untouched_or_reads {receiver : Option Nat} {aggregated : Option F.Aggregate}
    {aggregation : Aggregation F}
    (ha : Aggregates calm handlers work h progress lane receiver aggregated l aggregation) :
    l.Untouched ∨ ∃ reader, l.Reads handlers work h reader := by
  cases ha with
  | idle _ _ _ _ huntouched => exact .inl huntouched
  | claiming _ _ _ _ huntouched => exact .inl huntouched
  | gathering _ _ _ _ huntouched => exact .inl huntouched
  | reading reader _ _ _ _ _ hreads => exact .inr ⟨reader, hreads⟩
  | joining outcome _ _ _ _ hreads => exact .inr ⟨_, hreads⟩
  | ended a _ _ _ _ hreads => exact .inr ⟨_, hreads⟩
  | dead fault _ _ _ _ _ _ hreads => exact .inr ⟨_, hreads⟩

namespace Station.Covers

variable {results : List (TxResult F.Output)} {r : TxResult F.Output}

theorem getElem?_of_replayed {i : Nat} (hs : s.Covers lane l results)
    (hr : l.ordered.sent[i]? = some r) : results[i]? = some r := by
  obtain ⟨rest, hrest⟩ := hs.replayed
  rw [← hrest, List.getElem?_append_left (List.getElem?_eq_some_iff.mp hr).1, hr]

theorem mem_of_announced (hs : s.Covers lane l results) (hr : r ∈ l.completions.sent) :
    r ∈ results := by
  obtain ⟨rest, hperm⟩ := hs.completed
  exact hperm.subset (List.mem_append_left rest hr)

theorem perm_of_remaining (hs : s.Covers lane l results) (hzero : s.remaining = 0) :
    l.completions.sent.Perm results := by
  obtain ⟨rest, hperm⟩ := hs.completed
  have hlength := hperm.length_eq
  have hsent := hs.remaining_eq
  rw [List.length_append] at hlength
  have hnil : rest = [] := List.eq_nil_of_length_eq_zero (by omega)
  rwa [hnil, List.append_nil] at hperm

end Station.Covers

theorem Station.Serves.covers {due : Checkpoint → Multiset Job}
    (hs : s.Serves calm handlers work h due progress lane l) :
    s.Covers lane l (work.resultsOf handlers h) := by
  have hlength := hs.announced.length
  have hresults := Work.length_resultsOf handlers work h
  have hqueued : l.completions.queued.length ≤ l.completions.sent.length := by
    simp [Stream.queued]
  have hordered : l.ordered.queued.length ≤ l.ordered.sent.length := by
    simp [Stream.queued]
  have hsender := hs.announced.sender_eq
  have hreplays : l.replay = .idle ∧ l.ordered = .fresh ∨
      Replays (work.resultsOf handlers h) l l.replay := by
    rcases hs.aggregates.untouched_or_reads with hl | ⟨reader, hreads⟩
    · exact .inl ⟨hl.replay, hl.ordered⟩
    · exact .inr hreads.replays
  refine {
    sent_le := by omega
    remaining_eq := by omega
    sender_eq := ?_
    completed := hs.announced.exists_perm
    replayed := ?_
    replayed_all := ?_
    announce_room := ?_
    replay_room := ?_ }
  · rw [hsender]
    split <;> split <;> first | rfl | omega
  · rcases hreplays with ⟨-, hfresh⟩ | hreplays
    · rw [hfresh]
      exact List.nil_prefix
    · exact hreplays.isPrefix
  · intro hended hheld
    rcases hreplays with ⟨hidle, -⟩ | hreplays
    · rw [hidle] at hended
      cases hended
    · rw [hended] at hreplays
      cases hreplays with
      | ended _ hall => exact hall hheld
  · intro hsome
    rw [hsender] at hsome
    split at hsome
    · cases hsome
    · omega
  · intro i r hsending
    rcases hreplays with ⟨hidle, -⟩ | hreplays
    · rw [hidle] at hsending
      cases hsending
    · rw [hsending] at hreplays
      cases hreplays with
      | sending _ _ hget _ htake =>
          have hlt := (List.getElem?_eq_some_iff.mp hget).1
          rw [htake, List.length_take] at hordered
          omega

theorem Lane.Done.covers (hl : l.Done handlers h work) (hs : s.Clear) :
    s.Covers lane l (work.resultsOf handlers h) := by
  obtain ⟨-, -, hreplay, hperm, a, hreads⟩ := hl
  have hlength := hperm.length_eq
  have hreplays := hreads.replays
  rw [hreplay] at hreplays
  refine {
    sent_le := hlength.le
    remaining_eq := by rw [hs.remaining, hlength, Nat.sub_self]
    sender_eq := by rw [hs.sender, hs.remaining]; rfl
    completed := ⟨[], by rwa [List.append_nil]⟩
    replayed := hreads.replays.isPrefix
    replayed_all := ?_
    announce_room := ?_
    replay_room := ?_ }
  · intro _ hheld
    cases hreplays with
    | ended _ hall => exact hall hheld
  · intro hsome
    rw [hs.sender] at hsome
    cases hsome
  · intro i r hsending
    rw [hreplay] at hsending
    cases hsending

theorem Work.map_tx_resultsOf (handlers : List (Handler F)) (work : Work F) (h : Nat) :
    (work.resultsOf handlers h).map (·.tx) = work.block.indexed := by
  simp [resultsOf, resultOf, Function.comp_def]

theorem Work.getElem?_of_mem_resultsOf (hlen : work.block.length ≤ 2 ^ 32) {r : TxResult F.Output}
    (hr : r ∈ work.resultsOf handlers h) : (work.resultsOf handlers h)[r.index]? = some r := by
  obtain ⟨tx, ht, rfl⟩ := List.mem_map.mp hr
  obtain ⟨-, hget⟩ := Work.getElem?_of_mem hlen ht
  change (work.resultsOf handlers h)[tx.index]? = _
  rw [Work.getElem?_resultsOf, hget, Option.map_some]

namespace Pipeline

/-- The lane of the block that came into work last. -/
def lastLane (p : Pipeline F) : Nat := p.feeders.length - 1

theorem During.lastLane_eq (hp : p.During calm handlers past work phase) :
    p.lastLane = past.length := by
  rw [lastLane, hp.feeders, Nat.add_sub_cancel]

/-- A station that was opened for the block serves it, or did so until it was closed. -/
theorem During.serves_or_done (hp : p.During calm handlers past work phase)
    (hs : p.stations[h]? = some s) (hl : s.lanes[past.length]? = some l) :
    (∃ progress, s.Serves calm handlers work h (phase.outstanding p) progress past.length l) ∨
      s.Clear ∧ l.Done handlers h work := by
  have hfits := hp.stations h s hs
  cases hberth : phase.berth work.block.length h with
  | unopened =>
      rw [hberth] at hfits
      rw [List.getElem?_eq_none hfits.2.length_eq.ge] at hl
      cases hl
  | serving progress =>
      rw [hberth] at hfits
      obtain ⟨old, l', hlanes, hold, hserves⟩ := hfits
      obtain rfl : l' = l := by simpa [hlanes, hold.length_eq] using hl
      exact .inl ⟨progress, hserves⟩
  | closed =>
      rw [hberth] at hfits
      obtain ⟨hclear, hlanes⟩ := hfits
      obtain ⟨hlt, rfl⟩ := List.getElem?_eq_some_iff.mp hl
      have hdone := hlanes.get (by simp) hlt
      exact .inr ⟨hclear, by simpa using hdone⟩

theorem During.exists_lane (hp : p.During calm handlers past work phase)
    (hs : p.stations[h]? = some s) (hphase : ∀ d next, phase ≠ .starting d next) :
    ∃ l, s.lanes[past.length]? = some l := by
  have hfits := hp.stations h s hs
  cases hberth : phase.berth work.block.length h with
  | unopened => exact absurd hberth (Phase.berth_ne_unopened hphase _ _)
  | serving progress =>
      rw [hberth] at hfits
      obtain ⟨old, l, hlanes, hold, -⟩ := hfits
      exact ⟨l, by simp [hlanes, hold.length_eq]⟩
  | closed =>
      rw [hberth] at hfits
      have hlength := hfits.2.length_eq
      rw [List.length_append, List.length_singleton] at hlength
      exact ⟨_, List.getElem?_eq_getElem (by omega)⟩

theorem During.covers (hp : p.During calm handlers past work phase) (hs : p.stations[h]? = some s)
    (hl : s.lanes[past.length]? = some l) :
    s.Covers past.length l (work.resultsOf handlers h) := by
  rcases hp.serves_or_done hs hl with ⟨progress, hserves⟩ | ⟨hclear, hdone⟩
  · exact hserves.covers
  · exact hdone.covers hclear

/-- A reader has come to where it is by reading the results, those that are still to come included,
in whatever order they come. -/
theorem During.follows_of_isPrefix {completed : List (TxResult F.Output)}
    (hp : p.During calm handlers past work phase) (hs : p.stations[h]? = some s)
    (hl : s.lanes[past.length]? = some l) (hreaches : s.Reaches l reader)
    (hbegins : l.completions.sent <+: completed) (hlength : completed.length = work.block.length) :
    ∃ common i j, s.handler.beforeBlock work.store work.rules work.block = .ok common ∧
      Reader.Follows (work.resultsOf handlers h) completed
        (s.handler.postProcess common work.block.length) reader i j := by
  rcases hp.serves_or_done hs hl with ⟨progress, hserves⟩ | ⟨hclear, hdone⟩
  · obtain ⟨handler, common, i, j, hhandler, hcommon, hfollows, -⟩ :=
      (hserves.aggregates.reads hreaches).follows_of_isPrefix hbegins hlength
    have hget : handlers[h]? = some s.handler := by
      rw [hp.crew.getElem?_handlers, hs, Option.map_some]
    rw [hget] at hhandler
    cases hhandler
    exact ⟨common, i, j, Work.beforeBlock_eq hget hcommon, hfollows⟩
  · cases hreaches with
    | reading source reader h => simp [hdone.aggregation] at h
    | joining outcome h => simp [hdone.aggregation] at h
    | ended a h ha => simp [hclear.aggregated] at ha
    | dead fault h => simp [hdone.aggregation] at h

theorem During.follows (hp : p.During calm handlers past work phase) (hs : p.stations[h]? = some s)
    (hl : s.lanes[past.length]? = some l) (hreaches : s.Reaches l reader) :
    ∃ common completed i j, s.handler.beforeBlock work.store work.rules work.block = .ok common ∧
      l.completions.sent <+: completed ∧ completed.Perm (work.resultsOf handlers h) ∧
      Reader.Follows (work.resultsOf handlers h) completed
        (s.handler.postProcess common work.block.length) reader i j := by
  obtain ⟨rest, hperm⟩ := (hp.covers hs hl).completed
  have hprefix := List.prefix_append l.completions.sent rest
  obtain ⟨common, i, j, hcommon, hfollows⟩ := hp.follows_of_isPrefix hs hl hreaches hprefix
    (hperm.length_eq.trans (Work.length_resultsOf _ _ _))
  exact ⟨common, _, i, j, hcommon, hprefix, hperm, hfollows⟩

end Pipeline

end TxPipeline
