import TxPipeline.Handler

/-!
# Reading two complete streams

A reader asks two streams for one entry after the other. Request number `m` on a stream is answered
with entry `m`, and every request beyond the last entry with the news that the stream is over.
-/

namespace TxPipeline.Reader

variable {α β : Type}

/-- The reader has come from `start` to where it is, with `i` requests on the stream `ordered` and
`j` requests on the stream `completed`. A backlog counts no result that is not announced. -/
inductive Follows (ordered completed : List α) (start : Reader α β) :
    Reader α β → Nat → Nat → Prop
  | start : Follows ordered completed start start 0 0
  | byIndex {k : Option α → Reader α β} {i j : Nat}
      (h : Follows ordered completed start (.nextByIndex k) i j) :
      Follows ordered completed start (k ordered[i]?) (i + 1) j
  | byCompletion {k : Option α → Reader α β} {i j : Nat}
      (h : Follows ordered completed start (.nextByCompletion k) i j) :
      Follows ordered completed start (k completed[j]?) i (j + 1)
  | backlog {k : Nat → Nat → Reader α β} {i j a b : Nat}
      (h : Follows ordered completed start (.backlog k) i j)
      (hle : min i ordered.length + a ≤ min j ordered.length + b)
      (hlen : min j ordered.length + b ≤ ordered.length) :
      Follows ordered completed start (k a b) i j

/-- What was read stays read when more results complete. -/
theorem Follows.append_completed {ordered completed : List α} {start reader : Reader α β}
    {i j : Nat} (h : Follows ordered completed start reader i j) (hj : j ≤ completed.length)
    (more : List α) : Follows ordered (completed ++ more) start reader i j := by
  induction h with
  | start => exact .start
  | byIndex _ ih => exact .byIndex (ih hj)
  | @byCompletion k i j _ ih =>
      have hlt : j < completed.length := hj
      have hnext := Follows.byCompletion (ih (Nat.le_of_lt hlt))
      rwa [List.getElem?_append_left hlt] at hnext
  | backlog _ hle hlen ih => exact .backlog (ih hj) hle hlen

/-! ## Reading one stream alone -/

/-- Whether the reader asks for nothing but the next entry of the ordered stream. -/
def IsOrdered : Reader α β → Prop
  | .done _ => True
  | .nextByIndex k => ∀ a, (k a).IsOrdered
  | .nextByCompletion _ => False
  | .backlog _ => False

/-- What such a reader comes to after `i` requests. -/
def outcome? (ordered : List α) : Reader α β → Nat → Option (Except Fault β)
  | .done outcome, _ => some outcome
  | .nextByIndex k, i => (k ordered[i]?).outcome? ordered (i + 1)
  | .nextByCompletion _, _ => none
  | .backlog _, _ => none

theorem Follows.outcome?_eq {ordered completed : List α} {start reader : Reader α β} {i j : Nat}
    (h : Follows ordered completed start reader i j) (hstart : start.IsOrdered) :
    reader.IsOrdered ∧ reader.outcome? ordered i = start.outcome? ordered 0 := by
  induction h with
  | start => exact ⟨hstart, rfl⟩
  | byIndex h ih => exact ⟨ih.1 _, ih.2⟩
  | byCompletion h ih => exact ih.1.elim
  | backlog h hle hlen ih => exact ih.1.elim

/-- Such a reader comes to the same in whatever order the results complete. -/
theorem Follows.outcome_unique {ordered completed completed' : List α} {start : Reader α β}
    {outcome outcome' : Except Fault β} {i j i' j' : Nat}
    (h : Follows ordered completed start (.done outcome) i j)
    (h' : Follows ordered completed' start (.done outcome') i' j') (hstart : start.IsOrdered) :
    outcome = outcome' :=
  Option.some.inj ((h.outcome?_eq hstart).2.trans (h'.outcome?_eq hstart).2.symm)

/-! ## Reading to the end -/

/-- Asks the ordered stream at most `m` times, until it is over, and hands on everything it got;
nothing if the stream was not over by then. -/
def drainByIndex (k : Option (List α) → Reader α β) : Nat → List α → Reader α β
  | 0, _ => k none
  | m + 1, got => .nextByIndex fun
      | some a => drainByIndex k m (got ++ [a])
      | none => k (some got)

/-- The same on the stream of completions. -/
def drainByCompletion (k : Option (List α) → Reader α β) : Nat → List α → Reader α β
  | 0, _ => k none
  | m + 1, got => .nextByCompletion fun
      | some a => drainByCompletion k m (got ++ [a])
      | none => k (some got)

/-- Reads both streams of a block of `n` transactions to their ends. After `n` results, one more
request tells whether the stream is over. -/
def drain (n : Nat) (g : Option (List α) → Option (List α) → Except Fault β) : Reader α β :=
  drainByIndex
    (fun byIndex =>
      drainByCompletion (fun byCompletion => .done (g byIndex byCompletion)) (n + 1) [])
    (n + 1) []

/-- Where a draining reader is after `i` and `j` requests. -/
inductive Drains (ordered completed : List α) (n : Nat)
    (g : Option (List α) → Option (List α) → Except Fault β) : Reader α β → Nat → Nat → Prop
  | byIndex (i : Nat) (hi : i ≤ n) : Drains ordered completed n g
      (drainByIndex (fun byIndex =>
        drainByCompletion (fun byCompletion => .done (g byIndex byCompletion)) (n + 1) [])
        (n - i + 1) (ordered.take i)) i 0
  | byCompletion (j : Nat) (hj : j ≤ n) : Drains ordered completed n g
      (drainByCompletion (fun byCompletion => .done (g (some ordered) byCompletion))
        (n - j + 1) (completed.take j)) (n + 1) j
  | done : Drains ordered completed n g (.done (g (some ordered) (some completed))) (n + 1) (n + 1)

section Complete

variable {ordered completed : List α} {n i j : Nat}
  {g : Option (List α) → Option (List α) → Except Fault β} {reader : Reader α β}
  {k : Option α → Reader α β}

/-- A drain of the ordered stream goes on as long as there are results. -/
theorem drainByIndex_answer {k' : Option (List α) → Reader α β} (hi : i ≤ n)
    (hordered : ordered.length = n)
    (hasks : .nextByIndex k = drainByIndex k' (n - i + 1) (ordered.take i)) :
    i < n ∧ k ordered[i]? = drainByIndex k' (n - (i + 1) + 1) (ordered.take (i + 1)) ∨
      i = n ∧ k ordered[i]? = k' (some ordered) := by
  rw [drainByIndex] at hasks
  injection hasks with hk
  rw [hk]
  cases hget : ordered[i]? with
  | some a =>
      have hlt : i < n := hordered ▸ (List.getElem?_eq_some_iff.mp hget).1
      have hrest : n - i = n - (i + 1) + 1 := by omega
      have htake : ordered.take i ++ [a] = ordered.take (i + 1) := by
        rw [List.take_add_one, hget]
        rfl
      dsimp only
      rw [hrest, htake]
      exact .inl ⟨hlt, rfl⟩
  | none =>
      have hle := List.getElem?_eq_none_iff.mp hget
      dsimp only
      rw [List.take_of_length_le hle]
      exact .inr ⟨Nat.le_antisymm hi (hordered ▸ hle), rfl⟩

theorem Drains.nextByIndex (h : Drains ordered completed n g (.nextByIndex k) i j)
    (hordered : ordered.length = n) : Drains ordered completed n g (k ordered[i]?) (i + 1) j := by
  generalize hreader : Reader.nextByIndex k = reader at h
  cases h with
  | byCompletion j hj => cases hreader
  | done => cases hreader
  | byIndex i hi =>
      rcases drainByIndex_answer hi hordered hreader with ⟨hlt, hanswer⟩ | ⟨rfl, hanswer⟩
      · rw [hanswer]
        exact .byIndex (i + 1) hlt
      · -- the ordered stream is over, and the reader turns to the other one
        rw [hanswer]
        exact .byCompletion 0 (Nat.zero_le _)

theorem Drains.nextByCompletion (h : Drains ordered completed n g (.nextByCompletion k) i j)
    (hcompleted : completed.length = n) :
    Drains ordered completed n g (k completed[j]?) i (j + 1) := by
  generalize hreader : Reader.nextByCompletion k = reader at h
  cases h with
  | byIndex i hi => cases hreader
  | done => cases hreader
  | byCompletion j hj =>
      rw [drainByCompletion] at hreader
      injection hreader with hk
      rw [hk]
      cases hget : completed[j]? with
      | some a =>
          have hlt : j < n := hcompleted ▸ (List.getElem?_eq_some_iff.mp hget).1
          have hrest : n - j = n - (j + 1) + 1 := by omega
          have htake : completed.take j ++ [a] = completed.take (j + 1) := by
            rw [List.take_add_one, hget]
            rfl
          dsimp only
          rw [hrest, htake]
          exact .byCompletion (j + 1) hlt
      | none =>
          have hle := List.getElem?_eq_none_iff.mp hget
          obtain rfl : j = n := Nat.le_antisymm hj (hcompleted ▸ hle)
          rw [List.take_of_length_le hle]
          exact .done

/-- A draining reader gets every result from both streams, and then learns that they are over. -/
theorem Follows.drains (h : Follows ordered completed (drain n g) reader i j)
    (hordered : ordered.length = n) (hcompleted : completed.length = n) :
    Drains ordered completed n g reader i j := by
  induction h with
  | start => exact .byIndex 0 (Nat.zero_le n)
  | byIndex h ih => exact ih.nextByIndex hordered
  | byCompletion h ih => exact ih.nextByCompletion hcompleted
  | @backlog k i j a b h hle hlen ih =>
      generalize hreader : Reader.backlog k = reader at ih
      cases ih <;> cases hreader

/-- Who has drained both streams has asked each of them once more than there are results. -/
theorem Follows.eq_of_drain {outcome : Except Fault β}
    (h : Follows ordered completed (drain n g) (.done outcome) i j) (hordered : ordered.length = n)
    (hcompleted : completed.length = n) :
    outcome = g (some ordered) (some completed) ∧ i = n + 1 ∧ j = n + 1 := by
  have hdrains := h.drains hordered hcompleted
  generalize hreader : Reader.done outcome = reader at hdrains
  cases hdrains with
  | byIndex i hi => cases hreader
  | byCompletion j hj => cases hreader
  | done =>
      cases hreader
      exact ⟨rfl, rfl, rfl⟩

/-! ## When one stream is over -/

/-- After `j` requests for completions the reader has come from `start` to where it is, and the
ordered stream was over all the time. Nothing is left open then: all results were announced. -/
inductive Finds (completed : List α) (start : Reader α β) : Reader α β → Nat → Prop
  | start : Finds completed start start 0
  | byIndex {k : Option α → Reader α β} {j : Nat} (h : Finds completed start (.nextByIndex k) j) :
      Finds completed start (k none) j
  | byCompletion {k : Option α → Reader α β} {j : Nat}
      (h : Finds completed start (.nextByCompletion k) j) :
      Finds completed start (k completed[j]?) (j + 1)
  | backlog {k : Nat → Nat → Reader α β} {j : Nat} (h : Finds completed start (.backlog k) j) :
      Finds completed start (k 0 (completed.length - j)) j

/-- A reader that drains the ordered stream first then finds all completions. -/
theorem Follows.finds {k : Option (List α) → Reader α β}
    (h : Follows ordered completed (drainByIndex k (n + 1) []) reader i j)
    (hordered : ordered.length = n) (hcompleted : completed.length = n) :
    (i ≤ n ∧ j = 0 ∧ reader = drainByIndex k (n - i + 1) (ordered.take i)) ∨
      (n < i ∧ Finds completed (k (some ordered)) reader j) := by
  induction h with
  | start => exact .inl ⟨Nat.zero_le n, rfl, rfl⟩
  | @byIndex next i j h ih =>
      rcases ih with ⟨hi, rfl, hdrains⟩ | ⟨hi, hfinds⟩
      · rcases drainByIndex_answer hi hordered hdrains with ⟨hlt, hanswer⟩ | ⟨rfl, hanswer⟩
        · exact .inl ⟨hlt, rfl, hanswer⟩
        · rw [hanswer]
          exact .inr ⟨Nat.lt_succ_self _, .start⟩
      · have hover : ordered[i]? = none := List.getElem?_eq_none_iff.mpr (by omega)
        rw [hover]
        exact .inr ⟨Nat.lt_succ_of_lt hi, hfinds.byIndex⟩
  | byCompletion h ih =>
      rcases ih with ⟨-, -, hdrains⟩ | ⟨hi, hfinds⟩
      · cases hdrains
      · exact .inr ⟨hi, hfinds.byCompletion⟩
  | @backlog next i j a b h hle hlen ih =>
      rcases ih with ⟨-, -, hdrains⟩ | ⟨hi, hfinds⟩
      · cases hdrains
      · -- no more can be announced than there is, and no less than was replayed
        obtain rfl : a = 0 := by omega
        obtain rfl : b = completed.length - j := by omega
        exact .inr ⟨hi, hfinds.backlog⟩

end Complete

end TxPipeline.Reader
