/-
Batches that are refused. A flush hands every reconciled entry on to the next stage before its batch
is written. So when the batch is refused, the stages below and the tables are as they were exactly
if no row of the batch has a window at the next stage's level.
-/
import MetricCascade.Proofs.Stage.Frame

namespace MetricCascade.Stage

/-! ## Updates received

A stage counts every update that reaches it as merged or as failed, and a flush counts none. -/

/-- The number of updates that reached the stage at a position. -/
def States.received : {stages : List Stage} → Nat → States stages → Nat
  | [], _, () => 0
  | _ :: _, 0, (own, _) => own.received
  | _ :: _, i + 1, (_, below) => below.received i

variable {σ : Type} {s : Stage} {outlet : Option (Outlet σ)}

theorem flush_received (outlet : Option (Outlet σ)) (above : List Layout) (c : Scene σ) :
    (s.flush outlet above c).2.own.received = c.own.received := by
  have hprepared {p : WindowPair} {r : Outcome (List Operation)} {d : Scene σ}
      (h : s.prepareBatch outlet (c.taken s p) (c.draining s p) = (r, d)) : d.own.received = c.own.received := by
    have hkept := (prepareBatch_kept (s := s) outlet (c.taken s p) (c.draining s p)).received
    rw [h] at hkept
    exact hkept
  rcases hflush : s.flush outlet above c with ⟨r, e⟩
  cases hflush ▸ flush_cases s outlet above c with
  | unswapped _ => rfl
  | aborted _ hprepare =>
    have hsame := hprepared hprepare
    exact hsame
  | unwritten _ hprepare =>
    have hsame := hprepared hprepare
    exact hsame
  | @sent _ _ op batch d _ _ _ hprepare hwrite =>
    have hkept := (writeBatch_kept (s := s) above (op :: batch) d).1.received
    rw [hwrite] at hkept
    exact hkept.trans (hprepared hprepare)

theorem merge_received {x : Indicator} {c d : Scene σ} (h : s.merge x c = (.ok (), d)) :
    d.own.received = c.own.received + 1 := by
  unfold merge at h
  rcases hm : c.own.windows.merge x with ⟨_ | _ | _, p⟩ <;> rw [hm] at h
  · cases h
  · cases h; rfl
  · cases h; exact Nat.succ_add _ _

theorem submit_received {above : List Layout} {x : Indicator} {c d : Scene σ}
    (h : s.submit outlet above x c = (.ok (), d)) : d.own.received = c.own.received + 1 := by
  unfold submit at h
  split at h
  · have hflush := flush_received (s := s) outlet above c
    rcases hf : s.flush outlet above c with ⟨fault | e | _, c'⟩ <;> rw [hf] at h hflush
    · cases h
    · rw [← hflush]; exact merge_received (c := c'.record (.flushFailed e)) h
    · rw [← hflush]; exact merge_received h
  · exact merge_received h

/-- An update that was taken adds one to what its stage received. -/
theorem submitIn_received : ∀ {stages : List Stage} {above : List Layout} {i : Nat} {x : Indicator}
    {states states' : States stages} {b b' : Backend}, i < stages.length →
      submitIn stages above i x states b = (.ok (), states', b') → states'.received i = states.received i + 1
  | s :: rest, above, 0, x, states, _, b, b', _, h => by
    rw [submitIn_head] at h
    rcases hs : s.submit (s.downstream rest above) above x ⟨states.1, states.2, b⟩ with ⟨r, c⟩
    rw [hs] at h
    cases h
    exact submit_received hs
  | s :: rest, above, i + 1, x, states, _, b, b', hi, h => by
    rw [submitIn_tail] at h
    rcases hs : submitIn rest above i x states.2 b with ⟨r, below', b''⟩
    rw [hs] at h
    cases h
    have hbelow := submitIn_received (Nat.lt_of_succ_lt_succ (by simpa using hi)) hs
    exact hbelow

/-! ## What a refused batch leaves behind -/

/-- The indicator has a window at a level. -/
def widens (l : Level) (x : Indicator) : Bool := (x.rollup l).toOption.isSome

/-- While a batch is prepared, the next stage receives every row of it that has a window there; if
there is none, neither the stages below nor the tables change. -/
theorem prepareBatch_handed {next : Outlet σ} (received : σ → Nat)
    (hnext : ∀ x below b below' b', next.submit x below b = (.ok (), below', b') →
      received below' = received below + 1)
    {xs : List Indicator} {c d : Scene σ} {batch : List Operation}
    (h : s.prepareBatch (some next) xs c = (.ok batch, d)) :
    ∃ ys : List Indicator, batch.map (·.row) = ys.map Row.ofIndicator ∧
      received d.below = received c.below + ys.countP (widens next.layout.level) ∧
      (ys.countP (widens next.layout.level) = 0 → d.below = c.below ∧ d.backend.store = c.backend.store) := by
  induction xs generalizing c batch with
  | nil =>
    cases h
    exact ⟨[], rfl, rfl, fun _ => ⟨rfl, rfl⟩⟩
  | cons x rest ih =>
    unfold prepareBatch at h
    obtain ⟨hasked, hop⟩ := reconcile_spec s x c.backend
    rcases hr : s.reconcile x c.backend with ⟨fault | _ | ⟨op, y⟩, b⟩ <;> rw [hr] at h hasked hop
    · cases h
    · obtain ⟨ys, hrows, hcount, hnone⟩ := ih h
      exact ⟨ys, hrows, hcount, fun h0 => ⟨(hnone h0).1, (hnone h0).2.trans hasked.store⟩⟩
    · obtain ⟨-, kind, -, rfl⟩ := hop op y rfl
      dsimp only at h
      rcases hf : s.forward (some next) y { c with backend := b } with ⟨fault | _, c'⟩ <;> rw [hf] at h
      · cases h
      dsimp only at h
      rcases ht : s.prepareBatch (some next) rest c' with ⟨fault | tail, d'⟩ <;> rw [ht] at h
      · cases h
      obtain ⟨rfl, rfl⟩ : Operation.storing kind s.layout y :: tail = batch ∧ d' = d := by cases h; exact ⟨rfl, rfl⟩
      obtain ⟨ys, hrows, hcount, hnone⟩ := ih ht
      refine ⟨y :: ys, by rw [List.map_cons, List.map_cons, hrows]; rfl, ?_⟩
      rw [List.countP_cons]
      cases hroll : y.rollup next.layout.level with
      | error e =>
        rw [forward_error hroll] at hf
        cases hf
        -- the row is let go, so the stages below have not heard of it
        have hno : widens next.layout.level y = false := by unfold widens; rw [hroll]; rfl
        rw [hno]
        exact ⟨hcount, fun h0 => ⟨(hnone h0).1, (hnone h0).2.trans hasked.store⟩⟩
      | ok rolled =>
        -- the next stage counts the row, so the rows with a window there are not none
        have hyes : widens next.layout.level y = true := by unfold widens; rw [hroll]; rfl
        rw [hyes, if_pos rfl]
        rcases hsub : next.submit rolled c.below b with ⟨r, below', b'⟩
        rw [forward_ok hroll, hsub] at hf
        cases hf
        have hone : received below' = received c.below + 1 := hnext rolled c.below b below' b' hsub
        refine ⟨?_, fun h0 => absurd h0 (Nat.succ_ne_zero _)⟩
        rw [hcount]
        dsimp only
        omega

theorem merge_below (x : Indicator) (c : Scene σ) :
    (s.merge x c).2.below = c.below ∧ (s.merge x c).2.backend.store = c.backend.store := by
  unfold merge
  rcases c.own.windows.merge x with ⟨_ | _ | _, p⟩ <;> exact ⟨rfl, rfl⟩

/-- A flush that reports an error has had its batch refused, and has written nothing itself. -/
theorem flush_refused {above : List Layout} {c d : Scene σ} {e : FlushError}
    (h : s.flush outlet above c = (.ok (.error e), d)) :
    ∃ (start prepared : Scene σ) (entries : List Indicator) (batch : List Operation),
      start.below = c.below ∧ start.backend.store = c.backend.store ∧
      s.prepareBatch outlet entries start = (.ok batch, prepared) ∧
      d.below = prepared.below ∧ d.backend.store = prepared.backend.store ∧
      d.backend.journal.head? = some (.batch s.layout (above ++ [s.layout]) batch false) := by
  have hcases := flush_cases s outlet above c
  rw [h] at hcases
  generalize hresult : (Except.ok (Except.error e), d) = result at hcases
  cases hcases with
  | unswapped _ => cases hresult
  | aborted _ _ => cases hresult
  | unwritten _ _ => cases hresult
  | @sent p _ op batch prepared _ _ _ hprepare hwrite =>
    -- only the gateway answers with an error, and by then the batch was prepared
    unfold writeBatch at hwrite
    rcases Backend.persist_cases prepared.backend s.layout (above ++ [s.layout]) (op :: batch) with
      ⟨e', he⟩ | ⟨t, -, ht⟩
    · rw [he] at hwrite
      cases hwrite
      cases hresult
      exact ⟨c.draining s p, prepared, c.taken s p, op :: batch, rfl, rfl, hprepare, rfl, rfl, rfl⟩
    · rw [ht] at hwrite
      cases hwrite
      cases hresult

/-- A flush whose batch is refused, by itself or within an update, leaves the stages below and all
tables as they were exactly if no row of the batch has a window at the level of the stage fed. -/
theorem refused_flush_isolated_iff {rest : List Stage} {j : Nat} {t : Stage} (hnext : s.next = some j)
    (hfed : rest[j]? = some t) {above : List Layout} {own : State} {below : States rest} {b : Backend}
    {e : FlushError} {d : Scene (States rest)}
    (h : s.flush (s.downstream rest above) above ⟨own, below, b⟩ = (.ok (.error e), d)) :
    ∃ (batch : List Operation) (ys : List Indicator),
      d.backend.journal.head? = some (.batch s.layout (above ++ [s.layout]) batch false) ∧
      batch.map (·.row) = ys.map Row.ofIndicator ∧
      ((d.below = below ∧ d.backend.store = b.store) ↔ ∀ y ∈ ys, ∀ z, y.rollup t.layout.level ≠ .ok z) ∧
      (s.threshold ≤ own.windows.active.size → ∀ x,
        (s.submit (s.downstream rest above) above x ⟨own, below, b⟩).2.below = d.below ∧
        (s.submit (s.downstream rest above) above x ⟨own, below, b⟩).2.backend.store = d.backend.store) := by
  obtain ⟨start, prepared, entries, batch, hbelow, hstore, hprepare, hdbelow, hdstore, hjournal⟩ := flush_refused h
  rw [downstream_eq hnext hfed] at hprepare
  have hj : j < rest.length := (List.getElem?_eq_some_iff.1 hfed).1
  obtain ⟨ys, hrows, hcount, hnone⟩ :=
    prepareBatch_handed (States.received j) (fun x below b below' b' hsub => submitIn_received hj hsub) hprepare
  refine ⟨batch, ys, hjournal, hrows, ?_, fun hfull x => ?_⟩
  · have hwidens : ys.countP (widens t.layout.level) = 0 ↔ ∀ y ∈ ys, ∀ z, y.rollup t.layout.level ≠ .ok z := by
      rw [List.countP_eq_zero]
      apply forall₂_congr
      intro y _
      unfold widens
      cases y.rollup t.layout.level <;> simp [Except.toOption]
    rw [← hwidens, hdbelow, hdstore]
    constructor
    · rintro ⟨hsame, -⟩
      -- whatever the next stage receives is counted there, so its state cannot be the same
      rw [hsame, hbelow] at hcount
      exact Nat.add_eq_left.1 hcount.symm
    · intro h0
      obtain ⟨h1, h2⟩ := hnone h0
      exact ⟨h1.trans hbelow, h2.trans hstore⟩
  · unfold submit
    rw [if_pos hfull, h]
    exact merge_below x (d.record (.flushFailed e))

/-! ## A refused batch of one row -/

/-- Counts calls by the minute and hands them on. -/
def minuteCalls : Stage := ⟨⟨"calls", .count, .minute⟩, 1, some 0⟩

/-- Counts calls by the hour. -/
def hourCalls : Stage := ⟨⟨"calls", .count, .hour⟩, 1, none⟩

/-- One call waits to be flushed. -/
def oneCall : State where
  windows.active.entries := (∅ : Dict Key Aggregate).insert ⟨"checkout", ⟨202403151427⟩⟩ (.count 1)
  windows.active.size := 1

/-- Both tables, behind a gateway that refuses every batch. -/
def refusingBatches : Backend where
  store := (({} : Store).createTable minuteCalls.layout).createTable hourCalls.layout
  faults.persist _ _ := some "down"

theorem refused_flush_isolated_iff_oneCall :
    ∃ d : Scene (States [hourCalls]),
      minuteCalls.flush (minuteCalls.downstream [hourCalls] []) [] ⟨oneCall, .initial _, refusingBatches⟩ =
        (.ok (.error ⟨minuteCalls.layout, .batchRefused 1 "down"⟩), d) ∧
      ∃ (batch : List Operation) (ys : List Indicator), batch.map (·.row) = ys.map Row.ofIndicator ∧
        ((d.below = .initial _ ∧ d.backend.store = refusingBatches.store) ↔
          ∀ y ∈ ys, ∀ z, y.rollup .hour ≠ .ok z) := by
  refine ⟨_, rfl, ?_⟩
  obtain ⟨batch, ys, -, hrows, hiff, -⟩ :=
    @refused_flush_isolated_iff minuteCalls [hourCalls] 0 hourCalls rfl rfl [] oneCall (.initial _) refusingBatches
      _ _ rfl
  exact ⟨batch, ys, hrows, hiff⟩

/-- The batch of minutes is refused, and the hour counts the call all the same. -/
theorem refused_flush_leaves_hour :
    ∃ d : Scene (States [hourCalls]),
      minuteCalls.flush (minuteCalls.downstream [hourCalls] []) [] ⟨oneCall, .initial _, refusingBatches⟩ =
        (.ok (.error ⟨minuteCalls.layout, .batchRefused 1 "down"⟩), d) ∧
      (States.initial [hourCalls]).1.windows.active.entries.entries = [] ∧
      d.below.1.windows.active.entries.entries = [(⟨"checkout", ⟨2024031514⟩⟩, .count 1)] :=
  ⟨_, rfl, rfl, rfl⟩

end MetricCascade.Stage
