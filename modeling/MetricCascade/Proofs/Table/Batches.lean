/-
Batches written one after the other. A batch is written whole, or not at all if one of its tables is
not there. What a store answers is then a map: of all operations that were written for a layout, the
last one under a key.
-/
import MetricCascade.Proofs.Metric.Gather
import MetricCascade.Proofs.Table.View
import MetricCascade.Stage.Backend

namespace MetricCascade

open Indicator

/-- An operation together with what it was prepared from. -/
structure Prepared where
  kind : WriteKind
  layout : Layout
  indicator : Indicator
  operation : Operation
  prepared : Operation.prepare kind layout indicator = .ok operation
  /-- The numbers of the indicator have the widths that they are stored in. -/
  fits : indicator.Fits

namespace Prepared

/-- Whatever is of the measure of a layout can be prepared for it. -/
def ofFits (kind : WriteKind) (l : Layout) (x : Indicator) (hm : x.measure = l.measure) (hx : x.Fits) : Prepared :=
  ⟨kind, l, x, .storing kind l x, Operation.prepare_eq_ok.2 ⟨hm, rfl⟩, hx⟩

theorem operation_eq (p : Prepared) : p.operation = .storing p.kind p.layout p.indicator :=
  (Operation.prepare_eq_ok.1 p.prepared).2

theorem measure_eq (p : Prepared) : p.indicator.measure = p.layout.measure :=
  (Operation.prepare_eq_ok.1 p.prepared).1

theorem table_eq (p : Prepared) : p.operation.table = p.layout.table := by
  rw [p.operation_eq]
  rfl

end Prepared

/-- The indicators that were prepared for a layout, in order. -/
def preparedFor (l : Layout) (ps : List Prepared) : List Indicator := (ps.filter (·.layout = l)).map (·.indicator)

theorem preparedFor_append (l : Layout) (ps qs : List Prepared) :
    preparedFor l (ps ++ qs) = preparedFor l ps ++ preparedFor l qs := by
  simp [preparedFor]

theorem mem_preparedFor {l : Layout} {ps : List Prepared} {x : Indicator} (h : x ∈ preparedFor l ps) :
    x.Fits ∧ x.measure = l.measure := by
  unfold preparedFor at h
  obtain ⟨p, hp, rfl⟩ := List.mem_map.1 h
  have hlayout : p.layout = l := of_decide_eq_true (List.mem_filter.1 hp).2
  exact ⟨p.fits, hlayout ▸ p.measure_eq⟩

namespace Store

/-! ## One batch -/

/-- The first table of a batch that is not there. -/
def FirstMissing (s : Store) (batch : List Operation) (name : String) : Prop :=
  ∃ before op after, batch = before ++ op :: after ∧ op.table = name ∧ s.tables.contains name = false ∧
    ∀ o ∈ before, s.tables.contains o.table = true

theorem persist_eq_error_iff {s : Store} {batch : List Operation} {e : StoreError} :
    s.persist batch = .error e ↔ ∃ name, s.FirstMissing batch name ∧ e = .tableMissing name := by
  unfold persist
  constructor
  · intro h
    split at h
    · rename_i op hfind
      obtain ⟨hop, before, after, rfl, hbefore⟩ := List.find?_eq_some_iff_append.1 hfind
      refine ⟨op.table, ⟨before, op, after, rfl, rfl, by simpa using hop, by simpa using hbefore⟩, ?_⟩
      exact (Except.error.inj h).symm
    · cases h
  · rintro ⟨_, ⟨before, op, after, rfl, rfl, hop, hbefore⟩, rfl⟩
    have hfind : (before ++ op :: after).find? (fun o => !s.tables.contains o.table) = some op :=
      List.find?_eq_some_iff_append.2 ⟨by simp [hop], before, after, rfl, by simpa using hbefore⟩
    rw [hfind]

theorem batches_foldl_write (batch : List Operation) (s : Store) : (batch.foldl write s).batches = s.batches := by
  induction batch generalizing s with
  | nil => rfl
  | cons op batch ih =>
    rw [List.foldl_cons, ih]
    unfold write
    split <;> rfl

/-- Writes a batch; a store that refuses it stays as it is. -/
def commit (s : Store) (batch : List Operation) : Except StoreError Unit × Store :=
  match s.persist batch with
  | .ok t => (.ok (), t)
  | .error e => (.error e, s)

/-- The store with every operation of a batch written. -/
def writeAll (s : Store) (batch : List Operation) : Store := { batch.foldl write s with batches := s.batches + 1 }

theorem hasTable_writeAll (s : Store) (batch : List Operation) (l : Layout) :
    (s.writeAll batch).hasTable l = s.hasTable l :=
  contains_foldl_write batch s l.table

/-- A batch is refused for the first table that is missing, or written as a whole. -/
theorem commit_cases (s : Store) (batch : List Operation) :
    (∃ name, s.FirstMissing batch name ∧ s.commit batch = (.error (.tableMissing name), s)) ∨
      (∀ op ∈ batch, s.tables.contains op.table = true) ∧ s.commit batch = (.ok (), s.writeAll batch) := by
  unfold commit
  by_cases hpresent : ∀ op ∈ batch, s.tables.contains op.table = true
  · rw [persist_eq_ok hpresent, batches_foldl_write]
    exact .inr ⟨hpresent, rfl⟩
  · cases hpersist : s.persist batch with
    | error e =>
      obtain ⟨name, hmissing, rfl⟩ := persist_eq_error_iff.1 hpersist
      exact .inl ⟨name, hmissing, rfl⟩
    | ok t =>
      unfold persist at hpersist
      split at hpersist
      · cases hpersist
      · rename_i hfind
        exact absurd (by simpa using hfind) hpresent

theorem commit_eq_error_iff {s : Store} {batch : List Operation} {e : StoreError} :
    (s.commit batch).1 = .error e ↔ ∃ name, s.FirstMissing batch name ∧ e = .tableMissing name := by
  rw [← persist_eq_error_iff]
  unfold commit
  cases s.persist batch <;> simp

theorem commit_of_error {s : Store} {batch : List Operation} {e : StoreError} (h : (s.commit batch).1 = .error e) :
    (s.commit batch).2 = s := by
  rcases commit_cases s batch with ⟨name, -, hcommit⟩ | ⟨-, hcommit⟩
  · rw [hcommit]
  · rw [hcommit] at h
    cases h

end Store

/-- A batch that the gateway lets pass is committed to the store. -/
theorem Backend.persist_commits {b : Backend} {batch : List Operation} (h : b.faults.persist b.calls batch = none)
    (stage : Layout) (flushing : List Layout) :
    (b.persist stage flushing batch).1 = (b.store.commit batch).1 ∧
      (b.persist stage flushing batch).2.store = (b.store.commit batch).2 := by
  unfold Backend.persist Store.commit
  rw [h]
  dsimp only
  cases b.store.persist batch <;> exact ⟨rfl, rfl⟩

namespace Store

/-! ## Many batches -/

/-- Writes batches in order, each of them or not; those that were written, and the store after all. -/
def commitAll : List (List Prepared) → Store → List (List Prepared) × Store
  | [], s => ([], s)
  | batch :: rest, s =>
    match s.commit (batch.map (·.operation)) with
    | (.error _, t) => commitAll rest t
    | (.ok (), t) =>
      let (written, u) := commitAll rest t
      (batch :: written, u)

/-- Every table that a batch is for is there. -/
def Complete (s : Store) (batch : List Prepared) : Prop := ∀ p ∈ batch, s.hasTable p.layout = true

instance (s : Store) (batch : List Prepared) : Decidable (s.Complete batch) :=
  inferInstanceAs (Decidable (∀ p ∈ batch, s.hasTable p.layout = true))

variable {s : Store} {l : Layout} {v : View} {batch : List Prepared} {batches : List (List Prepared)}

theorem complete_iff : s.Complete batch ↔ ∀ op ∈ batch.map (·.operation), s.tables.contains op.table = true := by
  simp only [List.forall_mem_map, Prepared.table_eq]
  rfl

/-- Writing makes no table and drops none. -/
theorem complete_writeAll {ops : List Operation} : (s.writeAll ops).Complete batch ↔ s.Complete batch := by
  simp only [Complete, hasTable_writeAll]

theorem commitAll_of_complete (h : s.Complete batch) :
    s.commitAll (batch :: batches) =
      (batch :: ((s.writeAll (batch.map (·.operation))).commitAll batches).1,
        ((s.writeAll (batch.map (·.operation))).commitAll batches).2) := by
  rcases commit_cases s (batch.map (·.operation)) with ⟨_, ⟨before, op, after, hbatch, rfl, hno, -⟩, -⟩ | ⟨-, hcommit⟩
  · have hyes := complete_iff.1 h op (by rw [hbatch]; simp)
    exact absurd (hno.symm.trans hyes) Bool.false_ne_true
  · conv_lhs => unfold commitAll
    rw [hcommit]

theorem commitAll_of_not_complete (h : ¬ s.Complete batch) : s.commitAll (batch :: batches) = s.commitAll batches := by
  rcases commit_cases s (batch.map (·.operation)) with ⟨_, -, hcommit⟩ | ⟨hpresent, -⟩
  · conv_lhs => unfold commitAll
    rw [hcommit]
  · exact absurd (complete_iff.2 hpresent) h

/-- The batches that are written are those whose tables are all there. -/
theorem commitAll_written (batches : List (List Prepared)) (s : Store) :
    (s.commitAll batches).1 = batches.filter fun batch => s.Complete batch := by
  induction batches generalizing s with
  | nil => rfl
  | cons batch rest ih =>
    by_cases hcomplete : s.Complete batch
    · rw [commitAll_of_complete hcomplete, List.filter_cons_of_pos (by simpa using hcomplete)]
      exact congrArg (batch :: ·) ((ih _).trans (List.filter_congr fun _ _ => decide_eq_decide.2 complete_writeAll))
    · rw [commitAll_of_not_complete hcomplete, List.filter_cons_of_neg (by simpa using hcomplete)]
      exact ih s

theorem commitAll_batches (batches : List (List Prepared)) (s : Store) :
    (s.commitAll batches).2.batches = s.batches + (s.commitAll batches).1.length := by
  induction batches generalizing s with
  | nil => rfl
  | cons batch rest ih =>
    by_cases hcomplete : s.Complete batch
    · have hone : (s.writeAll (batch.map (·.operation))).batches = s.batches + 1 := rfl
      rw [commitAll_of_complete hcomplete, ih, hone, List.length_cons]
      omega
    · rw [commitAll_of_not_complete hcomplete, ih]

/-- An operation for another layout than `l` is for another table. -/
def Apart (l : Layout) (batch : List Prepared) : Prop := ∀ p ∈ batch, p.layout.table = l.table → p.layout = l

theorem Shows.writeAll (h : s.Shows l v) (hbatch : Apart l batch) :
    (s.writeAll (batch.map (·.operation))).Shows l (overlay v (preparedFor l batch)) := by
  suffices hrows : ((batch.map (·.operation)).foldl Store.write s).Shows l (overlay v (preparedFor l batch)) from
    hrows.congr rfl
  induction batch using List.reverseRecOn with
  | nil => exact h
  | append_singleton batch p ih =>
    have hrest := ih fun q hq => hbatch q (List.mem_append_left _ hq)
    rw [List.map_append, List.foldl_append, preparedFor_append, overlay_append, List.map_singleton, List.foldl_cons,
      List.foldl_nil, p.operation_eq]
    by_cases hl : p.layout = l
    · subst hl
      have hone : preparedFor p.layout [p] = [p.indicator] := by simp [preparedFor]
      rw [hone]
      exact hrest.write p.kind p.indicator
    · have hnone : preparedFor l [p] = [] := by simp [preparedFor, hl]
      have hname : p.layout.table ≠ l.table := fun hname => hl (hbatch p (by simp) hname)
      rw [hnone]
      exact hrest.congr (tables_write_of_ne hname)

theorem Shows.commitAll (h : s.Shows l v) (hbatches : ∀ batch ∈ batches, Apart l batch) :
    (s.commitAll batches).2.Shows l (overlay v (preparedFor l (s.commitAll batches).1.flatten)) := by
  induction batches generalizing s v with
  | nil => exact h
  | cons batch rest ih =>
    have hrest : ∀ batch ∈ rest, Apart l batch := fun batch hb => hbatches batch (List.mem_cons_of_mem _ hb)
    by_cases hcomplete : s.Complete batch
    · rw [commitAll_of_complete hcomplete, List.flatten_cons, preparedFor_append, overlay_append]
      exact ih (h.writeAll (hbatches batch (List.mem_cons_self ..))) hrest
    · rw [commitAll_of_not_complete hcomplete]
      exact ih h hrest

/-! ## Looking up -/

/-- An overlay of nothing shows the last that was laid under each key. -/
theorem overlay_none_eq (xs : List Indicator) (k : Key) :
    overlay (fun _ => none) xs k = (under k xs).getLast?.map (·.value) := by
  induction xs using List.reverseRecOn with
  | nil => rfl
  | append_singleton xs x ih =>
    have hstep : overlay (fun _ => none) (xs ++ [x]) =
        Function.update (overlay (fun _ => none) xs) x.key (some x.value) := overlay_append ..
    rw [hstep, under_append]
    by_cases hk : k = x.key
    · subst hk
      simp [under]
    · simp [under, hk, Ne.symm hk, ih]

theorem Shows.get_last {xs : List Indicator} (h : s.Shows l (overlay (fun _ => none) xs))
    (hxs : ∀ x ∈ xs, x.Fits ∧ x.measure = l.measure) (k : Key) : s.get l k = .ok (under k xs).getLast? := by
  have hlast {x : Indicator} (hx : (under k xs).getLast? = some x) : x ∈ xs ∧ x.key = k :=
    mem_under.1 (List.mem_of_getLast? hx)
  rw [h.get_readable]
  · rw [overlay_none_eq]
    cases hx : (under k xs).getLast? with
    | none => rfl
    | some x =>
      obtain ⟨-, rfl⟩ := hlast hx
      rfl
  · intro a ha
    rw [overlay_none_eq] at ha
    obtain ⟨x, hx, rfl⟩ := Option.map_eq_some_iff.1 ha
    obtain ⟨hmem, rfl⟩ := hlast hx
    exact hxs x hmem

end Store

open Store

/-- Batches of operations for some layouts whose tables have different names; those tables that are there
are empty. -/
structure Fresh (ls : List Layout) (s : Store) (batches : List (List Prepared)) : Prop where
  apart : (ls.map Layout.table).Nodup
  empty : ∀ l ∈ ls, ∀ t, s.tables.get? l.table = some t → t.rows = ∅
  own : ∀ batch ∈ batches, ∀ p ∈ batch, p.layout ∈ ls

/-- Batches refine a map: whatever is written, a table that is there answers the indicator of the last
operation for its layout and a key, of the batches that were written, or nothing if there is none. These
are the batches whose tables are all there, and they are counted. Any other batch is refused for its first
missing table and leaves the store as it is. No two keys have one text. -/
theorem batches_refine_map {ls : List Layout} {s : Store} {batches : List (List Prepared)} (h : Fresh ls s batches) :
    (∀ l ∈ ls, s.hasTable l = true → ∀ k,
      (s.commitAll batches).2.get l k =
        .ok (under k (preparedFor l (s.commitAll batches).1.flatten)).getLast?) ∧
    (s.commitAll batches).1 = batches.filter (fun batch => s.Complete batch) ∧
    (s.commitAll batches).2.batches = s.batches + (s.commitAll batches).1.length ∧
    (∀ (t : Store) (batch : List Operation) (e : StoreError),
      ((t.commit batch).1 = .error e ↔ ∃ name, t.FirstMissing batch name ∧ e = .tableMissing name) ∧
      ((t.commit batch).1 = .error e → (t.commit batch).2 = t)) ∧
    (∀ (b : Backend) (stage : Layout) (flushing : List Layout) (batch : List Operation),
      b.faults.persist b.calls batch = none →
        (b.persist stage flushing batch).1 = (b.store.commit batch).1 ∧
          (b.persist stage flushing batch).2.store = (b.store.commit batch).2) ∧
    Function.Injective Key.text := by
  refine ⟨?_, commitAll_written batches s, commitAll_batches batches s, ?_, ?_, fun _ _ => Key.text_injective⟩
  · intro l hl hpresent k
    obtain ⟨t, ht⟩ := Option.isSome_iff_exists.1 hpresent
    have hshows : s.Shows l fun _ => none := shows_empty ht (h.empty l hl t ht)
    have hapart : ∀ batch ∈ batches, Apart l batch := fun batch hbatch p hp hname =>
      List.inj_on_of_nodup_map h.apart (h.own batch hbatch p hp) hl hname
    exact (hshows.commitAll hapart).get_last (fun x => mem_preparedFor) k
  · exact fun t batch e => ⟨commit_eq_error_iff, commit_of_error⟩
  · exact fun b stage flushing batch hpass => b.persist_commits hpass stage flushing

/-! ## Calls and faults -/

def callsByMinute : Layout := ⟨"calls", .count, .minute⟩

def callsByHour : Layout := ⟨"calls", .count, .hour⟩

def faultsByMinute : Layout := ⟨"faults", .share, .minute⟩

/-- Calls are counted by the minute and by the hour; there is no table for faults. -/
def callsOnly : Store := [callsByMinute, callsByHour].foldl createTable {}

/-- Three batches for calls, the second of which has an operation for faults as well. -/
def mixedBatches : List (List Prepared) :=
  [[.ofFits .insert callsByMinute (.count "checkout" ⟨202403151427⟩ 1) rfl (by decide),
      .ofFits .insert callsByHour (.count "checkout" ⟨2024031514⟩ 5) rfl (by decide),
      .ofFits .update callsByMinute (.count "checkout" ⟨202403151427⟩ 2) rfl (by decide)],
    [.ofFits .update callsByMinute (.count "checkout" ⟨202403151427⟩ 3) rfl (by decide),
      .ofFits .insert faultsByMinute (.share "checkout" ⟨202403151427⟩ true) rfl (by decide)],
    [.ofFits .insert callsByMinute (.count "1428_checkout" ⟨20240315⟩ 4) rfl (by decide)]]

/-- The second batch is not written: the minute keeps the later of the two counts of the first batch. -/
theorem batches_refine_map_mixed :
    Fresh [callsByMinute, callsByHour, faultsByMinute] callsOnly mixedBatches ∧
      (callsOnly.commitAll mixedBatches).2.get callsByMinute ⟨"checkout", ⟨202403151427⟩⟩ =
        .ok (some (.count "checkout" ⟨202403151427⟩ 2)) ∧
      (callsOnly.commitAll mixedBatches).2.get callsByMinute ⟨"checkout", ⟨202403151428⟩⟩ = .ok none ∧
      (callsOnly.commitAll mixedBatches).2.batches = 2 := by
  have hfresh : Fresh [callsByMinute, callsByHour, faultsByMinute] callsOnly mixedBatches := by
    refine ⟨by decide, ?_, by decide⟩
    intro l hl t ht
    simp only [List.mem_cons, List.not_mem_nil, or_false] at hl
    rcases hl with rfl | rfl | rfl
    · cases ht; rfl
    · cases ht; rfl
    · cases ht
  obtain ⟨hget, hwritten, hcount, -⟩ := batches_refine_map hfresh
  have hminute := hget callsByMinute (by decide) rfl
  rw [hwritten] at hminute hcount
  exact ⟨hfresh, hminute _, hminute _, hcount⟩

end MetricCascade
