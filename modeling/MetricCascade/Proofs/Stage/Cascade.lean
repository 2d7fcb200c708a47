/-
Whether the levels of a cascade agree. A stage hands on every row that it writes, with all that the row
holds. So the row of a coarser window combines all writes of the rows in it, also of rows that were
written anew later, and agrees with the rows themselves just if the superseded writes add nothing.
-/
import MetricCascade.Proofs.Stage.Chain
import MetricCascade.Proofs.Stage.Lone
import MetricCascade.Proofs.Table.Rewrites

namespace MetricCascade

open Indicator

/-! ## Keys within a month -/

/-- The key of the month that a key lies in; a code of no level stays as it is. -/
def Key.month (k : Key) : Key :=
  ⟨k.entity, match k.bucket.widen .month with
    | .ok b => b
    | .error _ => k.bucket⟩

/-- Rolling up keeps to the month. -/
theorem Indicator.rollup_month {x y : Indicator} {l : Level} (h : x.rollup l = .ok y) : y.key.month = x.key.month := by
  obtain ⟨hbucket, hentity, -⟩ := rollup_eq_ok_iff.1 h
  have hwiden := Bucket.widen_widen hbucket l.le_month
  obtain ⟨m, hm, -⟩ := Bucket.widen_eq_ok_iff.1 hbucket
  unfold Key.month
  rw [hwiden, hentity, Bucket.widen_eq_ok_iff.2 ⟨m, hm, m.le_month, rfl⟩]

/-- The rows that a stage has written, oldest first. -/
def Backend.rowsWritten (b : Backend) (l : Layout) : List Indicator := (b.written l).filterMap (·.row.indicator?)

namespace Stage

open Backend Store

theorem coherent_formsOf (m : Measure) (xs : List Indicator) : Coherent (formsOf Key.month m xs) := by
  intro y z l h
  unfold formsOf
  rw [rollup_month h]

/-! ## What was written -/

variable {s : Stage} {rest stages : List Stage} {φ : Key → Form} {H W : List Indicator} {b : Backend}

/-- Operations that store indicators of the right widths read as these. -/
theorem readings_storing {l : Layout} {ops : List Operation}
    (h : List.Forall₂ (fun op y => ∃ kind, op = .storing kind l y) ops W) (hfits : ∀ y ∈ W, y.Fits) :
    ops.filterMap (·.row.indicator?) = W := by
  induction h with
  | nil => rfl
  | cons hop hrest ih =>
    rename_i op y ops W
    obtain ⟨kind, rfl⟩ := hop
    have hread : (Operation.storing kind l y).row.indicator? = some y :=
      Row.indicator?_ofIndicator.2 ⟨hfits y (List.mem_cons_self ..), rfl⟩
    rw [List.filterMap_cons, hread, ih fun z hz => hfits z (List.mem_cons_of_mem _ hz)]

theorem Keeping.rowsWritten {own : State} (h : Keeping s φ H W own b) : b.rowsWritten s.layout = W :=
  readings_storing h.wrote h.fits

/-- In a chain at rest, a stage that is fed has stored all writes of the stage above it. -/
theorem Chained.neighbours : ∀ {stages : List Stage} {H : List Indicator} {states : States stages},
    Chained φ stages H states b → states.Quiet → ∀ {i : Nat} {s t : Stage}, stages[i]? = some s →
      stages[i + 1]? = some t → s.next = some 0 →
      ∃ v, Legible s φ (overlay (fun _ => none) (b.rowsWritten s.layout)) b ∧ Legible t φ v b ∧
        Balanced φ v (fun _ => none) (rolledUp t.layout.level (b.rowsWritten s.layout)) ∧
        ∀ x ∈ rolledUp t.layout.level (b.rowsWritten s.layout), Suits φ x
  | [], _, _, _, _, _, _, _, hs, _, _ => nomatch hs
  | [_], _, _, _, _, 0, _, _, _, ht, _ => nomatch ht
  | s :: t :: rest, H, states, ⟨_, W, hkeep, hrest⟩, hquiet, 0, s', t', hs, ht, hnext => by
    obtain rfl : s = s' := Option.some.inj hs
    obtain rfl : t = t' := Option.some.inj ht
    have hhanded : handed (s.downstream (t :: rest) []) W = rolledUp t.layout.level W := by
      unfold downstream outlet handed
      rw [hnext]
      rfl
    rw [hhanded] at hrest
    obtain ⟨hsuits, W', hkeep', -⟩ := hrest
    have hview : states.2.1.windows.active.view = fun _ => none := hquiet.2.1
    rw [hkeep.rowsWritten]
    exact ⟨_, hkeep.legible, hkeep'.legible, hview ▸ hkeep'.balanced, hsuits⟩
  | _ :: rest, _, states, ⟨_, _, _, hrest⟩, hquiet, i + 1, s, t, hs, ht, hnext =>
    Chained.neighbours hrest hquiet.2 hs ht hnext

/-! ## Agreement -/

/-- The row of `k` at level `coarse` combines the rows of level `fine` that lie in its window, each once. -/
def Agrees (st : Store) (kind : String) (m : Measure) (fine coarse : Level) (k : Key) : Prop :=
  ∃ rows, st.indicators ⟨kind, m, fine⟩ = .ok rows ∧
    st.get ⟨kind, m, coarse⟩ k = .ok (combineAll (under k (rolledUp coarse rows)))

/-- What is listed of a table that `W` was written to are the latest of `W`. -/
theorem Legible.rows (h : Legible s φ (overlay (fun _ => none) W) b) (hm : ∀ k, (φ k).1 = s.layout.measure) :
    ∃ rows, b.store.indicators s.layout = .ok rows ∧ rows.Perm (latest W) := by
  obtain ⟨rows, hrows, hnodup, hmem⟩ := h.shows.indicators fun k a ha =>
    ⟨h.fits k a ha, (measure_eq (h.current k a ha)).trans (hm k)⟩
  refine ⟨rows, hrows, (List.perm_ext_iff_of_nodup hnodup.of_map (nodup_latest W).of_map).2 ?_⟩
  intro x
  rw [hmem, overlay_eq_some_iff]
  exact or_iff_left fun hno => nomatch hno.1

variable {t : Stage} {v : View}

/-- The row of a coarser window combines all writes of the rows in it. -/
theorem coarse_row (ht : Legible t φ v b) (hm : ∀ k, (φ k).1 = t.layout.measure)
    (hbalanced : Balanced φ v (fun _ => none) H) (hH : ∀ x ∈ H, Suits φ x) (k : Key) :
    b.store.get t.layout k = .ok (combineAll (under k H)) := by
  rw [ht.get hm, hbalanced.stored_eq hH]

/-- Some writes and the rows that stay of them combine to the same just if the superseded ones add nothing. -/
theorem combineAll_latest_iff {rows : List Indicator} {l : Level} (hrows : rows.Perm (latest W))
    (hW : ∀ x ∈ rolledUp l W, Suits φ x) (k : Key) :
    (combineAll (under k (rolledUp l W)) = combineAll (under k (rolledUp l rows)) ↔
        rawSum (under k (rolledUp l (superseded W))) = 0) ∧
      ((φ k).1 ≠ .count →
        (rawSum (under k (rolledUp l (superseded W))) = 0 ↔ under k (rolledUp l (superseded W)) = [])) := by
  -- every write is either the latest of its key or superseded
  have hsplit : (under k (rolledUp l rows) ++ under k (rolledUp l (superseded W))).Perm (under k (rolledUp l W)) := by
    rw [← under_append, ← rolledUp_append]
    exact (((hrows.append_right _).trans (latest_append_superseded_perm W)).filterMap _).filter _
  have hform : ∀ x ∈ under k (rolledUp l W), x.key = k ∧ x.value.Proper ∧ x.value.form = φ k := by
    intro x hx
    obtain ⟨hmem, rfl⟩ := mem_under.1 hx
    exact ⟨rfl, hW x hmem⟩
  have hempty : under k (rolledUp l W) = [] ↔ under k (rolledUp l rows) = [] := by
    constructor
    · intro hnil
      rw [hnil] at hsplit
      exact (List.append_eq_nil_iff.1 hsplit.eq_nil).1
    · intro hnil
      by_contra hne
      obtain ⟨z, hz⟩ := List.exists_mem_of_ne_nil _ hne
      obtain ⟨hzW, hkey⟩ := mem_under.1 hz
      obtain ⟨y, hy, hroll⟩ := mem_rolledUp.1 hzW
      -- the last write of the same row rolls up to the same window
      obtain ⟨y', hy', hkey'⟩ := exists_latest hy
      obtain ⟨hbucket, hentity, -⟩ := rollup_eq_ok_iff.1 hroll
      have hroll' : y'.rollup l = .ok ⟨k, y'.value⟩ :=
        rollup_eq_ok_iff.2 ⟨by rw [hkey', hbucket, hkey], by rw [hkey', ← hentity, hkey], rfl⟩
      have hmem : (⟨k, y'.value⟩ : Indicator) ∈ under k (rolledUp l rows) :=
        mem_under.2 ⟨mem_rolledUp.2 ⟨y', hrows.symm.subset hy', hroll'⟩, rfl⟩
      rw [hnil] at hmem
      exact List.not_mem_nil hmem
  refine ⟨?_, fun hcount => rawSum_eq_zero_iff hcount fun x hx => hform x (hsplit.subset (List.mem_append_right _ hx))⟩
  rw [combineAll_eq_iff hempty hform fun x hx => hform x (hsplit.subset (List.mem_append_left _ hx)),
    ← rawSum_perm hsplit, rawSum_append]
  exact add_eq_left

/-- Stages that have done nothing yet over empty tables form a chain. -/
theorem chained_initial {st : Store} {order : Layout → Nat → DrainOrder} : ∀ {stages : List Stage},
    (∀ s ∈ stages, ∃ t, st.tables.get? s.layout.table = some t ∧ t.rows = ∅) →
      Chained φ stages [] (.initial stages) { store := st, order := order }
  | [], _ => trivial
  | s :: rest, h => by
    obtain ⟨t, ht, hrows⟩ := h s (List.mem_cons_self ..)
    have hnone : handed (s.downstream rest []) [] = [] := by
      unfold handed
      cases s.downstream rest [] <;> rfl
    refine ⟨fun x hx => (List.not_mem_nil hx).elim, [], keeping_initial ht hrows, ?_⟩
    rw [hnone]
    exact chained_initial fun u hu => h u (List.mem_cons_of_mem _ hu)

end Stage

namespace Call

open Stage

/-- A call is work of the stages of its line, which stay the same. -/
theorem perform_extends (c : Line × Backend) (call : Call) :
    Backend.Extends (fun _ => True) c.2 (perform c call).2 := by
  cases call with
  | submit x => exact (submitIn_extends c.1.stages [] 0 x c.1.states c.2).mono fun _ _ => trivial
  | flush => exact (flushIn_extends c.1.stages 0 c.1.states c.2).mono fun _ _ => trivial
  | flushAll => exact (flushAllIn_extends c.1.stages c.1.states c.2).mono fun _ _ => trivial

theorem run_extends (stages : List Stage) (st : Store) (calls more : List Call) (order : Layout → Nat → DrainOrder) :
    Backend.Extends (fun _ => True) (run stages st calls order).2 (run stages st (calls ++ more) order).2 := by
  induction more using List.reverseRecOn with
  | nil =>
    rw [List.append_nil]
    exact .refl _
  | append_singleton more call ih =>
    rw [← List.append_assoc, run_append]
    exact ih.trans (perform_extends _ call)

end Call

theorem Layout.length_table (kind : String) (m : Measure) (l : Level) :
    (⟨kind, m, l⟩ : Layout).table.length = kind.length + match l with
      | .minute => 0
      | .hour => 5
      | .day => 4
      | .month => 6 := by
  have hsuffix (suffix : String) : s!"{kind}_{suffix}".length = kind.length + (1 + suffix.length) := by
    have hone : "_".length = 1 := by decide
    simp only [toString, String.length_append, hone, Nat.add_assoc]
  cases l with
  | minute => rfl
  | hour => exact hsuffix "hour"
  | day => exact hsuffix "day"
  | month => exact hsuffix "month"

/-- The tables of one kind at two levels have different names. -/
theorem Layout.table_inj {kind : String} {m : Measure} {l l' : Level}
    (h : (⟨kind, m, l⟩ : Layout).table = (⟨kind, m, l'⟩ : Layout).table) : l = l' := by
  have hlength := congrArg String.length h
  rw [length_table, length_table] at hlength
  cases l <;> cases l' <;> first | rfl | (dsimp only at hlength; omega)

open Stage Call Store

/-- The stages of a cascade form a chain. -/
theorem chain_cascade (kind : String) (m : Measure) (capacity : Nat) :
    Chain m (Line.cascade kind m capacity).stages := by
  have hlevels : ∀ levels : List Level, levels.Nodup → Chain m (levels.map fun level =>
      { layout := ⟨kind, m, level⟩, capacity, next := level.coarser?.map fun _ => 0 }) := by
    intro levels
    induction levels with
    | nil => exact fun _ => trivial
    | cons level levels ih =>
      intro hnodup
      rw [List.nodup_cons] at hnodup
      refine ⟨rfl, fun j hj => ?_, fun t ht heq => ?_, ih hnodup.2⟩
      · obtain ⟨-, -, rfl⟩ := Option.map_eq_some_iff.1 hj
        rfl
      · obtain ⟨level', hlevel', rfl⟩ := List.mem_map.1 ht
        exact hnodup.1 (Layout.table_inj heq ▸ hlevel')
  exact hlevels Level.all (by decide)

/-- In a cascade the stage of a level feeds that of the next coarser one, which comes right after it. -/
theorem cascade_neighbours (kind : String) (m : Measure) (capacity : Nat) {fine coarse : Level}
    (h : fine.coarser? = some coarse) :
    ∃ i, (Line.cascade kind m capacity).stages[i]? = some ⟨⟨kind, m, fine⟩, capacity, some 0⟩ ∧
      (Line.cascade kind m capacity).stages[i + 1]? =
        some ⟨⟨kind, m, coarse⟩, capacity, coarse.coarser?.map fun _ => 0⟩ := by
  cases fine with
  | minute => cases h; exact ⟨0, rfl, rfl⟩
  | hour => cases h; exact ⟨1, rfl, rfl⟩
  | day => cases h; exact ⟨2, rfl, rfl⟩
  | month => cases h

/-- A run of a cascade over empty tables, ended by a flush of every stage, with the windows drained in some
order: updates are single observations of the cascade's measure, of one shape for each entity and month,
and every row that is written can be read back, so that nothing overflows. -/
structure CascadeRun (kind : String) (m : Measure) (capacity : Nat) (st : Store) (calls : List Call)
    (order : Layout → Nat → DrainOrder := fun _ _ => .insertion) : Prop where
  installed : ∀ level, ∃ t, st.tables.get? (⟨kind, m, level⟩ : Layout).table = some t ∧ t.rows = ∅
  observed : ∀ x ∈ submitted calls, x.Observed ∧ x.measure = m
  shapes : ∀ x ∈ submitted calls, ∀ y ∈ submitted calls, x.key.month = y.key.month → x.value.shape = y.value.shape
  readable : Readable (Line.cascade kind m capacity).stages
    (run (Line.cascade kind m capacity).stages st (calls ++ [.flushAll]) order).2

variable {kind : String} {m : Measure} {capacity : Nat} {st : Store} {calls : List Call}
  {order : Layout → Nat → DrainOrder}

theorem CascadeRun.suits (h : CascadeRun kind m capacity st calls order) {x : Indicator} (hx : x ∈ submitted calls) :
    Suits (formsOf Key.month m (submitted calls)) x :=
  ⟨(h.observed x hx).1.proper, form_eq_formsOf (fun y hy => (h.observed y hy).2) h.shapes hx⟩

/-- After every call each stage has kept account. -/
theorem CascadeRun.chained (h : CascadeRun kind m capacity st calls order) : ∀ pre, pre <+: calls →
    ∃ (states : States (Line.cascade kind m capacity).stages) (b : Backend),
      run (Line.cascade kind m capacity).stages st pre order = (⟨_, states⟩, b) ∧
        Chained (formsOf Key.month m (submitted calls)) (Line.cascade kind m capacity).stages (submitted pre)
          states b := by
  have hchain := chain_cascade kind m capacity
  have hφ := coherent_formsOf m (submitted calls)
  intro pre
  induction pre using List.reverseRecOn with
  | nil =>
    intro _
    refine ⟨.initial _, { store := st, order := order }, rfl, chained_initial ?_⟩
    intro s hs
    obtain ⟨level, -, rfl⟩ := List.mem_map.1 hs
    exact h.installed level
  | append_singleton pre call ih =>
    intro hpre
    obtain ⟨states, b, hrun, hchained⟩ := ih ((List.prefix_append pre [call]).trans hpre)
    obtain ⟨more, rfl⟩ := hpre
    -- what was written by now is a part of what the whole run writes
    have hread := h.readable
    rw [List.append_assoc] at hread
    have hread := hread.back (run_extends _ _ _ _ _)
    rw [run_append, hrun] at hread ⊢
    cases call with
    | submit x =>
      have hx : x ∈ submitted (pre ++ [Call.submit x] ++ more) := by simp [submitted_append, submitted]
      obtain ⟨states', b', hsubmit, hchained'⟩ :=
        submitIn_chained hφ (fun _ => rfl) hchain [] x _ states b hchained (h.suits hx) hread
      refine ⟨states', b', ?_, by simpa [submitted_append, submitted] using hchained'⟩
      simp only [perform, Line.submit, Line.submitAt, hsubmit]
    | flush =>
      obtain ⟨d, hflush, hchained', -⟩ := flushHead_chained hφ (fun _ => rfl) hchain hchained hread
      have hflush' : flushIn (Line.cascade kind m capacity).stages 0 states b =
          (.ok (.ok true), (d.own, d.below), d.backend) := by
        refine (flushIn_head _ _ states b).trans ?_
        rw [hflush]
        rfl
      have hsame : submitted (pre ++ [Call.flush]) = submitted pre := by simp [submitted_append, submitted]
      refine ⟨(d.own, d.below), d.backend, ?_, by rw [hsame]; exact hchained'⟩
      simp only [perform, Line.flushAt, hflush']
    | flushAll =>
      obtain ⟨states', b', hall, hchained', -⟩ :=
        flushAllIn_chained hφ (fun _ => rfl) hchain _ states b hchained hread
      have hsame : submitted (pre ++ [Call.flushAll]) = submitted pre := by simp [submitted_append, submitted]
      refine ⟨states', b', ?_, by rw [hsame]; exact hchained'⟩
      simp only [perform, Line.flush, hall]

/-- The last flush of a run brings the chain to rest. -/
theorem CascadeRun.rest (h : CascadeRun kind m capacity st calls order) :
    ∃ (states : States (Line.cascade kind m capacity).stages) (b : Backend),
      run (Line.cascade kind m capacity).stages st (calls ++ [.flushAll]) order = (⟨_, states⟩, b) ∧ states.Quiet ∧
      Chained (formsOf Key.month m (submitted calls)) (Line.cascade kind m capacity).stages (submitted calls)
        states b := by
  obtain ⟨states, b, hrun, hchained⟩ := h.chained calls (List.prefix_refl _)
  have hread := h.readable
  rw [run_append, hrun] at hread
  obtain ⟨states', b', hall, hchained', hquiet⟩ := flushAllIn_chained (coherent_formsOf m (submitted calls))
    (fun _ => rfl) (chain_cascade kind m capacity) _ states b hchained hread
  refine ⟨states', b', ?_, hquiet, hchained'⟩
  rw [run_append, hrun]
  simp only [perform, Line.flush, hall]

/-- After any updates and flushes and a last flush of all stages, and in whatever order the windows are
drained, the row of a coarser window combines all writes of the rows in it. So it agrees with these rows
just if what was written and then written anew adds nothing; for anything but counts, just if no row in
the window was written anew. -/
theorem levels_agree_iff (h : CascadeRun kind m capacity st calls order) :
    ∃ (states : States (Line.cascade kind m capacity).stages) (b : Backend),
      run (Line.cascade kind m capacity).stages st (calls ++ [.flushAll]) order = (⟨_, states⟩, b) ∧ states.Quiet ∧
      ∀ fine coarse : Level, fine.coarser? = some coarse → ∀ k,
        b.store.get ⟨kind, m, coarse⟩ k =
          .ok (combineAll (under k (rolledUp coarse (b.rowsWritten ⟨kind, m, fine⟩)))) ∧
        (Agrees b.store kind m fine coarse k ↔
          rawSum (under k (rolledUp coarse (superseded (b.rowsWritten ⟨kind, m, fine⟩)))) = 0) ∧
        (m ≠ .count → (Agrees b.store kind m fine coarse k ↔
          under k (rolledUp coarse (superseded (b.rowsWritten ⟨kind, m, fine⟩))) = [])) := by
  obtain ⟨states, b, hrun, hquiet, hchained⟩ := h.rest
  refine ⟨states, b, hrun, hquiet, ?_⟩
  intro fine coarse hcoarser k
  obtain ⟨i, hs, ht⟩ := cascade_neighbours kind m capacity hcoarser
  obtain ⟨v, hfine, hcoarse, hbalanced, hsuits⟩ := hchained.neighbours hquiet hs ht rfl
  obtain ⟨rows, hrows, hperm⟩ := hfine.rows fun _ => rfl
  have hget := coarse_row hcoarse (fun _ => rfl) hbalanced hsuits k
  obtain ⟨hiff, hcount⟩ := combineAll_latest_iff hperm hsuits k
  have hagrees : Agrees b.store kind m fine coarse k ↔
      rawSum (under k (rolledUp coarse (superseded (b.rowsWritten ⟨kind, m, fine⟩)))) = 0 := by
    rw [← hiff]
    constructor
    · rintro ⟨rows', hrows', hget'⟩
      obtain rfl : rows' = rows := Except.ok.inj (hrows'.symm.trans hrows)
      exact Except.ok.inj (hget.symm.trans hget')
    · intro heq
      exact ⟨rows, hrows, heq ▸ hget⟩
  exact ⟨hget, hagrees, fun hm => hagrees.trans (hcount hm)⟩

/-! ## One minute, flushed twice -/

/-- A call is counted and flushed, and two more in the same minute. -/
def flushedBetween : List Call :=
  [.submit (.count "checkout" ⟨202403151427⟩ 1), .flushAll, .submit (.count "checkout" ⟨202403151427⟩ 2)]

/-- Tables for calls at every level. -/
def callTables : Store := (Level.all.map fun level => (⟨"calls", .count, level⟩ : Layout)).foldl Store.createTable {}

/-- Three calls are counted in the minute and four in its hour. -/
theorem hour_counts_flushed_minute_again :
    (run (Line.cascade "calls" .count 1000).stages callTables (flushedBetween ++ [.flushAll])).2.store.indicators
        ⟨"calls", .count, .minute⟩ = .ok [.count "checkout" ⟨202403151427⟩ 3] ∧
      (run (Line.cascade "calls" .count 1000).stages callTables (flushedBetween ++ [.flushAll])).2.store.get
        ⟨"calls", .count, .hour⟩ ⟨"checkout", ⟨2024031514⟩⟩ = .ok (some (.count "checkout" ⟨2024031514⟩ 4)) ∧
      ¬ Agrees (run (Line.cascade "calls" .count 1000).stages callTables (flushedBetween ++ [.flushAll])).2.store
        "calls" .count .minute .hour ⟨"checkout", ⟨2024031514⟩⟩ := by
  refine ⟨rfl, rfl, ?_⟩
  rintro ⟨rows, hrows, hget⟩
  obtain rfl : [.count "checkout" ⟨202403151427⟩ 3] = rows := Except.ok.inj hrows
  have hfour : some (.count "checkout" ⟨2024031514⟩ 4) =
      combineAll (under ⟨"checkout", ⟨2024031514⟩⟩ (rolledUp .hour [.count "checkout" ⟨202403151427⟩ 3])) :=
    Except.ok.inj hget
  exact absurd hfour (by decide)

theorem cascadeRun_flushedBetween : CascadeRun "calls" .count 1000 callTables flushedBetween where
  installed level :=
    Store.createTables_empty (List.mem_map.2 ⟨level, by cases level <;> simp [Level.all], rfl⟩) {}
  observed x hx := by
    have hcode : IsInt64 202403151427 := by decide
    simp only [flushedBetween, submitted, List.mem_cons, List.not_mem_nil, or_false] at hx
    rcases hx with rfl | rfl
    · exact ⟨.count hcode (by decide), rfl⟩
    · exact ⟨.count hcode (by decide), rfl⟩
  shapes x hx y hy _ := by
    simp only [flushedBetween, submitted, List.mem_cons, List.not_mem_nil, or_false] at hx hy
    rcases hx with rfl | rfl <;> rcases hy with rfl | rfl <;> rfl
  readable := by
    unfold Readable
    decide +kernel

/-- The hour does not agree with its minute, because the minute was written twice. -/
theorem levels_agree_iff_flushedBetween :
    ∃ (states : States (Line.cascade "calls" .count 1000).stages) (b : Backend),
      run (Line.cascade "calls" .count 1000).stages callTables (flushedBetween ++ [.flushAll]) = (⟨_, states⟩, b) ∧
      ¬ Agrees b.store "calls" .count .minute .hour ⟨"checkout", ⟨2024031514⟩⟩ := by
  obtain ⟨states, b, hrun, -, hlevels⟩ := levels_agree_iff cascadeRun_flushedBetween
  refine ⟨states, b, hrun, ?_⟩
  intro hagrees
  -- agreement would mean that the first write of the minute, a count of one, adds nothing
  have hzero := (hlevels .minute .hour rfl _).2.1.1 hagrees
  obtain rfl : (run (Line.cascade "calls" .count 1000).stages callTables (flushedBetween ++ [.flushAll])).2 = b := by
    rw [hrun]
  exact absurd (congrArg Prod.fst hzero) (by decide +kernel)

end MetricCascade
