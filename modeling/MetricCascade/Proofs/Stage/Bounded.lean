/-
Averages and shares at every level of a cascade. Whatever was flushed, refused or handed on more than once, an
entry or a row of a window adds up nothing but observations of its entity whose windows lie in that window. So an
average lies between the least and the greatest of these samples, and a share is part of a whole; and every quotient
that is computed on the way is one by a positive number.
-/
import MetricCascade.Proofs.Metric.Bounds
import MetricCascade.Proofs.Metric.Pooling
import MetricCascade.Proofs.Stage.Formed
import MetricCascade.Proofs.Stage.Refreshed

namespace MetricCascade

open Stage

/-! ## Samples -/

/-- The sample of an observation. -/
def Indicator.sample? (x : Indicator) : Option Int :=
  match x.value with
  | .average a => some a.summation
  | _ => none

/-- The samples among observations of the entity of `k` whose windows lie in the window of `k`, which is one of the
level. -/
def samples (level : Level) (k : Key) (xs : List Indicator) : List Int :=
  (xs.filter fun x => x.key.widened level = some k).filterMap Indicator.sample?

/-- The updates among some uses. -/
def Stage.Use.updates (uses : List Use) : List Indicator :=
  uses.filterMap fun
    | .submit _ x => some x
    | _ => none

theorem Stage.Use.mem_updates {uses : List Use} {x : Indicator} : x ∈ updates uses ↔ ∃ i, submit i x ∈ uses := by
  unfold updates
  rw [List.mem_filterMap]
  constructor
  · rintro ⟨u, hu, hx⟩
    cases u with
    | submit i y =>
      obtain rfl : y = x := Option.some.inj hx
      exact ⟨i, hu⟩
    | flush i => cases hx
    | flushAll => cases hx
  · rintro ⟨i, hu⟩
    exact ⟨_, hu, rfl⟩

variable {xs : List Indicator} {l m : Level} {j k : Key} {n : Int}

theorem mem_samples : n ∈ samples l k xs ↔ ∃ x ∈ xs, x.key.widened l = some k ∧ x.sample? = some n := by
  unfold samples
  simp only [List.mem_filterMap, List.mem_filter, decide_eq_true_eq, and_assoc]

/-- A window at its own level is the window that holds it. -/
theorem Key.widened_self (h : k.bucket.level = .ok l) : k.widened l = some k := by
  refine Key.widened_eq_some_iff.2 ⟨Bucket.widen_eq_ok_iff.2 ⟨l, Bucket.level_eq_ok_iff.1 h, Nat.le_refl _, ?_⟩, rfl⟩
  rw [Nat.sub_self]
  rfl

/-- Windows that lie in a window lie in the coarser one that holds it. -/
theorem Key.widened_trans {i : Key} (hij : i.widened l = some j) (hjk : j.widened m = some k) : i.widened m = some k := by
  obtain ⟨hbucket, -⟩ := Key.widened_eq_some_iff.1 hij
  obtain ⟨l₀, hl₀, hle₀, hj⟩ := Bucket.widen_eq_ok_iff.1 hbucket
  have hlevel : j.bucket.hasLevel l = true := hj ▸ Bucket.hasLevel_dropPairs hl₀ hle₀
  obtain ⟨l', hl', hle', -⟩ := Bucket.widen_eq_ok_iff.1 (Key.widened_eq_some_iff.1 hjk).1
  obtain rfl := Bucket.hasLevel_unique hlevel hl'
  rw [← Key.widened_widened hij hle', hjk]

/-- The samples of a window are among those of the coarser one that holds it. -/
theorem samples_widened (h : j.widened m = some k) : ∀ n ∈ samples l j xs, n ∈ samples m k xs := by
  intro n hn
  obtain ⟨x, hx, hwindow, hsample⟩ := mem_samples.1 hn
  exact mem_samples.2 ⟨x, hx, Key.widened_trans hwindow h, hsample⟩

/-! ## What lasts -/

variable {kind : String} {measure fed : Measure} {layout : Layout} {x : Indicator}

/-- An update that adds up observations of one measure, each of its entity and in its window. -/
structure Traced (fed : Measure) (xs : List Indicator) (layout : Layout) (x : Indicator) : Prop where
  measure : x.measure = fed
  drawn : x.value.Drawn (samples layout.level x.key xs)

/-- Such an update when its figure is up to date. -/
structure TracedEntry (fed : Measure) (xs : List Indicator) (layout : Layout) (x : Indicator) : Prop
    extends Traced fed xs layout x where
  fresh : x.value.refresh = .ok x.value

/-- The row of such an entry, under the text of its key. -/
def TracedRow (fed : Measure) (xs : List Indicator) (layout : Layout) (id : String) (row : Row) : Prop :=
  ∃ x, row = Row.ofIndicator x ∧ x.key.text = id ∧ x.measure = layout.measure ∧ TracedEntry fed xs layout x

/-- An observation of a minute adds up itself. -/
theorem Indicator.Observed.traced (h : x.Observed) (hfed : fed = .average ∨ fed = .share) (hmeasure : x.measure = fed)
    (hlevel : x.key.bucket.level = .ok .minute) (hx : x ∈ xs) : Traced fed xs ⟨kind, measure, .minute⟩ x := by
  refine ⟨hmeasure, ?_⟩
  cases h with
  | count _ _ => rcases hfed with rfl | rfl <;> cases hmeasure
  | average _ _ => exact Average.drawn_of_mem (mem_samples.2 ⟨_, hx, Key.widened_self hlevel, rfl⟩) 0
  | @share _ _ matched _ => cases matched <;> exact ⟨le_refl _, by decide, by decide⟩
  | percentile _ _ _ _ => rcases hfed with rfl | rfl <;> cases hmeasure

/-- Adding up observations lasts in a cascade: what was rolled up adds up observations of a coarser window. -/
theorem lasting_traced (kind : String) (measure fed : Measure) (xs : List Indicator) :
    Lasting (fun layout => ∃ level, layout = ⟨kind, measure, level⟩) (Traced fed xs) (TracedEntry fed xs)
      (TracedRow fed xs) where
  update hx := hx.toTraced
  refresh {_ x} hx := by
    obtain ⟨a, ha, hdrawn, -⟩ := hx.drawn.refresh
    exact ⟨a, ha, ⟨(Aggregate.refresh_measure ha).trans hx.measure, hdrawn⟩, Aggregate.refresh_refresh ha⟩
  combine hx hy hjoin := ⟨(Aggregate.combine_measure hjoin).2.trans hx.measure, hx.drawn.combine hy.drawn hjoin⟩
  stored hl hm htable hx hmeasure := by
    obtain ⟨level, rfl⟩ := hl
    obtain ⟨level', rfl⟩ := hm
    obtain rfl := Layout.table_inj htable
    exact ⟨_, rfl, rfl, hmeasure, hx⟩
  read _ hrow hread := by
    obtain ⟨y, rfl, -, -, hy⟩ := hrow
    obtain ⟨-, rfl⟩ := Row.indicator?_ofIndicator.1 (Layout.ofRow_eq_ok.1 hread).1
    exact hy
  rollup {_ _ x y} _ _ hx _ hroll := by
    obtain ⟨-, -, hvalue⟩ := Indicator.rollup_eq_ok_iff.1 hroll
    refine ⟨?_, ?_⟩
    · unfold Indicator.measure
      rw [hvalue]
      exact hx.measure
    · rw [hvalue]
      exact hx.drawn.mono (samples_widened (Indicator.rollup_key hroll))

/-! ## Cascades -/

variable {capacity : Nat} {st : Store} {faults : Faults} {order : Layout → Nat → DrainOrder} {uses : List Use}

/-- Every update is an observation of the measure `fed`, in a minute and for the first stage. -/
def Stage.Use.Observe (fed : Measure) (uses : List Use) : Prop :=
  ∀ i x, submit i x ∈ uses → i = 0 ∧ x.Observed ∧ x.measure = fed ∧ x.key.bucket.level = .ok .minute

theorem Stage.Use.Observe.mono {some : List Use} (h : Use.Observe fed uses) (hsome : ∀ u ∈ some, u ∈ uses) :
    Use.Observe fed some := fun i x hx => h i x (hsome _ hx)

theorem Stage.Use.Observe.suit (h : Use.Observe fed uses) (hfed : fed = .average ∨ fed = .share)
    (hxs : ∀ x ∈ Use.updates uses, x ∈ xs) :
    Use.Suit (Traced fed xs) (Line.cascade kind measure capacity).stages uses := by
  intro i x hx t ht
  obtain ⟨rfl, hobserved, hmeasure, hlevel⟩ := h i x hx
  obtain rfl := Option.some.inj (ht.symm.trans (cascade_stage kind measure capacity .minute))
  exact hobserved.traced hfed hmeasure hlevel (hxs x (Use.mem_updates.2 ⟨0, hx⟩))

theorem cascade_layouts (kind : String) (measure : Measure) (capacity : Nat) :
    ∀ t ∈ (Line.cascade kind measure capacity).stages, ∃ level, t.layout = ⟨kind, measure, level⟩ := by
  intro t ht
  obtain ⟨level, -, rfl⟩ := List.mem_map.1 ht
  exact ⟨level, rfl⟩

/-- Over empty tables, everything that a cascade holds adds up observations that it was given. -/
theorem run_traced (capacity : Nat) (faults : Faults) (order : Layout → Nat → DrainOrder)
    (hempty : ∀ level t, st.tables.get? (⟨kind, measure, level⟩ : Layout).table = some t → t.rows = ∅)
    (hfed : fed = .average ∨ fed = .share) (huses : Use.Observe fed uses) (hxs : ∀ x ∈ Use.updates uses, x ∈ xs) :
    ∃ states b, Use.run (.initial (Line.cascade kind measure capacity).stages,
        { store := st, faults := faults, order := order }) uses = .ok (states, b) ∧
      states.Each (TracedEntry fed xs) ∧
      b.store.Each (fun layout => ∃ level, layout = ⟨kind, measure, level⟩) (TracedRow fed xs) := by
  have hstore : st.Each (fun layout => ∃ level, layout = ⟨kind, measure, level⟩) (TracedRow fed xs) := by
    apply Store.each_empty
    rintro _ ⟨level, rfl⟩
    exact hempty level
  exact Use.run_lasting (lasting_traced kind measure fed xs) (cascade_layouts kind measure capacity)
    (States.each_initial _) hstore (huses.suit hfed hxs)

/-- **Averages and shares stay within their bounds.** A cascade over empty tables is used for observations of one
measure, averages or shares, and for flushes; its own measure may be another one. Whatever the gateway refuses, and
in whatever order windows are drained, no fault aborts it. Every row and every entry, at every level, is of that
measure: an average of at least one sample, between the least and the greatest one of its entity in its window, or a
share of at least one observation that is part of the whole. And whenever, in any visit that a use leads to, a figure
is computed, it is a quotient by a positive number, meets no fault, and is within these bounds. -/
theorem cascade_bounded
    (hempty : ∀ level t, st.tables.get? (⟨kind, measure, level⟩ : Layout).table = some t → t.rows = ∅)
    (hfed : fed = .average ∨ fed = .share) (huses : Use.Observe fed uses) :
    (∃ states b, Use.run (.initial (Line.cascade kind measure capacity).stages,
        { store := st, faults := faults, order := order }) uses = .ok (states, b) ∧
      ∀ level : Level, ∃ own, states.toList[level.rank]? = some own ∧
        (∀ id row, b.store.row? (⟨kind, measure, level⟩ : Layout).table id = some row →
          ∃ x, row = Row.ofIndicator x ∧ x.key.text = id ∧ x.measure = fed ∧
            x.value.Bounded (samples level x.key (Use.updates uses))) ∧
        ∀ w, w = own.windows.active ∨ w = own.windows.retired → ∀ k x, w.get? k = some x →
          x.key = k ∧ x.measure = fed ∧ x.value.Bounded (samples level k (Use.updates uses))) ∧
    ∀ before u after, uses = before ++ u :: after →
      ∃ states b, Use.run (.initial (Line.cascade kind measure capacity).stages,
          { store := st, faults := faults, order := order }) before = .ok (states, b) ∧
        ∀ v y, u.Visits states b v → v.Refreshes y →
          (∃ n, y.value.divisor? = some n ∧ 1 ≤ n) ∧
          ∃ a, y.value.refresh = .ok a ∧
            a.Bounded (samples v.stage.layout.level y.key (Use.updates (before ++ [u]))) := by
  constructor
  · obtain ⟨states, b, hrun, hs, hb⟩ := run_traced capacity faults order hempty hfed huses fun _ h => h
    refine ⟨states, b, hrun, fun level => ?_⟩
    obtain ⟨own, hown, heach⟩ := hs.at (cascade_stage kind measure capacity level)
    refine ⟨own, hown, fun id row hrow => ?_, ?_⟩
    · obtain ⟨x, rfl, hid, -, hx⟩ := hb ⟨kind, measure, level⟩ ⟨level, rfl⟩ id row hrow
      exact ⟨x, rfl, hid, hx.measure, hx.drawn.bounded hx.fresh⟩
    · rintro w hw k x hx
      unfold Window.get? at hx
      obtain ⟨a, ha, rfl⟩ := Option.map_eq_some_iff.1 hx
      have hentry : TracedEntry fed (Use.updates uses) ⟨kind, measure, level⟩ ⟨k, a⟩ := by
        rcases hw with rfl | rfl
        · exact heach.active k a ha
        · exact heach.retired k a ha
      exact ⟨rfl, hentry.measure, hentry.drawn.bounded hentry.fresh⟩
  · rintro before u after rfl
    have hbefore : Use.Observe fed before := huses.mono fun _ h => List.mem_append_left _ h
    have hu : Use.Observe fed [u] := huses.mono fun u' h => by
      rw [List.mem_singleton.1 h]
      exact List.mem_append_right _ (List.mem_cons_self ..)
    -- what may be traced are the updates before the use and its own
    have hupdates : Use.updates (before ++ [u]) = Use.updates before ++ Use.updates [u] := List.filterMap_append ..
    have hearlier : ∀ x ∈ Use.updates before, x ∈ Use.updates (before ++ [u]) :=
      fun x hx => hupdates ▸ List.mem_append_left _ hx
    have hown : ∀ x ∈ Use.updates [u], x ∈ Use.updates (before ++ [u]) :=
      fun x hx => hupdates ▸ List.mem_append_right _ hx
    have hlasting := lasting_traced kind measure fed (Use.updates (before ++ [u]))
    obtain ⟨states, b, hrun, hs, hb⟩ := run_traced capacity faults order hempty hfed hbefore hearlier
    refine ⟨states, b, hrun, fun v y hv hy => ?_⟩
    have hlasts := hv.lasts hlasting (cascade_layouts kind measure capacity) hs hb (hu.suit hfed hown)
    have htraced := hlasts.refreshes hlasting hy
    obtain ⟨a, ha, -, hbounded⟩ := htraced.drawn.refresh
    exact ⟨htraced.drawn.divisor, a, ha, hbounded⟩

/-- A latency of one minute is stored, and one of another minute, which is negative, comes after it. -/
def twoLatencies : List Use :=
  [.submit 0 (.average "checkout" ⟨202403151427⟩ 10), .flushAll, .submit 0 (.average "checkout" ⟨202403151428⟩ (-7)),
    .flushAll]

/-- Tables for latencies at every level. -/
def latencyTables : Store := (Level.all.map fun level => (⟨"latency", .average, level⟩ : Layout)).foldl Store.createTable {}

/-- Both latencies meet in the hour, where their average is one, and the batches of days are refused. -/
theorem cascade_bounded_twoLatencies :
    ∃ states b, Use.run (.initial (Line.cascade "latency" .average 1).stages,
        { store := latencyTables, faults := .refusing "down" [] [] ["latency_day"] }) twoLatencies = .ok (states, b) ∧
      b.store.get ⟨"latency", .average, .hour⟩ ⟨"checkout", ⟨2024031514⟩⟩ =
        .ok (some ⟨⟨"checkout", ⟨2024031514⟩⟩, .average ⟨3, 2, 1⟩⟩) ∧
      ∀ id row, b.store.row? "latency_hour" id = some row → ∃ x, row = Row.ofIndicator x ∧
        x.value.Bounded (samples .hour x.key (Use.updates twoLatencies)) := by
  have hempty (level : Level) (t : Table)
      (ht : latencyTables.tables.get? (⟨"latency", .average, level⟩ : Layout).table = some t) : t.rows = ∅ := by
    obtain ⟨t', ht', hrows⟩ :=
      Store.createTables_empty (List.mem_map.2 ⟨level, by cases level <;> simp [Level.all], rfl⟩ :
        (⟨"latency", .average, level⟩ : Layout) ∈
          Level.all.map fun level => (⟨"latency", .average, level⟩ : Layout)) {}
    exact Option.some.inj (ht.symm.trans ht') ▸ hrows
  have huses : Use.Observe .average twoLatencies := by
    intro i x hx
    simp only [twoLatencies, List.mem_cons, Use.submit.injEq, reduceCtorEq, List.not_mem_nil, or_false, false_or] at hx
    rcases hx with ⟨rfl, rfl⟩ | ⟨rfl, rfl⟩
    · exact ⟨rfl, .average (by decide) (by decide), rfl, by decide⟩
    · exact ⟨rfl, .average (by decide) (by decide), rfl, by decide⟩
  obtain ⟨⟨states, b, hrun, h⟩, -⟩ := @cascade_bounded "latency" .average .average 1 latencyTables
    (.refusing "down" [] [] ["latency_day"]) (fun _ _ => .insertion) twoLatencies hempty (.inl rfl) huses
  refine ⟨states, b, hrun, ?_, fun id row hrow => ?_⟩
  · have hget : (Use.run (.initial (Line.cascade "latency" .average 1).stages,
        { store := latencyTables, faults := .refusing "down" [] [] ["latency_day"] }) twoLatencies).toOption.all
        (fun c => c.2.store.get ⟨"latency", .average, .hour⟩ ⟨"checkout", ⟨2024031514⟩⟩ =
          .ok (some ⟨⟨"checkout", ⟨2024031514⟩⟩, .average ⟨3, 2, 1⟩⟩)) = true := by decide +kernel
    rw [hrun] at hget
    exact of_decide_eq_true hget
  · obtain ⟨own, -, hrows, -⟩ := h .hour
    obtain ⟨x, rfl, -, -, hx⟩ := hrows id row hrow
    exact ⟨x, rfl, hx⟩

end MetricCascade
