/-
What a table shows: an aggregate for some keys, each in the row that is written from it. Looking up
a key reads the view, and writing an operation changes it at one key; other tables stay.
-/
import MetricCascade.Proofs.Table.Codec
import MetricCascade.Proofs.Table.KeyText
import MetricCascade.Table.Store

namespace MetricCascade

/-- An aggregate for some keys. -/
abbrev View := Key → Option Aggregate

namespace Operation

/-- The operation that stores an indicator in the table of a layout. -/
def storing (kind : WriteKind) (l : Layout) (x : Indicator) : Operation :=
  ⟨kind, l.table, x.key.text, Row.ofIndicator x⟩

theorem prepare_eq_ok {kind : WriteKind} {l : Layout} {x : Indicator} {op : Operation} :
    prepare kind l x = .ok op ↔ x.measure = l.measure ∧ op = storing kind l x := by
  unfold prepare Layout.toRow Layout.check
  by_cases h : x.measure = l.measure
  · simp only [h, if_true, Except.ok.injEq, true_and, storing, eq_comm]
  · simp only [h, if_false, reduceCtorEq, false_and]

end Operation

namespace Layout

/-- A layout reads the rows that read as indicators of its measure. -/
theorem ofRow_eq_ok {l : Layout} {r : Row} {x : Indicator} :
    l.ofRow r = .ok x ↔ r.indicator? = some x ∧ x.measure = l.measure := by
  unfold ofRow check
  cases hread : r.indicator? with
  | none => simp
  | some y =>
    by_cases hm : y.measure = l.measure
    · simp only [hm, if_true, Except.ok.injEq, Option.some.injEq]
      constructor
      · rintro rfl
        exact ⟨rfl, hm⟩
      · rintro ⟨rfl, -⟩
        rfl
    · simp only [hm, if_false, reduceCtorEq, Option.some.injEq, false_iff, not_and]
      rintro rfl
      exact hm

end Layout

namespace Store

/-! ## Writing -/

theorem tables_write (s : Store) (op : Operation) (name : String) :
    (s.write op).tables.get? name =
      if op.table = name then
        (s.tables.get? name).map fun t => { t with rows := t.rows.insert op.id op.row }
      else s.tables.get? name := by
  unfold write
  cases h : s.tables.get? op.table with
  | none =>
    by_cases hn : op.table = name
    · subst hn; simp [h]
    · simp [hn]
  | some t =>
    rw [Dict.get?_insert]
    by_cases hn : op.table = name
    · subst hn; simp [h]
    · simp [hn, Ne.symm hn]

theorem contains_write (s : Store) (op : Operation) (name : String) :
    (s.write op).tables.contains name = s.tables.contains name := by
  unfold Dict.contains
  rw [tables_write]
  split <;> simp

/-- A write to one table leaves the others alone. -/
theorem tables_write_of_ne {s : Store} {op : Operation} {name : String} (h : op.table ≠ name) :
    (s.write op).tables.get? name = s.tables.get? name := by
  rw [tables_write, if_neg h]

theorem row?_write {s : Store} {op : Operation} (h : s.tables.contains op.table = true) (id : String) :
    (s.write op).row? op.table id = if id = op.id then some op.row else s.row? op.table id := by
  obtain ⟨t, ht⟩ := Option.isSome_iff_exists.1 h
  unfold row?
  rw [tables_write, if_pos rfl, ht]
  simp only [Option.map_some, Option.bind_some, Dict.get?_insert]

theorem row?_write_storing {s : Store} {l : Layout} (h : s.hasTable l = true) (kind : WriteKind) (x : Indicator)
    (id : String) : (s.write (.storing kind l x)).row? l.table id =
      if id = x.key.text then some (Row.ofIndicator x) else s.row? l.table id :=
  by
  have hop : s.tables.contains (Operation.storing kind l x).table = true := h
  exact row?_write hop id

/-- A write leaves the other rows alone, and those of other tables. -/
theorem row?_write_of_ne {s : Store} {op : Operation} {name id : String} (h : op.table = name → op.id ≠ id) :
    (s.write op).row? name id = s.row? name id := by
  unfold row?
  rw [tables_write]
  split
  · rename_i hname
    cases s.tables.get? name with
    | none => rfl
    | some t => exact (Dict.get?_insert ..).trans (if_neg (h hname).symm)
  · rfl

theorem contains_foldl_write (batch : List Operation) (s : Store) (name : String) :
    (batch.foldl write s).tables.contains name = s.tables.contains name := by
  induction batch generalizing s with
  | nil => rfl
  | cons op batch ih => rw [List.foldl_cons, ih, contains_write]

theorem row?_foldl_write_of_ne {batch : List Operation} {s : Store} {name id : String}
    (h : ∀ op ∈ batch, op.table = name → op.id ≠ id) : (batch.foldl write s).row? name id = s.row? name id := by
  induction batch generalizing s with
  | nil => rfl
  | cons op batch ih =>
    rw [List.foldl_cons, ih fun o ho => h o (List.mem_cons_of_mem _ ho), row?_write_of_ne (h op (List.mem_cons_self ..))]

/-- Of distinct rows, each is there after the batch. -/
theorem row?_foldl_write_of_mem {batch : List Operation} {s : Store} {name : String}
    (hname : s.tables.contains name = true) (htable : ∀ op ∈ batch, op.table = name) (hnodup : (batch.map (·.id)).Nodup)
    {op : Operation} (hop : op ∈ batch) : (batch.foldl write s).row? name op.id = some op.row := by
  induction batch generalizing s with
  | nil => cases hop
  | cons o batch ih =>
    rw [List.map_cons, List.nodup_cons] at hnodup
    obtain rfl := htable o (List.mem_cons_self ..)
    rw [List.foldl_cons]
    rcases List.mem_cons.1 hop with rfl | hop
    · have hrest : ∀ o ∈ batch, o.table = op.table → o.id ≠ op.id := fun o ho _ heq =>
        hnodup.1 (heq ▸ List.mem_map_of_mem ho)
      rw [row?_foldl_write_of_ne hrest, row?_write hname, if_pos rfl]
    · exact ih ((contains_write s o o.table).trans hname) (fun p hp => htable p (List.mem_cons_of_mem _ hp)) hnodup.2 hop

theorem tables_foldl_write_of_ne {batch : List Operation} {s : Store} {name : String}
    (h : ∀ op ∈ batch, op.table ≠ name) :
    (batch.foldl write s).tables.get? name = s.tables.get? name := by
  induction batch generalizing s with
  | nil => rfl
  | cons op batch ih =>
    rw [List.foldl_cons, ih fun o ho => h o (List.mem_cons_of_mem _ ho),
      tables_write_of_ne (h op (List.mem_cons_self ..))]

/-- What a table becomes depends on what it was, not on other tables. -/
theorem tables_foldl_write_congr {s t : Store} {name : String} (h : s.tables.get? name = t.tables.get? name)
    (batch : List Operation) :
    (batch.foldl write s).tables.get? name = (batch.foldl write t).tables.get? name := by
  induction batch generalizing s t with
  | nil => exact h
  | cons op batch ih => exact ih (by rw [tables_write, tables_write, h])

/-- A batch is accepted if every table it writes to is there. -/
theorem persist_eq_ok {s : Store} {batch : List Operation}
    (h : ∀ op ∈ batch, s.tables.contains op.table = true) :
    s.persist batch = .ok { batch.foldl write s with batches := (batch.foldl write s).batches + 1 } := by
  have hnone : batch.find? (fun op => !s.tables.contains op.table) = none := by
    rw [List.find?_eq_none]
    intro op hop
    simp [h op hop]
  unfold persist
  rw [hnone]

/-- A batch that was accepted is written row by row. -/
theorem persist_ok {s t : Store} {batch : List Operation} (h : s.persist batch = .ok t) :
    t = { batch.foldl write s with batches := (batch.foldl write s).batches + 1 } := by
  unfold persist at h
  split at h
  · cases h
  · exact (Except.ok.inj h).symm

/-- Every table that an accepted batch writes to is there. -/
theorem contains_of_persist {s t : Store} {batch : List Operation} (h : s.persist batch = .ok t) {op : Operation}
    (hop : op ∈ batch) : s.tables.contains op.table = true := by
  unfold persist at h
  split at h
  · cases h
  · rename_i hnone
    simpa using List.find?_eq_none.1 hnone op hop

/-! ## Looking up -/

theorem get_eq_some {s : Store} {l : Layout} {k : Key} {x : Indicator} (h : s.get l k = .ok (some x)) :
    ∃ row, s.row? l.table k.text = some row ∧ l.ofRow row = .ok x := by
  unfold get at h
  unfold row?
  cases ht : s.tables.get? l.table with
  | none => rw [ht] at h; cases h
  | some t =>
    rw [ht] at h
    dsimp only at h
    cases hrow : t.rows.get? k.text with
    | none => rw [hrow] at h; cases h
    | some row =>
      rw [hrow] at h
      dsimp only at h
      cases hread : l.ofRow row with
      | error e => rw [hread] at h; cases h
      | ok y =>
        rw [hread] at h
        cases h
        exact ⟨row, hrow, hread⟩

theorem get_eq_none {s : Store} {l : Layout} {k : Key} (h : s.get l k = .ok none) : s.row? l.table k.text = none := by
  unfold get at h
  unfold row?
  cases ht : s.tables.get? l.table with
  | none => rfl
  | some t =>
    rw [ht] at h
    dsimp only at h
    cases hrow : t.rows.get? k.text with
    | none => exact hrow
    | some row =>
      rw [hrow] at h
      dsimp only at h
      cases hread : l.ofRow row <;> rw [hread] at h <;> cases h

/-- Tables that were just made are empty. -/
theorem createTables_empty {ls : List Layout} {l : Layout} (hl : l ∈ ls) (s : Store) :
    ∃ t, (ls.foldl createTable s).tables.get? l.table = some t ∧ t.rows = ∅ := by
  induction ls using List.reverseRecOn with
  | nil => cases hl
  | append_singleton ls m ih =>
    rw [List.foldl_append]
    show ∃ t, ((ls.foldl createTable s).tables.insert m.table _).get? l.table = some t ∧ t.rows = ∅
    by_cases hname : l.table = m.table
    · rw [hname, Dict.get?_insert_self]
      exact ⟨_, rfl, rfl⟩
    · rw [Dict.get?_insert_of_ne _ _ hname]
      rcases List.mem_append.1 hl with hl | hl
      · exact ih hl
      · exact absurd (congrArg Layout.table (List.mem_singleton.1 hl)) hname

/-! ## Views -/

/-- The table of `l` is there, and its rows are those of `v`. -/
structure Shows (s : Store) (l : Layout) (v : View) : Prop where
  present : s.hasTable l = true
  rows : ∀ id row, s.row? l.table id = some row ↔
    ∃ x : Indicator, v x.key = some x.value ∧ x.key.text = id ∧ Row.ofIndicator x = row

/-- A view depends on its own table alone. -/
theorem Shows.congr {s t : Store} {l : Layout} {v : View} (h : s.Shows l v)
    (htable : t.tables.get? l.table = s.tables.get? l.table) : t.Shows l v where
  present := by
    have := h.present
    unfold hasTable Dict.contains at *
    rwa [htable]
  rows id row := by
    unfold row?
    rw [htable]
    exact h.rows id row

/-- A table without rows shows nothing. -/
theorem shows_empty {s : Store} {l : Layout} {t : Table} (h : s.tables.get? l.table = some t)
    (ht : t.rows = ∅) : s.Shows l fun _ => none where
  present := by
    unfold hasTable Dict.contains
    rw [h]
    rfl
  rows id row := by
    unfold row?
    rw [h, Option.bind_some, ht]
    constructor
    · rintro ⟨⟩
    · rintro ⟨_, ⟨⟩, _⟩

theorem Shows.row_none {s : Store} {l : Layout} {v : View} (h : s.Shows l v) {k : Key} (hk : v k = none) :
    s.row? l.table k.text = none := by
  cases hrow : s.row? l.table k.text with
  | none => rfl
  | some row =>
    obtain ⟨x, hx, htext, -⟩ := (h.rows _ _).1 hrow
    rw [Key.text_injective htext, hk] at hx
    cases hx

theorem Shows.row_some {s : Store} {l : Layout} {v : View} (h : s.Shows l v) {k : Key} {a : Aggregate}
    (hk : v k = some a) : s.row? l.table k.text = some (Row.ofIndicator ⟨k, a⟩) :=
  (h.rows _ _).2 ⟨⟨k, a⟩, hk, rfl, rfl⟩

theorem Shows.get {s : Store} {l : Layout} {v : View} (h : s.Shows l v) (k : Key) :
    s.get l k = match v k with
      | none => .ok none
      | some a => (l.ofRow (Row.ofIndicator ⟨k, a⟩)).map some := by
  obtain ⟨t, ht⟩ := Option.isSome_iff_exists.1 h.present
  have hrow : t.rows.get? k.text = s.row? l.table k.text := by unfold row?; rw [ht, Option.bind_some]
  unfold Store.get
  rw [ht]
  cases hk : v k with
  | none => simp only [hrow, h.row_none hk]
  | some a => simp only [hrow, h.row_some hk]

/-- A row that was written from an indicator of the layout's measure reads as that indicator. -/
theorem ofRow_ofIndicator {l : Layout} {x : Indicator} (hx : x.Fits) (hm : x.measure = l.measure) :
    l.ofRow (Row.ofIndicator x) = .ok x :=
  Layout.ofRow_eq_ok.2 ⟨Row.indicator?_ofIndicator.2 ⟨hx, rfl⟩, hm⟩

/-- What is shown can be looked up if its numbers have their widths. -/
theorem Shows.get_readable {s : Store} {l : Layout} {v : View} (h : s.Shows l v) {k : Key}
    (hv : ∀ a, v k = some a → Indicator.Fits ⟨k, a⟩ ∧ a.measure = l.measure) :
    s.get l k = .ok ((v k).map (Indicator.mk k)) := by
  rw [h.get k]
  cases hk : v k with
  | none => rfl
  | some a =>
    obtain ⟨hfits, hm⟩ := hv a hk
    simp only [ofRow_ofIndicator hfits hm]
    rfl

/-- Stores that show the same have the same rows. -/
theorem Shows.row_congr {s t : Store} {l : Layout} {v : View} (hs : s.Shows l v) (ht : t.Shows l v)
    (id : String) : s.row? l.table id = t.row? l.table id := by
  apply Option.ext
  intro row
  rw [hs.rows, ht.rows]

/-- Rows that read as indicators of a view read as a list of them, in order. -/
theorem mapM_ofRow {l : Layout} {v : View} (hv : ∀ k a, v k = some a → Indicator.Fits ⟨k, a⟩ ∧ a.measure = l.measure) :
    ∀ {es : List (String × Row)},
      (∀ e ∈ es, ∃ x : Indicator, v x.key = some x.value ∧ x.key.text = e.1 ∧ Row.ofIndicator x = e.2) →
      ∃ xs : List Indicator, (es.map (·.2)).mapM l.ofRow = .ok xs ∧ xs.map (·.key.text) = es.map (·.1) ∧
        ∀ x ∈ xs, v x.key = some x.value
  | [], _ => ⟨[], rfl, rfl, fun _ hx => (List.not_mem_nil hx).elim⟩
  | e :: es, h => by
    obtain ⟨x, hx, htext, hrow⟩ := h e (List.mem_cons_self ..)
    obtain ⟨xs, hxs, htexts, hshown⟩ := mapM_ofRow hv fun e he => h e (List.mem_cons_of_mem _ he)
    obtain ⟨hfits, hm⟩ := hv x.key x.value hx
    have hread : l.ofRow e.2 = .ok x := hrow ▸ ofRow_ofIndicator hfits hm
    refine ⟨x :: xs, ?_, by rw [List.map_cons, List.map_cons, htext, htexts], fun y hy => ?_⟩
    · rw [List.map_cons, List.mapM_cons, hread, hxs]
      rfl
    · rcases List.mem_cons.1 hy with rfl | hy
      · exact hx
      · exact hshown y hy

/-- All that is shown can be listed if its numbers have their widths, each key once. -/
theorem Shows.indicators {s : Store} {l : Layout} {v : View} (h : s.Shows l v)
    (hv : ∀ k a, v k = some a → Indicator.Fits ⟨k, a⟩ ∧ a.measure = l.measure) :
    ∃ xs, s.indicators l = .ok xs ∧ (xs.map (·.key)).Nodup ∧ ∀ x, x ∈ xs ↔ v x.key = some x.value := by
  obtain ⟨t, ht⟩ := Option.isSome_iff_exists.1 h.present
  have hrow (id : String) : s.row? l.table id = t.rows.get? id := by
    unfold row?
    rw [ht, Option.bind_some]
  -- every stored row shows an indicator, and no two rows have one text
  have hentries : ∀ e ∈ t.rows.entries,
      ∃ x : Indicator, v x.key = some x.value ∧ x.key.text = e.1 ∧ Row.ofIndicator x = e.2 :=
    fun e he => (h.rows e.1 e.2).1 ((hrow e.1).trans (Dict.get?_eq_some_iff.2 he))
  obtain ⟨xs, hxs, htexts, hshown⟩ := mapM_ofRow hv hentries
  have hnodup : (xs.map (·.key.text)).Nodup := by
    rw [htexts]
    exact t.rows.nodup
  refine ⟨xs, ?_, ?_, fun x => ⟨hshown x, fun hx => ?_⟩⟩
  · unfold Store.indicators
    rw [ht]
    exact hxs
  · have hmap : xs.map (·.key.text) = (xs.map (·.key)).map Key.text := by
      rw [List.map_map]
      rfl
    rw [hmap] at hnodup
    exact hnodup.of_map
  · -- the row of `x` is there, and it reads as the only indicator that is shown under its key
    have hmem : x.key.text ∈ xs.map (·.key.text) := by
      rw [htexts]
      refine List.mem_map.2 ⟨(x.key.text, Row.ofIndicator x), Dict.get?_eq_some_iff.1 ?_, rfl⟩
      rw [← hrow]
      exact h.row_some hx
    obtain ⟨y, hy, htext⟩ := List.mem_map.1 hmem
    have hkey : y.key = x.key := Key.text_injective htext
    have hvalue := hshown y hy
    rw [hkey, hx, Option.some.injEq] at hvalue
    obtain ⟨key, value⟩ := y
    obtain rfl : key = x.key := hkey
    obtain rfl : x.value = value := hvalue
    exact hy

/-! ## Writing into a view -/

/-- The view in which each indicator of a list has taken the place of what was under its key. -/
def overlay (v : View) (xs : List Indicator) : View :=
  xs.foldl (fun v x => Function.update v x.key (some x.value)) v

theorem overlay_append (v : View) (xs ys : List Indicator) : overlay v (xs ++ ys) = overlay (overlay v xs) ys :=
  List.foldl_append ..

theorem overlay_of_notMem {v : View} {xs : List Indicator} {k : Key} (h : ∀ x ∈ xs, x.key ≠ k) :
    overlay v xs k = v k := by
  unfold overlay
  induction xs generalizing v with
  | nil => rfl
  | cons x xs ih =>
    rw [List.foldl_cons, ih fun y hy => h y (List.mem_cons_of_mem _ hy),
      Function.update_of_ne (h x (List.mem_cons_self ..)).symm]

theorem overlay_of_mem {v : View} {xs : List Indicator} {x : Indicator} (hnodup : (xs.map (·.key)).Nodup)
    (hx : x ∈ xs) : overlay v xs x.key = some x.value := by
  induction xs generalizing v with
  | nil => cases hx
  | cons y xs ih =>
    rw [List.map_cons, List.nodup_cons] at hnodup
    rcases List.mem_cons.1 hx with rfl | hx
    · have hrest : ∀ z ∈ xs, z.key ≠ x.key := fun z hz heq => hnodup.1 (heq ▸ List.mem_map_of_mem hz)
      exact (overlay_of_notMem hrest).trans (Function.update_self ..)
    · exact ih hnodup.2 hx

theorem Shows.write {s : Store} {l : Layout} {v : View} (h : s.Shows l v) (kind : WriteKind) (x : Indicator) :
    (s.write (.storing kind l x)).Shows l (Function.update v x.key (some x.value)) where
  present := by
    have := h.present
    unfold hasTable at *
    rwa [contains_write]
  rows id row := by
    rw [row?_write_storing h.present]
    by_cases hid : id = x.key.text
    · subst hid
      rw [if_pos rfl, Option.some.injEq]
      constructor
      · rintro rfl
        exact ⟨x, Function.update_self .., rfl, rfl⟩
      · rintro ⟨y, hy, htext, rfl⟩
        obtain ⟨k, a⟩ := y
        obtain rfl : k = x.key := Key.text_injective htext
        rw [Function.update_self] at hy
        obtain rfl : x.value = a := Option.some.inj hy
        rfl
    · rw [if_neg hid, h.rows]
      -- under any other text the view is as it was
      have hother (y : Indicator) (hy : y.key.text = id) :
          Function.update v x.key (some x.value) y.key = v y.key :=
        Function.update_of_ne (fun heq => hid (by rw [← hy, heq])) _ _
      constructor
      · rintro ⟨y, hy, htext, hrow⟩
        exact ⟨y, (hother y htext).trans hy, htext, hrow⟩
      · rintro ⟨y, hy, htext, hrow⟩
        exact ⟨y, (hother y htext).symm.trans hy, htext, hrow⟩

theorem Shows.foldl_write {s : Store} {l : Layout} {v : View} (h : s.Shows l v) {kind : Indicator → WriteKind}
    (xs : List Indicator) :
    ((xs.map fun x => Operation.storing (kind x) l x).foldl Store.write s).Shows l (overlay v xs) := by
  induction xs generalizing s v with
  | nil => exact h
  | cons x xs ih =>
    rw [List.map_cons, List.foldl_cons]
    exact ih (h.write (kind x) x)

/-- Writing a batch of a table's own operations succeeds and overlays what the table shows. -/
theorem Shows.persist {s : Store} {l : Layout} {v : View} (h : s.Shows l v) (kind : Indicator → WriteKind)
    (xs : List Indicator) :
    ∃ t, s.persist (xs.map fun x => .storing (kind x) l x) = .ok t ∧ t.Shows l (overlay v xs) ∧
      ∀ name, l.table ≠ name → t.tables.get? name = s.tables.get? name := by
  refine ⟨_, persist_eq_ok fun op hop => ?_, (h.foldl_write xs).congr rfl, fun name hname => ?_⟩
  · obtain ⟨x, -, rfl⟩ := List.mem_map.1 hop
    exact h.present
  · apply tables_foldl_write_of_ne
    intro op hop
    obtain ⟨x, -, rfl⟩ := List.mem_map.1 hop
    exact hname

end Store

end MetricCascade
