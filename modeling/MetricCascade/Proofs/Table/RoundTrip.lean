/-
Rows there and back. What a layout reads of a row depends on its columns alone, so whatever else has been
added, the row of an indicator reads as that indicator. A row from elsewhere is what would be written for
the indicator that it reads as if it spells measure and bins the way they are written.
-/
import MetricCascade.Proofs.Table.View

namespace MetricCascade

namespace Dict

variable {κ α : Type} [DecidableEq κ]

theorem entries_foldl_insert {l : List (κ × α)} {d : Dict κ α} (hl : (l.map (·.1)).Nodup)
    (hnew : ∀ e ∈ l, d.get? e.1 = none) : (l.foldl (fun d e => d.insert e.1 e.2) d).entries = d.entries ++ l := by
  induction l generalizing d with
  | nil => simp
  | cons e l ih =>
    simp only [List.map_cons, List.nodup_cons] at hl
    have hput : (d.insert e.1 e.2).entries = d.entries ++ [e] := putIn_of_new (hnew e (List.mem_cons_self ..))
    have hrest : ∀ f ∈ l, (d.insert e.1 e.2).get? f.1 = none := by
      intro f hf
      have hne : f.1 ≠ e.1 := fun h => hl.1 (h ▸ List.mem_map_of_mem hf)
      rw [get?_insert_of_ne d e.2 hne]
      exact hnew f (List.mem_cons_of_mem _ hf)
    rw [List.foldl_cons, ih hl.2 hrest, hput, List.append_assoc]
    rfl

/-- The map of a list without repeated keys has its keys, in order. -/
theorem keys_ofList {l : List (κ × α)} (h : (l.map (·.1)).Nodup) : (ofList l).keys = l.map (·.1) := by
  have hentries : (ofList l).entries = [] ++ l := entries_foldl_insert h fun e _ => get?_empty e.1
  unfold keys
  rw [hentries, List.nil_append]

/-- Adding entries under other keys leaves what is found under a key. -/
theorem get?_foldl_insert_of_notMem {k : κ} {l : List (κ × α)} {d : Dict κ α} (h : ∀ e ∈ l, e.1 ≠ k) :
    (l.foldl (fun d e => d.insert e.1 e.2) d).get? k = d.get? k := by
  induction l generalizing d with
  | nil => rfl
  | cons e l ih =>
    rw [List.foldl_cons, ih fun f hf => h f (List.mem_cons_of_mem _ hf)]
    exact get?_insert_of_ne d e.2 (h e (List.mem_cons_self ..)).symm

end Dict

namespace Row

/-! ## Columns -/

/-- Two rows hold the same in every column of a layout. Besides they may hold anything. -/
def AgreeOn (l : Layout) (r s : Row) : Prop := ∀ c ∈ l.columns, r.get? c.name = s.get? c.name

/-- The row with more fields; a field that is there already is replaced. -/
def adding (r : Row) (extra : List (String × Json)) : Row := extra.foldl (fun r e => r.insert e.1 e.2) r

variable {l : Layout} {r s : Row} {x y : Indicator}

/-- Fields that are no columns may be added. -/
theorem agreeOn_adding (r : Row) {extra : List (String × Json)} (h : ∀ e ∈ extra, e.1 ∉ l.columns.map (·.name)) :
    AgreeOn l (r.adding extra) r := by
  intro c hc
  apply Dict.get?_foldl_insert_of_notMem
  intro e he heq
  exact h e he (heq ▸ List.mem_map_of_mem hc)

/-- An indicator is written to the columns of its measure. -/
theorem keys_ofIndicator (hm : x.measure = l.measure) : (ofIndicator x).keys = l.columns.map (·.name) := by
  have hkeys : (ofIndicator x).keys = (fields x).map (·.1) := Dict.keys_ofList (nodup_fields x)
  rw [hkeys, Layout.columns, ← hm]
  unfold fields Indicator.measure
  cases x.value <;> rfl

/-- The figures are read from the columns of the measure. -/
theorem aggregate?_congr (m : Measure) (h : ∀ c ∈ m.columns, r.get? c.name = s.get? c.name) :
    r.aggregate? m = s.aggregate? m := by
  cases m <;> simp only [Measure.columns, List.forall_mem_cons, List.not_mem_nil, false_implies, implies_true,
    and_true] at h <;> simp only [aggregate?, long?, integer?, h]

/-- What a row reads as is told by the columns of its measure. -/
theorem AgreeOn.indicator?_eq (h : AgreeOn l r s) (hs : (s.get? "function").bind measure? = some l.measure) :
    r.indicator? = s.indicator? := by
  unfold AgreeOn Layout.columns at h
  simp only [List.cons_append, List.nil_append, List.forall_mem_cons] at h
  obtain ⟨hentity, hcode, hmeasure, hfigures⟩ := h
  have haggregate := aggregate?_congr l.measure hfigures
  unfold indicator? long?
  rw [hentity, hcode, hmeasure, hs]
  simp only [Option.bind_eq_bind, Option.bind_some, haggregate]

theorem measure?_ofIndicator (x : Indicator) : ((ofIndicator x).get? "function").bind measure? = some x.measure := by
  rw [get?_ofIndicator]
  exact measure?_name x.measure

/-- Whatever has been added to the row of an indicator, it reads as that indicator. -/
theorem AgreeOn.reads (h : AgreeOn l r (ofIndicator x)) (hx : x.Fits) (hm : x.measure = l.measure) :
    r.indicator? = some x := by
  rw [h.indicator?_eq (hm ▸ measure?_ofIndicator x)]
  exact indicator?_ofIndicator.2 ⟨hx, rfl⟩

/-- The row of an indicator is what such a row holds in the columns. -/
theorem AgreeOn.get?_ofIndicator (h : AgreeOn l r (ofIndicator x)) (hm : x.measure = l.measure) (name : String) :
    (ofIndicator x).get? name = if name ∈ l.columns.map (·.name) then r.get? name else none := by
  split
  · rename_i hcolumn
    obtain ⟨c, hc, rfl⟩ := List.mem_map.1 hcolumn
    exact (h c hc).symm
  · rename_i hno
    rw [← keys_ofIndicator hm] at hno
    exact Dict.findIn_eq_none_iff.2 hno

/-! ## Rows from elsewhere -/

/-- The row spells its measure by name, and its bins as objects of their two numbers. -/
structure Plain (l : Layout) (r : Row) : Prop where
  measure : ∃ name, r.get? "function" = some (.text name)
  bins : l.measure = .percentile → ∀ items, r.get? "detail" = some (.list items) →
    ∀ v ∈ items, ∃ bucket count, v = .object [("bucket", bucket), ("count", count)]

theorem eq_of_intWithin? {least greatest n : Int} {v : Json} (h : v.intWithin? least greatest = some n) : v = .int n := by
  cases v <;> simp only [Json.intWithin?, reduceCtorEq, Option.ite_none_right_eq_some, Option.some.injEq] at h
  rw [h.2]

/-- A number that is read stands in its field, whatever width it is read with. -/
theorem get?_of_within? {least greatest : Int} {name : String} {n : Int}
    (h : (r.get? name).bind (·.intWithin? least greatest) = some n) : r.get? name = some (.int n) := by
  obtain ⟨v, hv, hn⟩ := Option.bind_eq_some_iff.1 h
  rw [hv, eq_of_intWithin? hn]

/-- Bins that are spelled as objects of their numbers are spelled as they are written. -/
theorem eq_of_bins? {items : List Json} {bins : List Bin} (h : bins? items = some bins)
    (hplain : ∀ v ∈ items, ∃ bucket count, v = .object [("bucket", bucket), ("count", count)]) :
    items = bins.map ofBin := by
  induction items generalizing bins with
  | nil => cases h; rfl
  | cons v items ih =>
    obtain ⟨hv, hitems⟩ := List.forall_mem_cons.1 hplain
    obtain ⟨bucket, count, rfl⟩ := hv
    simp only [bins?, Option.bind_eq_bind, Option.bind_eq_some_iff, Option.some.injEq] at h
    obtain ⟨b, hb, rest, hrest, rfl⟩ := h
    have hbucket : Json.field? "bucket" [("bucket", bucket), ("count", count)] = some bucket := by
      simp [Json.field?, Json.valuesOf]
    have hcount : Json.field? "count" [("bucket", bucket), ("count", count)] = some count := by
      simp [Json.field?, Json.valuesOf]
    simp only [bin?, hbucket, hcount, Option.bind_some, Option.bind_eq_bind, Option.bind_eq_some_iff,
      Option.some.injEq] at hb
    obtain ⟨i, hi, n, hn, rfl⟩ := hb
    rw [List.map_cons, ← ih hrest hitems, eq_of_intWithin? hi, eq_of_intWithin? hn]
    rfl

/-- The figures that a row reads as stand in its fields. -/
theorem get?_of_aggregate? {a : Aggregate} {m : Measure} (h : r.aggregate? m = some a)
    (hbins : a.measure = .percentile → ∀ items, r.get? "detail" = some (.list items) →
      ∀ v ∈ items, ∃ bucket count, v = .object [("bucket", bucket), ("count", count)]) :
    a.measure = m ∧ ∀ f ∈ fieldsOf a, r.get? f.1 = some f.2 := by
  cases m with
  | count =>
    simp only [aggregate?, Option.bind_eq_bind, Option.bind_eq_some_iff, Option.some.injEq] at h
    obtain ⟨n, hn, rfl⟩ := h
    simp [Aggregate.measure, fieldsOf, get?_of_within? hn]
  | average =>
    simp only [aggregate?, Option.bind_eq_bind, Option.bind_eq_some_iff, Option.some.injEq] at h
    obtain ⟨n, hn, c, hc, v, hv, rfl⟩ := h
    simp [Aggregate.measure, fieldsOf, get?_of_within? hn, get?_of_within? hc, get?_of_within? hv]
  | share =>
    simp only [aggregate?, Option.bind_eq_bind, Option.bind_eq_some_iff, Option.some.injEq] at h
    obtain ⟨n, hn, c, hc, v, hv, rfl⟩ := h
    simp [Aggregate.measure, fieldsOf, get?_of_within? hn, get?_of_within? hc, get?_of_within? hv]
  | percentile =>
    simp only [aggregate?, Option.bind_eq_bind, Option.bind_eq_some_iff, Option.some.injEq] at h
    obtain ⟨p, hp, rank, ⟨w, hw, hrank⟩, bins, ⟨items, ⟨u, hu, hitems⟩, hread⟩, v, hv, rfl⟩ := h
    obtain rfl := eq_of_intWithin? hrank
    have hnonneg : 0 ≤ rank := by
      simp only [Json.intWithin?, Option.ite_none_right_eq_some] at hrank
      exact hrank.1.1
    have hlist : u = .list items := by
      cases u <;> simp only [Json.items?, reduceCtorEq, Option.some.injEq] at hitems
      rw [hitems]
    have hwritten := eq_of_bins? hread (hbins rfl items (hlist ▸ hu))
    simp [Aggregate.measure, fieldsOf, get?_of_within? hp, get?_of_within? hv, hw, hu, hlist, hwritten,
      Int.toNat_of_nonneg hnonneg]

/-- A row that reads as an indicator and spells measure and bins as they are written holds in its columns what
is written for that indicator. -/
theorem Plain.agreeOn (hr : Plain l r) (h : r.indicator? = some x) (hm : x.measure = l.measure) :
    AgreeOn l r (ofIndicator x) := by
  obtain ⟨name, hname⟩ := hr.measure
  simp only [indicator?, Option.bind_eq_bind, Option.bind_eq_some_iff, Option.some.injEq, hname, measure?] at h
  obtain ⟨entity, ⟨v, hentity, htext⟩, code, hcode, m, ⟨_, rfl, htag⟩, a, ha, rfl⟩ := h
  obtain ⟨rfl, hfigures⟩ := get?_of_aggregate? ha fun hpercentile => hr.bins (hm ▸ hpercentile)
  have hv : v = .text entity := by
    cases v <;> simp only [Json.text?, reduceCtorEq, Option.some.injEq] at htext
    rw [htext]
  have htag' : a.measure.name = name := by simpa using List.find?_some htag
  have hfields : ∀ f ∈ fields ⟨⟨entity, ⟨code⟩⟩, a⟩, r.get? f.1 = some f.2 := by
    unfold fields
    simp only [List.cons_append, List.nil_append, List.forall_mem_cons]
    exact ⟨hv ▸ hentity, get?_of_within? hcode, by rw [hname, ← htag']; rfl, hfigures⟩
  intro c hc
  have hcolumn : c.name ∈ (ofIndicator ⟨⟨entity, ⟨code⟩⟩, a⟩).keys := by
    rw [keys_ofIndicator hm]
    exact List.mem_map_of_mem hc
  have hkeys : (ofIndicator ⟨⟨entity, ⟨code⟩⟩, a⟩).keys = _ := Dict.keys_ofList (nodup_fields _)
  rw [hkeys] at hcolumn
  obtain ⟨f, hf, hfc⟩ := List.mem_map.1 hcolumn
  rw [← hfc, hfields f hf, Row.get?_ofIndicator]
  exact ((Dict.findIn_eq_some_iff (nodup_fields _)).2 hf).symm

end Row

namespace Layout

open Row

theorem toRow_eq (l : Layout) (x : Indicator) :
    l.toRow x = if x.measure = l.measure then .ok (ofIndicator x)
      else .error (.wrongMeasure x.key l.table x.measure l.measure) := by
  unfold toRow check
  by_cases hm : x.measure = l.measure
  · rw [if_pos hm, if_pos hm]
  · rw [if_neg hm, if_neg hm]

theorem toRow_eq_ok {l : Layout} {x : Indicator} {row : Row} :
    l.toRow x = .ok row ↔ x.measure = l.measure ∧ row = ofIndicator x := by
  rw [toRow_eq]
  by_cases hm : x.measure = l.measure
  · simp [hm, eq_comm]
  · simp [hm]

/-- A row that reads as an indicator of another measure is refused. -/
theorem ofRow_of_ne {l : Layout} {r : Row} {x : Indicator} (h : r.indicator? = some x) (hm : x.measure ≠ l.measure) :
    l.ofRow r = .error (.wrongMeasure x.key l.table x.measure l.measure) := by
  unfold ofRow check
  rw [h]
  dsimp only
  rw [if_neg hm]

/-- Rows and indicators of a layout's measure correspond. An indicator is written to exactly the layout's columns, and
the row reads as it whatever fields are added that are no columns, of which nothing is written again; so no two
indicators share a row. A row from elsewhere, if it spells its measure and bins as they are written, is given back as
far as the columns go. An indicator of another measure is not written, and what another measure's layout has written
is not read, whatever is added to it. -/
theorem rows_round_trip (l : Layout) :
    (∀ x : Indicator, x.Fits → x.measure = l.measure → ∃ row, l.toRow x = .ok row ∧
      row.keys = l.columns.map (·.name) ∧
      ∀ r, AgreeOn l r row → l.ofRow r = .ok x ∧
        ∀ name, row.get? name = if name ∈ l.columns.map (·.name) then r.get? name else none) ∧
    (∀ (x y : Indicator) (row : Row), x.Fits → y.Fits → l.toRow x = .ok row → l.toRow y = .ok row → x = y) ∧
    (∀ (r : Row) (x : Indicator), Plain l r → l.ofRow r = .ok x → ∃ row, l.toRow x = .ok row ∧
      ∀ name, row.get? name = if name ∈ l.columns.map (·.name) then r.get? name else none) ∧
    (∀ x : Indicator, x.measure ≠ l.measure →
      l.toRow x = .error (.wrongMeasure x.key l.table x.measure l.measure)) ∧
    (∀ (other : Layout) (x : Indicator) (row r : Row), other.measure ≠ l.measure → x.Fits →
      other.toRow x = .ok row → AgreeOn other r row →
      l.ofRow r = .error (.wrongMeasure x.key l.table x.measure l.measure)) := by
  refine ⟨?_, ?_, ?_, ?_, ?_⟩
  · intro x hx hm
    refine ⟨ofIndicator x, toRow_eq_ok.2 ⟨hm, rfl⟩, keys_ofIndicator hm, fun r hr => ⟨?_, hr.get?_ofIndicator hm⟩⟩
    exact ofRow_eq_ok.2 ⟨hr.reads hx hm, hm⟩
  · intro x y row hx hy hrowx hrowy
    obtain ⟨-, rfl⟩ := toRow_eq_ok.1 hrowx
    obtain ⟨-, hrow⟩ := toRow_eq_ok.1 hrowy
    have hread := indicator?_ofIndicator.2 ⟨hx, rfl⟩
    rw [hrow] at hread
    exact (indicator?_ofIndicator.1 hread).2.symm
  · intro r x hr hread
    obtain ⟨hx, hm⟩ := ofRow_eq_ok.1 hread
    exact ⟨_, toRow_eq_ok.2 ⟨hm, rfl⟩, (hr.agreeOn hx hm).get?_ofIndicator hm⟩
  · intro x hm
    rw [toRow_eq, if_neg hm]
  · intro other x row r hne hx hrow hr
    obtain ⟨hm, rfl⟩ := toRow_eq_ok.1 hrow
    exact ofRow_of_ne (hr.reads hx hm) (hm ▸ hne)

/-- A percentile whose bins are out of order and whose figure is out of date, and an average. -/
def untidyMedian : Indicator := ⟨⟨"checkout", ⟨202403151427⟩⟩, .percentile ⟨10, 50, [⟨3, 2⟩, ⟨1, 1⟩], -7⟩⟩

def meanLoad : Indicator := ⟨⟨"checkout", ⟨202403151427⟩⟩, .average ⟨7, 2, 3⟩⟩

/-- The percentile is read back as it is, beside a field of another measure; the average, whose row has every
column of a count, is not read as one. -/
theorem rows_round_trip_untidyMedian :
    untidyMedian.Fits ∧ untidyMedian.measure = .percentile ∧
      (∃ row, toRow ⟨"latency", .percentile, .minute⟩ untidyMedian = .ok row ∧
        ofRow ⟨"latency", .percentile, .minute⟩ (row.adding [("total", .int 3)]) = .ok untidyMedian) ∧
      meanLoad.Fits ∧ meanLoad.measure ≠ .count ∧
      (∀ c ∈ columns ⟨"calls", .count, .minute⟩, c.name ∈ (ofIndicator meanLoad).keys) ∧
      ofRow ⟨"calls", .count, .minute⟩ (ofIndicator meanLoad) =
        .error (.wrongMeasure meanLoad.key "calls" .average .count) := by
  obtain ⟨hround, -⟩ := rows_round_trip ⟨"latency", .percentile, .minute⟩
  obtain ⟨-, -, -, -, hforeign⟩ := rows_round_trip ⟨"calls", .count, .minute⟩
  obtain ⟨row, hrow, -, hreads⟩ := hround untidyMedian (by decide) (by decide)
  refine ⟨by decide, by decide, ⟨row, hrow, (hreads _ (agreeOn_adding row (by decide))).1⟩, by decide, by decide,
    by decide, ?_⟩
  exact hforeign ⟨"load", .average, .minute⟩ meanLoad _ _ (by decide) (by decide) rfl fun _ _ => rfl

end Layout

end MetricCascade
