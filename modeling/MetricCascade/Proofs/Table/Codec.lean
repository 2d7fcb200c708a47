/-
Rows and indicators. A row reads as an indicator exactly if every number of the indicator that it was
written from has the width of its column, and it reads as that indicator. An up-to-date aggregate
whose raw figures have 64 bits has such numbers throughout.
-/
import MetricCascade.Proofs.Metric.Raw
import MetricCascade.Table.Row

namespace MetricCascade

namespace Aggregate

/-- Every number has the width of its column. -/
def Fits : Aggregate → Prop
  | count n => IsInt64 n
  | average a => IsInt64 a.summation ∧ IsInt64 a.count ∧ IsInt64 a.value
  | share s => IsInt64 s.total ∧ IsInt64 s.matched ∧ IsInt32 s.percentage
  | percentile h =>
    IsInt32 h.precision ∧ h.rank ≤ 255 ∧ (∀ b ∈ h.bins, IsInt32 b.bucket ∧ IsInt64 b.count) ∧
      IsInt32 h.value

instance : (a : Aggregate) → Decidable a.Fits
  | count n => inferInstanceAs (Decidable (IsInt64 n))
  | average a => inferInstanceAs (Decidable (IsInt64 a.summation ∧ IsInt64 a.count ∧ IsInt64 a.value))
  | share s => inferInstanceAs (Decidable (IsInt64 s.total ∧ IsInt64 s.matched ∧ IsInt32 s.percentage))
  | percentile h =>
    inferInstanceAs (Decidable (IsInt32 h.precision ∧ h.rank ≤ 255 ∧
      (∀ b ∈ h.bins, IsInt32 b.bucket ∧ IsInt64 b.count) ∧ IsInt32 h.value))

end Aggregate

/-- Every number has the width of its column. -/
def Indicator.Fits (x : Indicator) : Prop := IsInt64 x.key.bucket.code ∧ x.value.Fits

instance (x : Indicator) : Decidable x.Fits := inferInstanceAs (Decidable (IsInt64 x.key.bucket.code ∧ x.value.Fits))

namespace Row

/-! ## Fields -/

/-- The fields of a row, in the order in which they are written. -/
def fields (x : Indicator) : List (String × Json) :=
  [("entity_id", .text x.key.entity), ("time_bucket", .int x.key.bucket.code),
    ("function", .text x.measure.name)] ++ fieldsOf x.value

theorem nodup_fields (x : Indicator) : ((fields x).map (·.1)).Nodup := by
  unfold fields
  cases x.value <;> simp [fieldsOf]

theorem get?_ofIndicator (x : Indicator) (name : String) :
    (ofIndicator x).get? name = Dict.findIn name (fields x) :=
  Dict.get?_ofList (nodup_fields x) name

theorem ofName?_name (m : Measure) : Measure.ofName? m.name = some m := by cases m <;> decide

theorem measure?_name (m : Measure) : measure? (.text m.name) = some m := ofName?_name m

theorem text?_text (s : String) : (Json.text s).text? = some s := rfl

theorem int64Within {n m : Int} :
    (Json.int n).intWithin? minInt64 maxInt64 = some m ↔ IsInt64 n ∧ n = m := by
  simp [Json.intWithin?, IsInt64]

theorem int32Within {n m : Int} :
    (Json.int n).intWithin? minInt32 maxInt32 = some m ↔ IsInt32 n ∧ n = m := by
  simp [Json.intWithin?, IsInt32]

theorem rankWithin {n : Nat} {m : Int} :
    (Json.int n).intWithin? 0 255 = some m ↔ n ≤ 255 ∧ (n : Int) = m := by
  simp only [Json.intWithin?, Option.ite_none_right_eq_some, Option.some.injEq]
  omega

/-! ## Bins -/

theorem bin?_ofBin {b c : Bin} : bin? (ofBin b) = some c ↔ (IsInt32 b.bucket ∧ IsInt64 b.count) ∧ b = c := by
  have hbucket : Json.field? "bucket" [("bucket", .int b.bucket), ("count", .int b.count)] =
      some (.int b.bucket) := by simp [Json.field?, Json.valuesOf]
  have hcount : Json.field? "count" [("bucket", .int b.bucket), ("count", .int b.count)] =
      some (.int b.count) := by simp [Json.field?, Json.valuesOf]
  simp only [bin?, ofBin, hbucket, hcount, Option.bind_some, Option.bind_eq_bind, Option.bind_eq_some_iff,
    int32Within, int64Within, Option.some.injEq]
  constructor
  · rintro ⟨_, ⟨h1, rfl⟩, _, ⟨h2, rfl⟩, rfl⟩
    exact ⟨⟨h1, h2⟩, rfl⟩
  · rintro ⟨⟨h1, h2⟩, rfl⟩
    exact ⟨_, ⟨h1, rfl⟩, _, ⟨h2, rfl⟩, rfl⟩

theorem bins?_ofBins {l m : List Bin} :
    bins? (l.map ofBin) = some m ↔ (∀ b ∈ l, IsInt32 b.bucket ∧ IsInt64 b.count) ∧ l = m := by
  induction l generalizing m with
  | nil => simp [bins?]
  | cons b l ih =>
    simp only [List.map_cons, bins?, Option.bind_eq_bind, Option.bind_eq_some_iff, bin?_ofBin, ih,
      Option.some.injEq, List.forall_mem_cons]
    constructor
    · rintro ⟨_, ⟨h1, rfl⟩, _, ⟨h2, rfl⟩, rfl⟩
      exact ⟨⟨h1, h2⟩, rfl⟩
    · rintro ⟨⟨h1, h2⟩, rfl⟩
      exact ⟨_, ⟨h1, rfl⟩, _, ⟨h2, rfl⟩, rfl⟩

/-! ## Reading back -/

theorem long?_ofIndicator (x : Indicator) (name : String) {n : Int} (m : Int)
    (h : Dict.findIn name (fields x) = some (.int n)) :
    (ofIndicator x).long? name = some m ↔ IsInt64 n ∧ n = m := by
  unfold long?
  rw [get?_ofIndicator, h]
  exact int64Within

theorem integer?_ofIndicator (x : Indicator) (name : String) {n : Int} (m : Int)
    (h : Dict.findIn name (fields x) = some (.int n)) :
    (ofIndicator x).integer? name = some m ↔ IsInt32 n ∧ n = m := by
  unfold integer?
  rw [get?_ofIndicator, h]
  exact int32Within

theorem aggregate?_ofIndicator {x : Indicator} {a : Aggregate} :
    (ofIndicator x).aggregate? x.measure = some a ↔ x.value.Fits ∧ x.value = a := by
  obtain ⟨key, value⟩ := x
  cases value with
  | count n =>
    have hn m := long?_ofIndicator ⟨key, .count n⟩ "value" (n := n) m rfl
    simp only [Indicator.measure, Aggregate.measure, aggregate?, Option.bind_eq_bind, Option.bind_eq_some_iff,
      hn, Option.some.injEq, Aggregate.Fits]
    constructor
    · rintro ⟨_, ⟨h, rfl⟩, rfl⟩; exact ⟨h, rfl⟩
    · rintro ⟨h, rfl⟩; exact ⟨_, ⟨h, rfl⟩, rfl⟩
  | average v =>
    have h1 m := long?_ofIndicator ⟨key, .average v⟩ "summation" (n := v.summation) m rfl
    have h2 m := long?_ofIndicator ⟨key, .average v⟩ "count" (n := v.count) m rfl
    have h3 m := long?_ofIndicator ⟨key, .average v⟩ "value" (n := v.value) m rfl
    simp only [Indicator.measure, Aggregate.measure, aggregate?, Option.bind_eq_bind, Option.bind_eq_some_iff,
      h1, h2, h3, Option.some.injEq, Aggregate.Fits]
    constructor
    · rintro ⟨_, ⟨c1, rfl⟩, _, ⟨c2, rfl⟩, _, ⟨c3, rfl⟩, rfl⟩; exact ⟨⟨c1, c2, c3⟩, rfl⟩
    · rintro ⟨⟨c1, c2, c3⟩, rfl⟩; exact ⟨_, ⟨c1, rfl⟩, _, ⟨c2, rfl⟩, _, ⟨c3, rfl⟩, rfl⟩
  | share v =>
    have h1 m := long?_ofIndicator ⟨key, .share v⟩ "total" (n := v.total) m rfl
    have h2 m := long?_ofIndicator ⟨key, .share v⟩ "match" (n := v.matched) m rfl
    have h3 m := integer?_ofIndicator ⟨key, .share v⟩ "percentage" (n := v.percentage) m rfl
    simp only [Indicator.measure, Aggregate.measure, aggregate?, Option.bind_eq_bind, Option.bind_eq_some_iff,
      h1, h2, h3, Option.some.injEq, Aggregate.Fits]
    constructor
    · rintro ⟨_, ⟨c1, rfl⟩, _, ⟨c2, rfl⟩, _, ⟨c3, rfl⟩, rfl⟩; exact ⟨⟨c1, c2, c3⟩, rfl⟩
    · rintro ⟨⟨c1, c2, c3⟩, rfl⟩; exact ⟨_, ⟨c1, rfl⟩, _, ⟨c2, rfl⟩, _, ⟨c3, rfl⟩, rfl⟩
  | percentile v =>
    have h1 m := integer?_ofIndicator ⟨key, .percentile v⟩ "precision" (n := v.precision) m rfl
    have h2 : (ofIndicator ⟨key, .percentile v⟩).get? "rank" = some (.int v.rank) := get?_ofIndicator _ _
    have h3 : (ofIndicator ⟨key, .percentile v⟩).get? "detail" = some (.list (v.bins.map ofBin)) :=
      get?_ofIndicator _ _
    have h4 m := integer?_ofIndicator ⟨key, .percentile v⟩ "value" (n := v.value) m rfl
    simp only [Indicator.measure, Aggregate.measure, aggregate?, Option.bind_eq_bind, Option.bind_eq_some_iff,
      h1, h2, h3, h4, Option.bind_some, Json.items?, rankWithin, bins?_ofBins, Option.some.injEq, Aggregate.Fits]
    constructor
    · rintro ⟨_, ⟨c1, rfl⟩, _, ⟨c2, rfl⟩, _, ⟨c3, rfl⟩, _, ⟨c4, rfl⟩, rfl⟩; exact ⟨⟨c1, c2, c3, c4⟩, rfl⟩
    · rintro ⟨⟨c1, c2, c3, c4⟩, rfl⟩; exact ⟨_, ⟨c1, rfl⟩, _, ⟨c2, rfl⟩, _, ⟨c3, rfl⟩, _, ⟨c4, rfl⟩, rfl⟩

/-- A row reads as the indicator that it was written from, if all numbers have their width, and as no
other. -/
theorem indicator?_ofIndicator {x y : Indicator} : (ofIndicator x).indicator? = some y ↔ x.Fits ∧ x = y := by
  have h1 : (ofIndicator x).get? "entity_id" = some (.text x.key.entity) := get?_ofIndicator _ _
  have h2 m := long?_ofIndicator x "time_bucket" (n := x.key.bucket.code) m rfl
  have h3 : (ofIndicator x).get? "function" = some (.text x.measure.name) := get?_ofIndicator _ _
  simp only [indicator?, Option.bind_eq_bind, h1, h3, Option.bind_some, text?_text, measure?_name,
    Option.bind_eq_some_iff, h2, Option.some.injEq, Indicator.Fits]
  constructor
  · rintro ⟨_, ⟨hcode, rfl⟩, _, hvalue, rfl⟩
    obtain ⟨hfits, hv⟩ := aggregate?_ofIndicator.1 hvalue
    exact ⟨⟨hcode, hfits⟩, by rw [← hv]⟩
  · rintro ⟨⟨hcode, hfits⟩, rfl⟩
    exact ⟨_, ⟨hcode, rfl⟩, _, aggregate?_ofIndicator.2 ⟨hfits, rfl⟩, rfl⟩

end Row

namespace Aggregate

/-! ## Widths -/

theorem isInt32_clampInt32 (n : Int) : IsInt32 (clampInt32 n) := by
  unfold IsInt32 clampInt32 minInt32 maxInt32
  omega

theorem isInt64_tdiv {m n : Int} (hm : IsInt64 m) (hn : 0 < n) : IsInt64 (m.tdiv n) := by
  have hle : (m.tdiv n).natAbs ≤ m.natAbs := Int.natAbs_tdiv m n ▸ Nat.div_le_self _ _
  unfold IsInt64 minInt64 maxInt64 at *
  rcases le_total 0 m with h | h
  · have := Int.tdiv_nonneg h hn.le
    omega
  · have := Int.tdiv_nonneg (Int.neg_nonneg_of_nonpos h) hn.le
    rw [Int.neg_tdiv] at this
    omega

theorem isInt32_bmod (n : Int) : IsInt32 (n.bmod 4294967296) := by
  have h1 := Int.le_bmod (x := n) (m := 4294967296) (by decide)
  have h2 := Int.bmod_lt (x := n) (m := 4294967296) (by decide)
  unfold IsInt32 minInt32 maxInt32
  omega

/-- An up-to-date aggregate has numbers of their widths as soon as its raw figures have. -/
theorem Current.fits {f : Form} {a : Aggregate} (ha : a.Current f) (hr : a.raw.InRange) : a.Fits := by
  have hp := ha.proper
  have hfresh := ha.fresh
  obtain ⟨r1, r2, r3⟩ := hr
  cases a with
  | count n => exact r1
  | average v =>
    have hpos : 0 < v.count := hp
    refine ⟨r1, r2, ?_⟩
    simp only [refresh, Average.refresh] at hfresh
    rw [if_neg (by omega), if_neg (by omega)] at hfresh
    have hvalue : v.summation.tdiv v.count = v.value :=
      congrArg Average.value (Aggregate.average.inj (Except.ok.inj hfresh))
    rw [← hvalue]
    exact isInt64_tdiv r1 hpos
  | share v =>
    refine ⟨r1, r2, ?_⟩
    have hpos : 0 < v.total := hp
    have hvalue : v.refresh.percentage = v.percentage :=
      congrArg Share.percentage (Aggregate.share.inj (Except.ok.inj hfresh))
    rw [← hvalue]
    unfold Share.refresh
    rw [if_neg (by omega)]
    exact isInt32_bmod _
  | percentile h =>
    have hh : h.Proper := hp
    refine ⟨⟨?_, hh.precision.2⟩, hh.rank.2.trans (by decide), fun b hb => ⟨⟨?_, (hh.bucket b hb).2⟩, ?_⟩, ?_⟩
    · exact le_trans (by decide) hh.precision.1
    · exact le_trans (by decide) (hh.bucket b hb).1
    · rw [← hh.tidy.countIn_of_mem hb]
      exact r3 b.bucket
    · -- the percentile was clamped when it was computed, so it is in range whatever the bin
      obtain ⟨b, hb⟩ := Histogram.firstReaching_tidy hh.tidy hh.nonempty hh.rank.2
      have hvalue : h.refresh.value = h.value :=
        congrArg Histogram.value (Aggregate.percentile.inj (Except.ok.inj hfresh))
      rw [← hvalue, Histogram.refresh_eq hb]
      exact isInt32_clampInt32 _

end Aggregate

end MetricCascade
