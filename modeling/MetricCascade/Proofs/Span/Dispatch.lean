/-
Spans counted from end to end. However spans and flushes of a registry follow each other, in the end
the finest table of each kind holds, for every entity and every minute, just what the gauge of the
kind reads of the spans that count for that entity in that minute.
-/
import MetricCascade.Proofs.Registry.Lines
import MetricCascade.Proofs.Span.Gauge
import MetricCascade.Span.Dispatch

namespace MetricCascade

open Indicator

namespace Scope

/-! ## The kinds of all figures -/

/-- The figures that are kept in some scopes. -/
def figures (scopes : List Scope) : List (Scope × Gauge) := scopes.flatMap fun scope => scope.gauges.map (scope, ·)

theorem mem_figures {scopes : List Scope} {p : Scope × Gauge} :
    p ∈ figures scopes ↔ p.1 ∈ scopes ∧ p.2 ∈ p.1.gauges := by
  unfold figures
  constructor
  · intro h
    obtain ⟨scope, hscope, hp⟩ := List.mem_flatMap.1 h
    obtain ⟨g, hg, rfl⟩ := List.mem_map.1 hp
    exact ⟨hscope, hg⟩
  · rintro ⟨hscope, hg⟩
    exact List.mem_flatMap.2 ⟨p.1, hscope, List.mem_map.2 ⟨p.2, hg, rfl⟩⟩

theorem figures_all {v : Vantage} {p : Scope × Gauge} (h : p ∈ figures (seenFrom v)) : p ∈ figures all := by
  rw [mem_figures] at h ⊢
  refine ⟨List.mem_flatMap.2 ⟨v, ?_, h.1⟩, h.2⟩
  cases v <;> decide

/-- The kind of a figure. -/
def kindOf (p : Scope × Gauge) : Kind := (p.1.kind p.2, p.2.measure)

theorem kinds_eq : kinds = (figures all).map kindOf := by
  unfold kinds figures
  rw [List.map_flatMap]
  simp only [List.map_map]
  rfl

theorem kindOf_mem {p : Scope × Gauge} (h : p ∈ figures all) : kindOf p ∈ kinds := by
  rw [kinds_eq]
  exact List.mem_map_of_mem h

/-- No two tables of the kinds that spans are counted in have one name. -/
theorem kinds_apart : Kind.Apart kinds := by
  unfold Kind.Apart
  decide +kernel

/-- Figures are told apart by the names of their kinds. -/
theorem figure_inj {p q : Scope × Gauge} (hp : p ∈ figures all) (hq : q ∈ figures all)
    (h : p.1.kind p.2 = q.1.kind q.2) : p = q := by
  have hnodup := kinds_apart.names
  rw [kinds_eq, List.map_map] at hnodup
  exact List.inj_on_of_nodup_map hnodup hp hq h

theorem figures_nodup (v : Vantage) : (figures (seenFrom v)).Nodup := by cases v <;> decide

/-- From each side, a kind is counted at most once. -/
theorem figures_filter (v : Vantage) {p : Scope × Gauge} (hp : p ∈ figures all) :
    (figures (seenFrom v)).filter (fun q => q.1.kind q.2 = p.1.kind p.2) = if p.1 ∈ seenFrom v then [p] else [] := by
  -- no other figure has the name of this kind, so the filter can ask for the figure itself
  have hfilter : (figures (seenFrom v)).filter (fun q => q.1.kind q.2 = p.1.kind p.2) =
      (figures (seenFrom v)).filter (fun q => q = p) := by
    refine List.filter_congr fun q hq => decide_eq_decide.2 ?_
    constructor
    · intro h
      exact figure_inj (figures_all hq) hp h
    · rintro rfl
      rfl
  have hmem : p ∈ figures (seenFrom v) ↔ p.1 ∈ seenFrom v := by
    rw [mem_figures]
    exact and_iff_left (mem_figures.1 hp).2
  rw [hfilter, List.filter_eq, (figures_nodup v).count]
  by_cases h : p.1 ∈ seenFrom v
  · rw [if_pos h, if_pos (hmem.2 h)]
    rfl
  · rw [if_neg h, if_neg fun hno => h (hmem.1 hno)]
    rfl

/-- The form of the aggregates of a kind. -/
def formOf (k : Kind) (_ : Key) : Form :=
  match (figures all).find? fun p => p.1.kind p.2 = k.1 with
  | some p => p.2.form
  | none => (k.2, none)

theorem formOf_kindOf {p : Scope × Gauge} (hp : p ∈ figures all) (key : Key) : formOf (kindOf p) key = p.2.form := by
  obtain ⟨q, hq⟩ := Option.isSome_iff_exists.1 (List.find?_isSome.2 ⟨p, hp, decide_eq_true rfl⟩ :
    ((figures all).find? fun q => q.1.kind q.2 = p.1.kind p.2).isSome = true)
  have hname : q.1.kind q.2 = p.1.kind p.2 := by simpa using List.find?_some hq
  obtain rfl := figure_inj (List.mem_of_find?_eq_some hq) hp hname
  unfold formOf kindOf
  dsimp only
  rw [hq]

theorem formOf_measure {k : Kind} (hk : k ∈ kinds) (key : Key) : (formOf k key).1 = k.2 := by
  rw [kinds_eq] at hk
  obtain ⟨p, hp, rfl⟩ := List.mem_map.1 hk
  rw [formOf_kindOf hp, Gauge.form_measure]
  rfl

end Scope

namespace Span

open Scope Registry

/-! ## What a span counts for -/

/-- In a scope, the span counts for an entity in a minute. -/
def CountsFor (scope : Scope) (k : Key) (s : Span) : Prop :=
  scope ∈ seenFrom s.vantage ∧ Bucket.ofMillis s.start = .ok k.bucket ∧ scope.entity s = k.entity

instance (scope : Scope) (k : Key) (s : Span) : Decidable (s.CountsFor scope k) :=
  decidable_of_iff (scope ∈ seenFrom s.vantage ∧ (Bucket.ofMillis s.start).toOption = some k.bucket ∧
    scope.entity s = k.entity) <| by
      unfold CountsFor
      cases Bucket.ofMillis s.start <;> simp [Except.toOption]

/-- The spans that count for an entity in a minute. -/
def counted (scope : Scope) (k : Key) (ss : List Span) : List Span := ss.filter (CountsFor scope k)

/-- What a span adds; nothing if it is dropped. -/
def additions (s : Span) : List (String × Indicator) := s.updates.toOption.getD []

theorem additions_of_ok {s : Span} {minute : Bucket} (h : Bucket.ofMillis s.start = .ok minute) :
    s.additions = (figures (seenFrom s.vantage)).map fun p => (p.1.kind p.2, p.2.observe (p.1.entity s) minute s) := by
  unfold additions updates figures
  rw [h, List.map_flatMap]
  simp only [List.map_map]
  rfl

theorem additions_of_error {s : Span} {e : BucketError} (h : Bucket.ofMillis s.start = .error e) :
    s.additions = [] := by
  unfold additions updates
  rw [h]
  rfl

theorem additions_append (ss more : List Span) : ss.flatMap additions <+: (ss ++ more).flatMap additions :=
  ⟨more.flatMap additions, List.flatMap_append.symm⟩

/-- Spans, and part of what the next one adds. -/
theorem additions_part {ss more : List Span} {s : Span} {part : List (String × Indicator)} (h : part <+: s.additions) :
    ss.flatMap additions ++ part <+: (ss ++ ([s] ++ more)).flatMap additions := by
  obtain ⟨others, hothers⟩ := h
  exact ⟨others ++ more.flatMap additions, by simp [← hothers]⟩

theorem mem_additions {s : Span} {u : String × Indicator} (h : u ∈ s.additions) :
    ∃ p ∈ figures all, ∃ minute, Bucket.ofMillis s.start = .ok minute ∧
      u = (p.1.kind p.2, p.2.observe (p.1.entity s) minute s) := by
  cases hstart : Bucket.ofMillis s.start with
  | error e =>
    rw [additions_of_error hstart] at h
    cases h
  | ok minute =>
    rw [additions_of_ok hstart] at h
    obtain ⟨p, hp, rfl⟩ := List.mem_map.1 h
    exact ⟨p, figures_all hp, minute, rfl, rfl⟩

/-- The code of a minute has twelve digits. -/
theorem isInt64_ofMillis {ms : Int} {minute : Bucket} (h : Bucket.ofMillis ms = .ok minute) : IsInt64 minute.code := by
  unfold Bucket.ofMillis at h
  dsimp only at h
  split at h
  · rename_i hlevel
    cases h
    exact Bucket.isInt64_of_hasLevel hlevel
  · cases h

/-- Under a key, a span adds one observation to a kind of a scope in which it counts for the key, and
nothing to the others. -/
theorem given_additions {p : Scope × Gauge} (hp : p ∈ figures all) (k : Key) (s : Span) :
    under k (given s.additions (p.1.kind p.2)) =
      if s.CountsFor p.1 k then [p.2.observe k.entity k.bucket s] else [] := by
  cases hstart : Bucket.ofMillis s.start with
  | error e =>
    have hno : ¬ s.CountsFor p.1 k := fun h => nomatch hstart.symm.trans h.2.1
    rw [additions_of_error hstart, if_neg hno]
    rfl
  | ok minute =>
    have hgiven : given s.additions (p.1.kind p.2) =
        if p.1 ∈ seenFrom s.vantage then [p.2.observe (p.1.entity s) minute s] else [] := by
      unfold given
      rw [additions_of_ok hstart, List.filter_map, List.map_map]
      have hfilter := figures_filter s.vantage hp
      simp only [Function.comp_def]
      rw [hfilter]
      split <;> rfl
    rw [hgiven]
    by_cases hscope : p.1 ∈ seenFrom s.vantage
    · rw [if_pos hscope]
      -- the scope sees the span; whether it counts is now a matter of the entity and the minute
      by_cases hk : (⟨p.1.entity s, minute⟩ : Key) = k
      · subst hk
        rw [if_pos ⟨hscope, hstart, rfl⟩]
        unfold under
        rw [List.filter_cons_of_pos, List.filter_nil]
        exact decide_eq_true (p.2.observe_key ⟨p.1.entity s, minute⟩ s)
      · have hno : ¬ s.CountsFor p.1 k := by
          rintro ⟨-, hbucket, hentity⟩
          rw [hstart] at hbucket
          obtain rfl := Except.ok.inj hbucket
          exact hk (by rw [hentity])
        rw [if_neg hno]
        unfold under
        rw [List.filter_cons_of_neg, List.filter_nil]
        rw [p.2.observe_key ⟨p.1.entity s, minute⟩ s]
        simpa using hk
    · rw [if_neg hscope, if_neg fun h => hscope h.1]
      rfl

/-- Under a key, spans add one observation for each that counts. -/
theorem given_spans {p : Scope × Gauge} (hp : p ∈ figures all) (k : Key) (ss : List Span) :
    under k (given (ss.flatMap additions) (p.1.kind p.2)) = (counted p.1 k ss).map (p.2.observe k.entity k.bucket) := by
  induction ss with
  | nil => rfl
  | cons s ss ih =>
    rw [List.flatMap_cons, given_append, under_append, ih, given_additions hp]
    unfold counted
    by_cases hs : s.CountsFor p.1 k
    · rw [if_pos hs, List.filter_cons, if_pos (decide_eq_true hs)]
      rfl
    · rw [if_neg hs, List.filter_cons, if_neg (by simpa using hs)]
      rfl

/-- For every entity and minute, the number of spans that count and the sum of their response times
have 64 bits. -/
def Measured (ss : List Span) : Prop :=
  ∀ scope k, ((counted scope k ss).length : Int) ≤ maxInt64 ∧ Gauge.totalTime (counted scope k ss) ≤ maxInt64

theorem measured_of_total {ss : List Span} (hlength : (ss.length : Int) ≤ maxInt64)
    (htime : Gauge.totalTime ss ≤ maxInt64) : Measured ss := by
  intro scope k
  have hsub : (counted scope k ss).Sublist ss := List.filter_sublist
  refine ⟨(Int.ofNat_le.2 hsub.length_le).trans hlength, le_trans ?_ htime⟩
  refine (hsub.map Span.latency).sum_le_sum ?_
  intro n hn
  obtain ⟨s, -, rfl⟩ := List.mem_map.1 hn
  exact s.latency_nonneg

/-- At no point do the sums of the spans so far leave 64 bits. -/
theorem Measured.bounded {ss : List Span} (h : Measured ss) {history : List (String × Indicator)}
    (hhistory : history <+: ss.flatMap additions) : Bounded kinds history where
  sums k hk key := by
    rw [kinds_eq] at hk
    obtain ⟨p, hp, rfl⟩ := List.mem_map.1 hk
    -- a part of the history is, under each key, a part of what the counted spans add
    have hunder : under key (given history (p.1.kind p.2)) <+:
        (counted p.1 key ss).map (p.2.observe key.entity key.bucket) := by
      rw [← given_spans hp key ss]
      exact ((hhistory.filter _).map _).filter _
    obtain ⟨part, hpart, hsums⟩ := List.prefix_map_iff.1 hunder
    obtain ⟨hlength, htime⟩ := h p.1 key
    show (rawSum (under key (given history (p.1.kind p.2)))).InRange
    rw [hsums]
    obtain ⟨more, hmore⟩ := hpart
    rw [← hmore] at hlength htime
    refine Gauge.inRange_observe _ _ _ ?_ ?_
    · rw [List.length_append] at hlength
      omega
    · have hrest := Gauge.totalTime_nonneg more
      unfold Gauge.totalTime at htime hrest ⊢
      rw [List.map_append, List.sum_append] at htime
      omega
  codes u hu := by
    obtain ⟨s, -, hs⟩ := List.mem_flatMap.1 (hhistory.subset hu)
    obtain ⟨p, -, minute, hminute, rfl⟩ := mem_additions hs
    cases p.2 <;> exact isInt64_ofMillis hminute

end Span

namespace Registry

open Scope MetricCascade.Span

variable {capacity : Nat} {history : List (String × Indicator)} {quiet : Kind → Prop} {r : Registry}

/-- All updates are taken, in order. -/
theorem Holding.submitAll {kinds : List Kind} {φ : Kind → Key → Form} :
    ∀ {updates : List (String × Indicator)} {history : List (String × Indicator)} {quiet : Kind → Prop} {r : Registry},
      r.Holding kinds capacity φ history quiet →
      (∀ u ∈ updates, ∃ k ∈ kinds, u.1 = k.1 ∧ u.2.value.Proper ∧ u.2.value.form = φ k u.2.key) →
      (∀ part, part <+: updates → Bounded kinds (history ++ part)) →
      ∃ r', Registry.submitAll updates r = (.ok updates.length, r') ∧
        r'.Holding kinds capacity φ (history ++ updates) (fun _ => False)
  | [], history, quiet, r, h, _, _ => ⟨r, rfl, by rw [List.append_nil]; exact h.mono fun _ _ => False.elim⟩
  | (name, x) :: rest, history, quiet, r, h, hupdates, hbounded => by
    obtain ⟨k, hk, hname, hproper, hform⟩ := hupdates _ (List.mem_cons_self ..)
    obtain rfl : name = k.1 := hname
    -- what was taken so far is a part of all, so its sums are within bounds
    have hhistory : Bounded kinds history := by simpa using hbounded [] (List.nil_prefix ..)
    obtain ⟨r', hr', h'⟩ := h.submit hk hhistory hproper hform
    have hrest : ∀ part, part <+: rest → Bounded kinds (history ++ [(k.1, x)] ++ part) := by
      intro part hpart
      rw [List.append_assoc]
      exact hbounded _ (List.cons_prefix_cons.2 ⟨rfl, hpart⟩)
    obtain ⟨r'', hr'', h''⟩ := Holding.submitAll h' (fun u hu => hupdates u (List.mem_cons_of_mem _ hu)) hrest
    rw [List.append_assoc] at h''
    refine ⟨r'', ?_, h''⟩
    simp only [Registry.submitAll, hr', hr'']
    rfl

/-- The updates of a span are observations in the forms of their kinds. -/
theorem additions_form {s : Span} {u : String × Indicator} (hu : u ∈ s.additions) :
    ∃ k ∈ kinds, u.1 = k.1 ∧ u.2.value.Proper ∧ u.2.value.form = formOf k u.2.key := by
  obtain ⟨p, hp, minute, -, rfl⟩ := mem_additions hu
  refine ⟨kindOf p, kindOf_mem hp, rfl, p.2.observe_proper _ _ s, ?_⟩
  rw [formOf_kindOf hp]
  exact p.2.observe_form _ _ s

end Registry

/-! ## Runs -/

/-- A call to a registry that spans are counted in. -/
inductive SpanCall where
  | dispatch (s : Span)
  | flushAll

namespace SpanCall

/-- The spans among some calls, in order. -/
def spans : List SpanCall → List Span
  | [] => []
  | dispatch s :: rest => s :: spans rest
  | flushAll :: rest => spans rest

theorem spans_append : ∀ calls more : List SpanCall, spans (calls ++ more) = spans calls ++ spans more
  | [], _ => rfl
  | dispatch s :: rest, more => congrArg (s :: ·) (spans_append rest more)
  | flushAll :: rest, more => spans_append rest more

/-- What a call makes of a registry. -/
def perform (r : Registry) : SpanCall → Registry
  | dispatch s => (r.dispatch s).2
  | flushAll => r.flushAll.2

/-- What calls make of a registry. -/
def run (r : Registry) (calls : List SpanCall) : Registry := calls.foldl perform r

theorem run_append (r : Registry) (calls : List SpanCall) (call : SpanCall) :
    run r (calls ++ [call]) = perform (run r calls) call := by
  unfold run
  rw [List.foldl_append]
  rfl

end SpanCall

open SpanCall Scope MetricCascade.Span Registry

/-- The number of updates that a span leads to, by the side that reports it. -/
def Vantage.updates : Vantage → Nat
  | server => 29
  | client => 9

namespace Registry

variable {capacity : Nat} {history : List (String × Indicator)} {quiet : Kind → Prop} {r : Registry}

/-- A span that is counted leads to all updates of its side; one that is dropped changes nothing. -/
theorem Holding.dispatch (h : r.Holding kinds capacity formOf history quiet) (s : Span)
    (hb : ∀ part, part <+: s.additions → Bounded kinds (history ++ part)) :
    ∃ r', r.dispatch s = (.ok ((Bucket.ofMillis s.start).map fun _ => s.vantage.updates), r') ∧
      r'.Holding kinds capacity formOf (history ++ s.additions) (fun _ => False) ∧
      (s.additions = [] → r' = r) := by
  obtain ⟨r', hsubmit, h'⟩ := h.submitAll (fun u hu => additions_form hu) hb
  cases hstart : Bucket.ofMillis s.start with
  | error e =>
    have hnone := additions_of_error hstart
    rw [hnone] at hsubmit h'
    obtain rfl : r = r' := congrArg Prod.snd hsubmit
    refine ⟨r, ?_, hnone ▸ h', fun _ => rfl⟩
    unfold Registry.dispatch Span.updates
    rw [hstart]
    rfl
  | ok minute =>
    have hupdates : s.updates = .ok s.additions := by
      unfold Span.additions Span.updates
      rw [hstart]
      rfl
    have hlength : s.additions.length = s.vantage.updates := by
      rw [additions_of_ok hstart, List.length_map]
      cases s.vantage <;> rfl
    refine ⟨r', ?_, h', fun hnone => ?_⟩
    · unfold Registry.dispatch
      rw [hupdates]
      dsimp only
      rw [hsubmit, hlength]
      rfl
    · rw [hnone] at hsubmit
      exact (congrArg Prod.snd hsubmit).symm

theorem Holding.checkSpanKinds (h : r.Holding kinds capacity formOf history quiet) : r.checkSpanKinds = .ok () := by
  have hnone : kinds.find? (fun k => !r.lines.contains k.1) = none := by
    rw [List.find?_eq_none]
    intro k hk
    obtain ⟨states, W, hline, -, -⟩ := h.lines k hk
    unfold Dict.contains
    rw [hline]
    simp
  unfold Registry.checkSpanKinds
  rw [hnone]

/-- However calls follow each other, a registry holds what the spans so far add. -/
theorem Holding.after {calls : List SpanCall} (h : r.Holding kinds capacity formOf [] (fun _ => True))
    (hm : Measured (spans calls)) : ∀ pre, pre <+: calls →
      (run r pre).Holding kinds capacity formOf ((spans pre).flatMap additions) (fun _ => False) := by
  intro pre
  induction pre using List.reverseRecOn with
  | nil => exact fun _ => h.mono fun _ _ => False.elim
  | append_singleton pre call ih =>
    intro hpre
    have hrun := ih ((List.prefix_append pre [call]).trans hpre)
    obtain ⟨more, rfl⟩ := hpre
    rw [run_append]
    -- the spans so far are a part of the run's, whose sums bound theirs
    rw [spans_append, spans_append, List.append_assoc] at hm
    cases call with
    | dispatch s =>
      obtain ⟨r', hdispatch, h', -⟩ := hrun.dispatch s fun part hpart => hm.bounded (additions_part hpart)
      have hadd : (spans (pre ++ [SpanCall.dispatch s])).flatMap additions =
          (spans pre).flatMap additions ++ s.additions := by simp [spans_append, spans]
      show Holding kinds capacity formOf _ _ ((run r pre).dispatch s).2
      rw [hdispatch, hadd]
      exact h'
    | flushAll =>
      obtain ⟨r', hflush, h'⟩ := hrun.flushAll (hm.bounded (additions_append _ _))
      have hadd : (spans (pre ++ [SpanCall.flushAll])).flatMap additions = (spans pre).flatMap additions := by
        simp [spans_append, spans]
      show Holding kinds capacity formOf _ _ (run r pre).flushAll.2
      rw [hflush, hadd]
      exact h'.mono fun _ _ => False.elim

end Registry

/-- What a registry was given by spans are observations in the form of each kind. -/
theorem given_form {k : Kind} (hk : k ∈ kinds) {ss : List Span} {x : Indicator}
    (hx : x ∈ given (ss.flatMap additions) k.1) : x.value.Proper ∧ x.value.form = formOf k x.key := by
  obtain ⟨s, -, hs⟩ := List.mem_flatMap.1 (mem_given.1 hx)
  obtain ⟨j, hj, hname, hproper, hform⟩ := additions_form hs
  obtain rfl := kinds_apart.name_inj hk hj hname
  exact ⟨hproper, hform⟩

/-- With nothing waiting, a minute table holds what the gauge of its kind reads of the spans that count. -/
theorem Registry.Holding.row {capacity : Nat} {r : Registry} {ss : List Span}
    (h : r.Holding kinds capacity formOf (ss.flatMap additions) (fun _ => True)) {scope : Scope}
    (hscope : scope ∈ all) {g : Gauge} (hg : g ∈ scope.gauges) (k : Key) :
    r.backend.store.get ⟨scope.kind g, g.measure, .minute⟩ k =
      .ok (if ∃ s ∈ ss, s.CountsFor scope k then some ⟨k, g.aggregate (counted scope k ss)⟩ else none) := by
  have hp : (scope, g) ∈ figures all := mem_figures.2 ⟨hscope, hg⟩
  have hk := kindOf_mem hp
  have hget := (h.lines _ hk).get (h.measure _ hk) (fun x hx => given_form hk hx) k
  have hgiven : under k (given (ss.flatMap additions) (kindOf (scope, g)).1) =
      (counted scope k ss).map (g.observe k.entity k.bucket) := given_spans hp k ss
  rw [hgiven] at hget
  refine hget.trans (congrArg Except.ok ?_)
  by_cases hsome : ∃ s ∈ ss, s.CountsFor scope k
  · obtain ⟨s, hs, hcounts⟩ := hsome
    have hmem : s ∈ counted scope k ss := List.mem_filter.2 ⟨hs, decide_eq_true hcounts⟩
    rw [if_pos ⟨s, hs, hcounts⟩, g.combineAll_observe k (List.ne_nil_of_mem hmem)]
  · have hnil : counted scope k ss = [] := by
      refine List.filter_eq_nil_iff.2 fun s hs hcounts => hsome ⟨s, hs, of_decide_eq_true hcounts⟩
    rw [if_neg hsome, hnil]
    rfl

/-- However spans and flushes of a new registry over empty tables follow each other, and in whatever
order windows are drained: every span that starts in a year of four digits leads to all updates of its
side, every other is dropped without a trace, and no flush meets an error. After a last flush, the minute
table of each kind has a row for just those entities and minutes for which a span counts, and it is what
the gauge reads of these spans. Relations name the caller first, whichever side reports the call. -/
theorem spans_counted_exactly {st : Store} {order : Layout → Nat → DrainOrder} {calls : List SpanCall} (capacity : Nat)
    (hst : ∀ k ∈ kinds, ∀ name ∈ Kind.tables k, ∃ t, st.tables.get? name = some t ∧ t.rows = ∅)
    (hm : Measured (spans calls)) :
    ∃ r, build (some { store := st, order := order }) capacity kinds = .ok r ∧ r.checkSpanKinds = .ok () ∧
      (∀ pre s, pre ++ [.dispatch s] <+: calls → ∃ r',
        (run r pre).dispatch s = (.ok ((Bucket.ofMillis s.start).map fun _ => s.vantage.updates), r') ∧
        ∀ e, Bucket.ofMillis s.start = .error e → r' = run r pre) ∧
      (∀ pre, pre <+: calls → ∃ r', (run r pre).flushAll = (.ok (.ok ()), r') ∧
        ∀ scope ∈ all, ∀ g ∈ scope.gauges, ∀ k,
          r'.backend.store.get ⟨scope.kind g, g.measure, .minute⟩ k =
            .ok (if ∃ s ∈ spans pre, s.CountsFor scope k then some ⟨k, g.aggregate (counted scope k (spans pre))⟩
              else none)) ∧
      ∀ (s : Span) (seenFrom : Vantage),
        let (caller, callee) := match s.vantage with
          | .server => (s.peer.getD .user, s.reporter)
          | .client => (s.reporter, s.peer.getD .user)
        (serviceCalls seenFrom).entity s = s!"{caller.service}-{callee.service}" ∧
        (replicaCalls seenFrom).entity s =
          s!"{caller.service}/{caller.replica}-{callee.service}/{callee.replica}" ∧
        (endpointCalls seenFrom).entity s =
          s!"{caller.service}/{caller.endpoint}-{callee.service}/{callee.endpoint}" := by
  obtain ⟨r, hbuild, h⟩ : ∃ r, build (some { store := st, order := order }) capacity kinds = .ok r ∧
      r.Holding kinds capacity formOf [] (fun _ => True) :=
    build_holding kinds_apart (fun k hk => formOf_measure hk) order hst
  refine ⟨r, hbuild, h.checkSpanKinds, fun pre s hpre => ?_, fun pre hpre => ?_, fun s seenFrom => ?_⟩
  · have hrun := h.after hm pre ((List.prefix_append ..).trans hpre)
    obtain ⟨more, rfl⟩ := hpre
    rw [spans_append, spans_append, List.append_assoc] at hm
    obtain ⟨r', hdispatch, -, hsame⟩ := hrun.dispatch s fun part hpart => hm.bounded (additions_part hpart)
    exact ⟨r', hdispatch, fun e he => hsame (additions_of_error he)⟩
  · have hrun := h.after hm pre hpre
    obtain ⟨more, rfl⟩ := hpre
    rw [spans_append] at hm
    obtain ⟨r', hflush, h'⟩ := hrun.flushAll (hm.bounded (additions_append _ _))
    exact ⟨r', hflush, fun scope hscope g hg k => h'.row hscope hg k⟩
  · unfold entity caller callee
    cases s.vantage <;> exact ⟨rfl, rfl, rfl⟩

/-! ## Two spans of one service -/

/-- A store with an empty table for every kind and level. -/
def spanTables : Store :=
  (kinds.flatMap fun k => Level.all.map fun level => (⟨k.1, k.2, level⟩ : Layout)).foldl Store.createTable {}

theorem spanTables_empty {k : Kind} (hk : k ∈ kinds) {name : String} (hname : name ∈ k.tables) :
    ∃ t, spanTables.tables.get? name = some t ∧ t.rows = ∅ := by
  obtain ⟨level, hlevel, rfl⟩ := List.mem_map.1 hname
  exact Store.createTables_empty (List.mem_flatMap.2 ⟨k, hk, List.mem_map.2 ⟨level, hlevel, rfl⟩⟩) {}

/-- One call that took a while, a flush, and one that failed, in the same minute. -/
def twoSpans : List SpanCall :=
  let payment : Party := ⟨"checkout", "pod-1", "/pay"⟩
  [.dispatch ⟨payment, none, .server, 1710512879000, 1710512879250, false⟩, .flushAll,
    .dispatch ⟨payment, none, .server, 1710512871000, 1710512871100, true⟩]

theorem spans_counted_exactly_twoSpans :
    ∃ r r', build (some { store := spanTables }) 1 kinds = .ok r ∧
      (run r twoSpans).flushAll = (.ok (.ok ()), r') ∧
      r'.backend.store.get ⟨service.kind .successes, .share, .minute⟩ ⟨"checkout", ⟨202403151427⟩⟩ =
        .ok (some ⟨⟨"checkout", ⟨202403151427⟩⟩, .share ⟨2, 1, 5000⟩⟩) := by
  have hm : Measured (spans twoSpans) := measured_of_total (by decide) (by decide)
  obtain ⟨r, hbuild, -, -, hflush, -⟩ := spans_counted_exactly 1 (fun k hk name hname => spanTables_empty hk hname) hm
  obtain ⟨r', hr', hrows⟩ := hflush twoSpans (List.prefix_refl _)
  have hrow := hrows service (by decide) .successes (by decide) ⟨"checkout", ⟨202403151427⟩⟩
  exact ⟨r, r', hbuild, hr', hrow.trans (congrArg Except.ok (by decide +kernel))⟩

end MetricCascade
