/-
Windows as views. Merging an update of the right form into current entries succeeds and adds the
update under its key. A pair that is idle grants the next swap, after which the drained window is
empty and the pair idle again.
-/
import MetricCascade.Proofs.Stage.Balance
import MetricCascade.Window.Pair

namespace MetricCascade

/-- Indicators are the entries of a view, each of them once. -/
def Lists (xs : List Indicator) (v : View) : Prop :=
  (xs.map (·.key)).Nodup ∧ ∀ x, x ∈ xs ↔ v x.key = some x.value

theorem Lists.perm {xs ys : List Indicator} {v : View} (h : Lists xs v) (hperm : ys.Perm xs) : Lists ys v :=
  ⟨(hperm.map _).nodup_iff.2 h.1, fun x => hperm.mem_iff.trans (h.2 x)⟩

theorem Lists.eq_nil {xs : List Indicator} (h : Lists xs fun _ => none) : xs = [] := by
  rw [List.eq_nil_iff_forall_not_mem]
  intro x hx
  cases (h.2 x).1 hx

namespace Window

/-- The aggregates of a window. -/
def view (w : Window) : View := w.entries.get?

theorem view_insert (d : Dict Key Aggregate) (k : Key) (a : Aggregate) :
    (d.insert k a).get? = Function.update d.get? k (some a) := by
  funext j
  rw [Dict.get?_insert, Function.update_apply]

/-- An update of the form of its entry is merged; nothing else about the window changes but its size. -/
theorem merge_ok {f : Form} {w : Window} {x : Indicator} (hw : ∀ a, w.view x.key = some a → a.Current f)
    (hx : x.value.Proper) (hf : x.value.form = f) :
    ∃ w', w.merge x = (.ok (.ok ()), w') ∧ w'.view = mergeInto w.view x ∧ w'.writers = w.writers ∧
      w'.reading = w.reading := by
  unfold merge
  cases hold : w.entries.get? x.key with
  | none =>
    rw [Aggregate.refresh_current hx]
    refine ⟨_, rfl, ?_, rfl, rfl⟩
    simp only [view, view_insert, mergeInto, hold]
  | some old =>
    have ha := hw old hold
    obtain ⟨joined, hjoin, hrefresh, -, -⟩ := Aggregate.join_spec ha.proper hx ha.form hf
    simp only [hjoin, hrefresh]
    refine ⟨_, rfl, ?_, rfl, rfl⟩
    simp only [view, view_insert, mergeInto, hold]

theorem mem_indicators {w : Window} {x : Indicator} : x ∈ w.indicators ↔ w.view x.key = some x.value := by
  unfold indicators view
  rw [Dict.get?_eq_some_iff, List.mem_map]
  constructor
  · rintro ⟨e, he, rfl⟩
    exact he
  · intro h
    exact ⟨_, h, rfl⟩

theorem nodup_indicators (w : Window) : (w.indicators.map (·.key)).Nodup := by
  unfold indicators
  rw [List.map_map]
  exact w.entries.nodup

theorem lists_indicators (w : Window) : Lists w.indicators w.view :=
  ⟨w.nodup_indicators, fun _ => mem_indicators⟩

/-- In whatever order, the entries are taken out once each. -/
theorem lists_drain (w : Window) (order : DrainOrder) : Lists (w.drain order).1 w.view :=
  w.lists_indicators.perm (order.perm _)

/-! ## Entries of one measure -/

/-- The entries of a measure, as they are drained. -/
def fitting (w : Window) (order : DrainOrder) (m : Measure) : List Indicator :=
  (w.drain order).1.filter fun x => x.measure = m

/-- The aggregates of a measure. -/
def fitView (w : Window) (m : Measure) : View := fun k => (w.view k).filter fun a => a.measure = m

theorem fitView_eq_some {w : Window} {m : Measure} {k : Key} {a : Aggregate} :
    w.fitView m k = some a ↔ w.view k = some a ∧ a.measure = m := by
  unfold fitView
  rw [Option.filter_eq_some_iff, decide_eq_true_eq]

theorem lists_fitting (w : Window) (order : DrainOrder) (m : Measure) : Lists (w.fitting order m) (w.fitView m) := by
  obtain ⟨hnodup, hmem⟩ := w.lists_drain order
  refine ⟨hnodup.sublist (List.filter_sublist.map _), fun x => ?_⟩
  unfold fitting
  rw [List.mem_filter, hmem, fitView_eq_some, decide_eq_true_eq]
  exact Iff.rfl

/-- Where all entries are of the measure, nothing is left out. -/
theorem fitView_eq {w : Window} {m : Measure} (h : ∀ k a, w.view k = some a → a.measure = m) :
    w.fitView m = w.view := by
  funext k
  unfold fitView
  cases hk : w.view k with
  | none => rfl
  | some a =>
    rw [Option.filter_some, decide_eq_true (h k a hk)]
    rfl

end Window

namespace WindowPair

/-- No attempt is alive, and the retired window is empty and free. -/
structure Idle (p : WindowPair) : Prop where
  claims : p.claims = 0
  free : p.retired.reading = false
  empty : p.retired.entries = ∅

theorem idle_initial : Idle {} := ⟨rfl, rfl, rfl⟩

theorem merge_ok {f : Form} {p : WindowPair} {x : Indicator} (hp : p.Idle)
    (hw : ∀ a, p.active.view x.key = some a → a.Current f) (hx : x.value.Proper) (hf : x.value.form = f) :
    ∃ p', p.merge x = (.ok (.ok ()), p') ∧ p'.Idle ∧ p'.active.view = mergeInto p.active.view x := by
  obtain ⟨w, hmerge, hview, -, -⟩ := Window.merge_ok (w := p.active.enter) hw hx hf
  unfold merge
  rw [hmerge]
  exact ⟨_, rfl, ⟨hp.claims, hp.free, hp.empty⟩, hview⟩

theorem Idle.merge {p : WindowPair} (hp : p.Idle) (x : Indicator) : (p.merge x).2.Idle :=
  ⟨hp.claims, hp.free, hp.empty⟩

/-- The pair while the window that was active is waiting to be read out. -/
def swapped (p : WindowPair) : WindowPair :=
  { active := p.retired, retired := p.active.startReading, claims := p.claims + 1 }

/-- An idle pair grants and commits an attempt. -/
theorem Idle.commit {p : WindowPair} (hp : p.Idle) :
    p.begin.2.commit p.begin.1 = (true, ⟨true, true⟩, p.swapped) := by
  have hgranted : p.begin.1 = ⟨true, false⟩ := by
    simp only [begin, hp.claims, hp.free, decide_true, Bool.not_false, Bool.and_self]
  rw [hgranted]
  rfl

theorem Idle.swaps {p q : WindowPair} {swapped : Bool} {a : Attempt} (hp : p.Idle)
    (h : p.begin.2.commit p.begin.1 = (swapped, a, q)) : swapped = true ∧ q = p.swapped := by
  rw [hp.commit] at h
  cases h
  exact ⟨rfl, rfl⟩

/-- Once the drained window is released, the pair is idle and nothing waits in it. -/
theorem Idle.release {p : WindowPair} (hp : p.Idle) :
    p.swapped.drain.2.release.Idle ∧ p.swapped.drain.2.release.active.view = fun _ => none := by
  refine ⟨⟨hp.claims, rfl, rfl⟩, ?_⟩
  funext k
  show p.retired.entries.get? k = none
  rw [hp.empty]
  rfl

end WindowPair

end MetricCascade
