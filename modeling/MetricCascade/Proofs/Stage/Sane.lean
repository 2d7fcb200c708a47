/-
Stages that no fault can abort. The only fault is a quotient by minus one, so it is enough that no
average counts a negative number of samples: neither in a window nor in a row of the stages' tables.
That lasts, and so every operation keeps it, whatever the gateway refuses.
-/
import MetricCascade.Proofs.Stage.Lasting

namespace MetricCascade

/-! ## Aggregates -/

namespace Aggregate

/-- An average does not count a negative number of samples. -/
def Sane : Aggregate → Prop
  | average a => 0 ≤ a.count
  | _ => True

theorem Proper.sane {a : Aggregate} (h : a.Proper) : a.Sane := by
  cases a with
  | average a => exact Int.le_of_lt h
  | _ => trivial

theorem Sane.refresh {a : Aggregate} (h : a.Sane) : ∃ b, a.refresh = .ok b ∧ b.Sane := by
  cases a with
  | count n => exact ⟨_, rfl, trivial⟩
  | average a =>
    have hcount : 0 ≤ a.count := h
    simp only [Aggregate.refresh, Average.refresh]
    -- the fault needs a count of minus one
    by_cases h0 : a.count = 0
    · rw [if_pos h0]
      exact ⟨_, rfl, hcount⟩
    · rw [if_neg h0, if_neg (by omega)]
      exact ⟨_, rfl, hcount⟩
  | share s => exact ⟨_, rfl, trivial⟩
  | percentile h => exact ⟨_, rfl, trivial⟩

theorem Sane.combine {a b c : Aggregate} (ha : a.Sane) (hb : b.Sane) (h : a.combine b = .ok c) : c.Sane := by
  cases a <;> cases b <;> simp only [Aggregate.combine, reduceCtorEq] at h
  case count.count => cases h; trivial
  case average.average => cases h; exact Int.add_nonneg ha hb
  case share.share => cases h; trivial
  case percentile.percentile =>
    split at h
    · cases h; trivial
    · cases h

end Aggregate

/-! ## Windows -/

def Window.Sane (w : Window) : Prop := ∀ k a, w.entries.get? k = some a → a.Sane

namespace WindowPair

structure Sane (p : WindowPair) : Prop where
  active : p.active.Sane
  retired : p.retired.Sane

theorem sane_initial : Sane {} := ⟨fun _ _ h => (nomatch h), fun _ _ h => (nomatch h)⟩

theorem sane_iff {p : WindowPair} : p.Sane ↔ p.Each fun x => x.value.Sane :=
  ⟨fun h => ⟨h.active, h.retired⟩, fun h => ⟨h.active, h.retired⟩⟩

end WindowPair

/-! ## Stores -/

namespace Store

/-- Whatever can be read in certain tables is sane. -/
def SaneOn (T : String → Prop) (s : Store) : Prop :=
  ∀ name, T name → ∀ id row x, s.row? name id = some row → row.indicator? = some x → x.value.Sane

/-- Whatever can be read in a row is sane. -/
def SaneRow (_ : Layout) (_ : String) (row : Row) : Prop := ∀ x, row.indicator? = some x → x.value.Sane

variable {T : String → Prop} {s : Store}

/-- Every name is that of a table of minutes, so it is enough to look at tables of layouts. -/
theorem saneOn_iff : s.SaneOn T ↔ s.Each (fun l => T l.table) SaneRow := by
  constructor
  · exact fun h l hl id row hrow x hread => h l.table hl id row x hrow hread
  · exact fun h name hname id row x hrow hread => h ⟨name, .count, .minute⟩ hname id row hrow x hread

/-- Tables without rows hold nothing that is not sane. -/
theorem saneOn_empty (h : ∀ name, T name → ∀ t, s.tables.get? name = some t → t.rows = ∅) : s.SaneOn T :=
  saneOn_iff.2 (each_empty fun l hl => h l.table hl)

/-- Only the row of a sane indicator is ever written. -/
theorem sane_ofIndicator {x y : Indicator} (hx : x.value.Sane) (h : (Row.ofIndicator x).indicator? = some y) :
    y.value.Sane := by
  obtain ⟨-, rfl⟩ := Row.indicator?_ofIndicator.1 h
  exact hx

/-- To be sane is a property that lasts. -/
theorem lasting_sane (T : String → Prop) :
    Lasting (fun l => T l.table) (fun _ x => x.value.Sane) (fun _ x => x.value.Sane) SaneRow where
  update hx := hx
  refresh hx := hx.refresh
  combine ha hb hjoin := ha.combine hb hjoin
  stored _ _ _ hx _ := fun _ hread => sane_ofIndicator hx hread
  read _ hrow hread := hrow _ (Layout.ofRow_eq_ok.1 hread).1
  rollup _ _ hx _ hroll := (Indicator.rollup_eq_ok_iff.1 hroll).2.2 ▸ hx

end Store

namespace Stage

open Backend Store

variable {σ : Type} {T : String → Prop} {s : Stage} {I : σ → Prop}

/-! ## Lines -/

/-- The next stage, and those below it, take every sane update without a fault; `I` describes them. -/
def Outlet.Safe (T : String → Prop) (I : σ → Prop) (outlet : Option (Outlet σ)) : Prop :=
  ∀ next, outlet = some next → ∀ x below b, x.value.Sane → I below → b.store.SaneOn T →
    ∃ below' b', next.submit x below b = (.ok (), below', b') ∧ I below' ∧ b'.store.SaneOn T

/-- Every window of every stage is sane. -/
def States.Sane : {stages : List Stage} → States stages → Prop
  | [], () => True
  | _ :: _, (own, below) => own.windows.Sane ∧ below.Sane

theorem States.sane_initial : ∀ stages : List Stage, (States.initial stages).Sane
  | [] => trivial
  | _ :: rest => ⟨WindowPair.sane_initial, States.sane_initial rest⟩

theorem States.sane_iff : ∀ {stages : List Stage} {states : States stages},
    states.Sane ↔ states.Each fun _ x => x.value.Sane
  | [], () => Iff.rfl
  | _ :: _, (_, _) => and_congr WindowPair.sane_iff States.sane_iff

/-- No fault aborts an update of the stages below. -/
theorem downstream_safe {rest : List Stage} (hT : ∀ t ∈ rest, T t.layout.table) (above : List Layout) :
    Outlet.Safe T States.Sane (s.downstream rest above) := by
  intro next hnext x below b hx hbelow hb
  obtain ⟨-, htakes⟩ := downstream_lasts (s := s) (lasting_sane T) hT above next hnext
  obtain ⟨below', b', hsubmit, hbelow', hb'⟩ := htakes x below b hx (States.sane_iff.1 hbelow) (saneOn_iff.1 hb)
  exact ⟨below', b', hsubmit, States.sane_iff.2 hbelow', saneOn_iff.2 hb'⟩

/-- No fault aborts a flush of a line. -/
theorem flushAllIn_sane (stages : List Stage) (states : States stages) (b : Backend)
    (hT : ∀ s ∈ stages, T s.layout.table) (hs : states.Sane) (hb : b.store.SaneOn T) :
    ∃ r states' b', flushAllIn stages states b = (.ok r, states', b') ∧ states'.Sane ∧ b'.store.SaneOn T := by
  obtain ⟨r, states', b', hflush, hs', hb'⟩ :=
    flushAllIn_lasting (lasting_sane T) stages states b hT (States.sane_iff.1 hs) (saneOn_iff.1 hb)
  exact ⟨r, states', b', hflush, States.sane_iff.2 hs', saneOn_iff.2 hb'⟩

end Stage

end MetricCascade
