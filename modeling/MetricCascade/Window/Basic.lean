/-
A window of merged indicators: one aggregate for each key. Beside the entries stand their number,
the number of registered writers, and whether the window is being read out. The entries come out in
an order that nothing is said of.
-/
import MetricCascade.Dict
import MetricCascade.Metric.Indicator

namespace MetricCascade

/-- An order in which entries are taken out of a window. -/
structure DrainOrder where
  arrange : List Indicator → List Indicator
  perm : ∀ xs, (arrange xs).Perm xs

namespace DrainOrder

/-- The order in which the keys of the entries came. -/
def insertion : DrainOrder := ⟨fun xs => xs, .refl⟩

end DrainOrder

structure Window where
  entries : Dict Key Aggregate := ∅
  /-- The number of entries, kept so that it can be read without looking at them. -/
  size : Nat := 0
  /-- Writers that have registered and not left yet. -/
  writers : Nat := 0
  /-- Set while the entries wait for their reader. -/
  reading : Bool := false

namespace Window

def get? (w : Window) (k : Key) : Option Indicator := (w.entries.get? k).map (Indicator.mk k)

/-- Merges an indicator into the entry of its key, or makes it the first one, and computes the
figure. A misfit leaves the window as it was; a fault leaves an entry combined but its figure old,
and a first one out. -/
def merge (w : Window) (x : Indicator) : Outcome (Except CombineError Unit) × Window :=
  match w.entries.get? x.key with
  | some old =>
    match old.combine x.value with
    | .error e => (.ok (.error (.misfit e)), w)
    | .ok joined =>
      match joined.refresh with
      | .error fault => (.error fault, { w with entries := w.entries.insert x.key joined })
      | .ok fresh => (.ok (.ok ()), { w with entries := w.entries.insert x.key fresh })
  | none =>
    match x.value.refresh with
    | .error fault => (.error fault, w)
    | .ok fresh =>
      (.ok (.ok ()), { w with entries := w.entries.insert x.key fresh, size := w.size + 1 })

/-- Every entry as an indicator. -/
def indicators (w : Window) : List Indicator := w.entries.entries.map fun e => ⟨e.1, e.2⟩

/-- Takes every entry out. -/
def drain (w : Window) (order : DrainOrder := .insertion) : List Indicator × Window :=
  (order.arrange w.indicators, { w with entries := ∅, size := 0 })

/-- Registers a writer. -/
def enter (w : Window) : Window := { w with writers := w.writers + 1 }

/-- Takes a writer off. -/
def leave (w : Window) : Window := { w with writers := w.writers - 1 }

def isWriting (w : Window) : Bool := 0 < w.writers

def startReading (w : Window) : Window := { w with reading := true }

def finishReading (w : Window) : Window := { w with reading := false }

end Window

end MetricCascade
