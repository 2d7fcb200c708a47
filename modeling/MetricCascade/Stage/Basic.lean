/-
A stage of a cascade merges the updates of one kind at one level in a pair of windows. When its
active window is full it is flushed: the windows swap, what is stored already is added to each entry
that was drained, the results are handed to the next stage and written in one batch.
Whatever a flush meets, it leaves the claim on the windows and the flushing mark as it found them.
-/
import MetricCascade.Stage.Backend
import MetricCascade.Window.Pair

namespace MetricCascade

/-- What a stage has counted since it was made. -/
structure Tally where
  merged : Nat := 0
  mergeFailures : Nat := 0
  flushes : Nat := 0
  inserts : Nat := 0
  updates : Nat := 0
  reconcileFailures : Nat := 0
  forwarded : Nat := 0
  forwardFailures : Nat := 0
  persistFailures : Nat := 0
  deriving DecidableEq

namespace Tally

def addMerged (t : Tally) : Tally := { t with merged := t.merged + 1 }

def addMergeFailure (t : Tally) : Tally := { t with mergeFailures := t.mergeFailures + 1 }

def addReconcileFailure (t : Tally) : Tally := { t with reconcileFailures := t.reconcileFailures + 1 }

def addForwarded (t : Tally) : Tally := { t with forwarded := t.forwarded + 1 }

def addForwardFailure (t : Tally) : Tally := { t with forwardFailures := t.forwardFailures + 1 }

def addPersistFailure (t : Tally) : Tally := { t with persistFailures := t.persistFailures + 1 }

/-- Counts a batch that was written. -/
def addFlush (t : Tally) (batch : List Operation) : Tally :=
  { t with
    flushes := t.flushes + 1
    inserts := t.inserts + batch.countP (fun op => !op.isUpdate)
    updates := t.updates + batch.countP Operation.isUpdate }

end Tally

/-- What is fixed about a stage. -/
structure Stage where
  layout : Layout
  /-- The number of entries at which the active window is flushed before the next update. -/
  capacity : Nat
  /-- Who receives what was flushed: so many stages are passed over below this one. -/
  next : Option Nat

namespace Stage

/-- What changes about a stage. -/
structure State where
  windows : WindowPair := {}
  flushing : Bool := false
  tally : Tally := {}

/-- The number of entries that makes the active window full. -/
def threshold (s : Stage) : Nat := max s.capacity 1

/-- A stage that receives indicators, as seen from the stage before it; `σ` is what the stages from
there on have to remember. -/
structure Outlet (σ : Type) where
  layout : Layout
  submit : Indicator → σ → Backend → Outcome Unit × σ × Backend

/-- The state of a stage, of the stages below it, and of what all share. -/
structure Scene (σ : Type) where
  own : State
  below : σ
  backend : Backend

namespace Scene

variable {σ : Type}

def record (c : Scene σ) (e : Event) : Scene σ := { c with backend := c.backend.record e }

def count (c : Scene σ) (f : Tally → Tally) : Scene σ :=
  { c with own := { c.own with tally := f c.own.tally } }

def setWindows (c : Scene σ) (p : WindowPair) : Scene σ := { c with own := { c.own with windows := p } }

def setFlushing (c : Scene σ) (on : Bool) : Scene σ := { c with own := { c.own with flushing := on } }

/-- The order in which the stage of a layout drains its window now. -/
def order (c : Scene σ) (l : Layout) : DrainOrder := c.backend.order l c.own.tally.merged

end Scene

variable {σ : Type}

/-! ## Flushing -/

/-- Prepares the operation that stores an indicator, or reports why it cannot be stored. -/
def ready (s : Stage) (kind : WriteKind) (x : Indicator) (b : Backend) :
    Option (Operation × Indicator) × Backend :=
  match b.prepare kind s.layout x with
  | (.ok op, b) => (some (op, x), b)
  | (.error e, b) => (none, b.record (.prepareFailed s.layout x.key e))

/-- Adds what is stored under the key of an entry, and prepares the operation that stores the sum: an
update where there was a row, an insertion of the entry as it is where there was none. -/
def reconcile (s : Stage) (x : Indicator) (b : Backend) :
    Outcome (Option (Operation × Indicator)) × Backend :=
  match b.get s.layout x.key with
  | (.error e, b) => (.ok none, b.record (.lookupFailed s.layout x.key e))
  | (.ok none, b) =>
    let (r, b) := s.ready .insert x b
    (.ok r, b)
  | (.ok (some stored), b) =>
    match x.combine stored with
    | .error e => (.ok none, b.record (.combineFailed s.layout x.key e))
    | .ok joined =>
      match joined.refresh with
      | .error fault => (.error fault, b)
      | .ok fresh =>
        let (r, b) := s.ready .update fresh b
        (.ok r, b)

/-- Hands an indicator on to the next stage, in the window of that stage's level. -/
def forward (s : Stage) (outlet : Option (Outlet σ)) (x : Indicator) (c : Scene σ) :
    Outcome Unit × Scene σ :=
  match outlet with
  | none => (.ok (), c)
  | some next =>
    match x.rollup next.layout.level with
    | .error e =>
      (.ok (), (c.count .addForwardFailure).record (.forwardFailed s.layout x.key next.layout e))
    | .ok rolled =>
      let c := c.count .addForwarded
      let (r, below, backend) := next.submit rolled c.below c.backend
      (r, { c with below := below, backend := backend })

/-- Reconciles and forwards the entries in order. An entry that cannot be reconciled is left out of
the batch and not forwarded. -/
def prepareBatch (s : Stage) (outlet : Option (Outlet σ)) :
    List Indicator → Scene σ → Outcome (List Operation) × Scene σ
  | [], c => (.ok [], c)
  | x :: rest, c =>
    match s.reconcile x c.backend with
    | (.error fault, b) => (.error fault, { c with backend := b })
    | (.ok none, b) => s.prepareBatch outlet rest ({ c with backend := b }.count .addReconcileFailure)
    | (.ok (some (op, y)), b) =>
      match s.forward outlet y { c with backend := b } with
      | (.error fault, c) => (.error fault, c)
      | (.ok (), c) =>
        let (r, c) := s.prepareBatch outlet rest c
        (r.map (op :: ·), c)

/-- Writes a batch and counts it. -/
def writeBatch (s : Stage) (above : List Layout) (batch : List Operation) (c : Scene σ) :
    Except FlushError Unit × Scene σ :=
  match c.backend.persist s.layout (above ++ [s.layout]) batch with
  | (.error e, b) => (.error ⟨s.layout, e⟩, { c with backend := b }.count .addPersistFailure)
  | (.ok (), b) => (.ok (), { c with backend := b }.count (·.addFlush batch))

/-- Drains the retired window and writes what was drained. Nothing is written if nothing is left to
be written. -/
def flushRetired (s : Stage) (outlet : Option (Outlet σ)) (above : List Layout) (c : Scene σ) :
    Outcome (Except FlushError Unit) × Scene σ :=
  let (entries, windows) := c.own.windows.drain (c.order s.layout)
  let c := (c.setWindows windows).record (.drained s.layout entries.length)
  match s.prepareBatch outlet entries c with
  | (.error fault, c) => (.error fault, c)
  | (.ok [], c) => (.ok (.ok ()), c)
  | (.ok batch, c) =>
    let (r, c) := s.writeBatch above batch c
    (.ok r, c)

/-- Swaps the windows and flushes the one that retires; the answer is `false` if the swap is refused.
`above` are the stages whose flush led to this one. -/
def flush (s : Stage) (outlet : Option (Outlet σ)) (above : List Layout) (c : Scene σ) :
    Outcome (Except FlushError Bool) × Scene σ :=
  let (attempt, windows) := c.own.windows.begin
  match windows.commit attempt with
  | (false, _, windows) => (.ok (.ok false), c.setWindows windows.release)
  | (true, _, windows) =>
    let (r, c) := s.flushRetired outlet above ((c.setWindows windows).setFlushing true)
    (r.map (·.map fun () => true), (c.setWindows c.own.windows.release).setFlushing false)

/-! ## Submitting -/

/-- Merges an update, or reports why it was dropped. -/
def merge (s : Stage) (x : Indicator) (c : Scene σ) : Outcome Unit × Scene σ :=
  match c.own.windows.merge x with
  | (.error fault, p) => (.error fault, c.setWindows p)
  | (.ok (.ok ()), p) => (.ok (), (c.setWindows p).count .addMerged)
  | (.ok (.error e), p) =>
    (.ok (), ((c.setWindows p).count .addMergeFailure).record (.updateRejected s.layout x.key e))

/-- Flushes first if the active window is full, and then merges the update. An error of the flush is
only reported. -/
def submit (s : Stage) (outlet : Option (Outlet σ)) (above : List Layout) (x : Indicator)
    (c : Scene σ) : Outcome Unit × Scene σ :=
  if s.threshold ≤ c.own.windows.active.size then
    match s.flush outlet above c with
    | (.error fault, c) => (.error fault, c)
    | (.ok (.error e), c) => s.merge x (c.record (.flushFailed e))
    | (.ok (.ok _), c) => s.merge x c
  else s.merge x c

end Stage

end MetricCascade
