/-
Every call that a stage gets, also from the stages above it. A use of a line visits the stage that is
meant, and, while that stage flushes, those that it hands its entries to. Whatever went wrong before,
each stage is ready when it is visited, so that its flush is not refused and takes what the window held
when the visitor came.
-/
import MetricCascade.Proofs.Stage.Ready

namespace MetricCascade

namespace Stage

open Backend

variable {σ : Type}

/-! ## What a flush hands on -/

/-- While `s` prepares a batch of some entries, it submits `x` to the next stage, which finds `below` and
`b` as they are then. -/
inductive Handed (s : Stage) (next : Outlet σ) : List Indicator → Scene σ → (x : Indicator) → (below : σ) →
    (b : Backend) → Prop
  /-- The first entry is handed on. -/
  | first {e x y : Indicator} {rest : List Indicator} {c : Scene σ} {op : Operation} {b : Backend}
      (hreconcile : s.reconcile e c.backend = (.ok (some (op, y)), b)) (hroll : y.rollup next.layout.level = .ok x) :
      Handed s next (e :: rest) c x c.below b
  /-- The first entry is left out, and a later one handed on. -/
  | dropped {e x : Indicator} {rest : List Indicator} {c : Scene σ} {b b' : Backend} {below : σ}
      (hreconcile : s.reconcile e c.backend = (.ok none, b))
      (hlater : Handed s next rest ({ c with backend := b }.count .addReconcileFailure) x below b') :
      Handed s next (e :: rest) c x below b'
  /-- The first entry is done with, and a later one handed on. -/
  | later {e x y : Indicator} {rest : List Indicator} {c d : Scene σ} {op : Operation} {b b' : Backend} {below : σ}
      (hreconcile : s.reconcile e c.backend = (.ok (some (op, y)), b))
      (hforward : s.forward (some next) y { c with backend := b } = (.ok (), d))
      (hlater : Handed s next rest d x below b') : Handed s next (e :: rest) c x below b'

/-- The next stage finds what it keeps. -/
theorem Handed.keeps {s : Stage} {next : Outlet σ} {I : σ → Prop} {P : Layout → List Layout → List Operation → Prop}
    (ho : Outlet.Keeps I P (some next)) {xs : List Indicator} {c : Scene σ} {x : Indicator} {below : σ} {b : Backend}
    (h : Handed s next xs c x below b) (hI : I c.below) : I below := by
  induction h with
  | first _ _ => exact hI
  | dropped _ _ ih => exact ih hI
  | @later _ _ y _ c _ _ b _ _ _ hforward _ ih =>
    apply ih
    have hforwarded := (forward_keeps (s := s) ho y (c := { c with backend := b }) hI).1
    rwa [hforward] at hforwarded

/-! ## Visits -/

/-- A call that a stage gets. -/
structure Visit where
  stage : Stage
  /-- The stages below it. -/
  rest : List Stage
  /-- The stages whose flushes led to it. -/
  above : List Layout
  /-- What is submitted; `none` if the stage is only asked to flush. -/
  update : Option Indicator
  scene : Scene (States rest)

namespace Visit

def flush (v : Visit) : Outcome (Except FlushError Bool) × Scene (States v.rest) :=
  v.stage.flush (v.stage.downstream v.rest v.above) v.above v.scene

def submit (v : Visit) (x : Indicator) : Outcome Unit × Scene (States v.rest) :=
  v.stage.submit (v.stage.downstream v.rest v.above) v.above x v.scene

/-- The visit leads to a flush. -/
def Flushes (v : Visit) : Prop := v.update = none ∨ v.stage.threshold ≤ v.scene.own.windows.active.size

/-- What the visit leaves. -/
def after (v : Visit) : Scene (States v.rest) :=
  match v.update with
  | none => v.flush.2
  | some x => (v.submit x).2

/-- The visit finds stages that are ready, and leaves them so. A flush is not refused and sends what was
in the window before. An update that leads to one is not seen by it: nothing is sent but by the flush, and
the update is alone in the window then. -/
structure Sound (v : Visit) : Prop where
  ready : v.scene.own.Ready v.stage ∧ v.scene.below.Ready
  left : v.after.own.Ready v.stage ∧ v.after.below.Ready
  granted : v.flush.1 ≠ .ok (.ok false)
  sent : Sent (fun l flushing ops => flushing = v.above ++ [v.stage.layout] →
    l = v.stage.layout ∧ ops.length ≤ v.stage.threshold ∧
      ∀ op ∈ ops, Stems v.stage v.scene.own.windows.active.indicators op) v.scene.backend v.after.backend
  unseen : ∀ x, v.update = some x → v.Flushes →
    Sent (fun _ _ _ => False) v.flush.2.backend (v.submit x).2.backend
  alone : ∀ x, v.update = some x → v.Flushes → (v.submit x).1 = .ok () →
    (v.submit x).2.own.windows.active.view = gathered [x]

theorem sound (v : Visit) (hown : v.scene.own.Ready v.stage) (hbelow : v.scene.below.Ready) : v.Sound := by
  have hkeeps := downstream_keeps v.stage v.rest v.above
  obtain ⟨hgranted, ⟨hready, -⟩, hbelow', hsent⟩ := flush_ready hkeeps hown hbelow v.above
  -- what is sent under the name of this very flush is not sent by a flush that it led to
  have hmono {l : Layout} {flushing : List Layout} {ops : List Operation}
      (h : Fitting v.rest (v.above ++ [v.stage.layout]).length l flushing ops ∨
        Own v.stage v.above v.scene.own.windows.active l flushing ops) (hflushing : flushing = v.above ++ [v.stage.layout]) :
      l = v.stage.layout ∧ ops.length ≤ v.stage.threshold ∧
        ∀ op ∈ ops, Stems v.stage v.scene.own.windows.active.indicators op := by
    rcases h with ⟨-, -, -, -, hlonger⟩ | ⟨hl, -, hlength, hstems⟩
    · rw [hflushing] at hlonger
      exact absurd hlonger (Nat.lt_irrefl _)
    · exact ⟨hl, hlength.trans hown.bounded, hstems⟩
  obtain ⟨stage, rest, above, update, scene⟩ := v
  cases update with
  | none =>
    exact ⟨⟨hown, hbelow⟩, ⟨hready, hbelow'⟩, hgranted, hsent.mono fun _ _ _ => hmono, nofun, nofun⟩
  | some x =>
    obtain ⟨hready', hbelow'', hsent', halone⟩ := submit_ready hkeeps hown hbelow above x
    refine ⟨⟨hown, hbelow⟩, ⟨hready', hbelow''⟩, hgranted, hsent'.mono fun _ _ _ => hmono, ?_, ?_⟩
    · rintro _ ⟨⟩ (hnone | hfull)
      · cases hnone
      · exact submit_full hfull above x
    · rintro _ ⟨⟩ (hnone | hfull) hok
      · cases hnone
      · exact halone hfull hok

end Visit

/-- The visits of a call for the stage at a position, where the flushes of `above` have led to it. -/
inductive Visits : (stages : List Stage) → (above : List Layout) → Nat → Option Indicator → States stages →
    Backend → Visit → Prop
  /-- The stage that is meant. -/
  | here {s : Stage} {rest : List Stage} {above : List Layout} {update : Option Indicator}
      {states : States (s :: rest)} {b : Backend} :
      Visits (s :: rest) above 0 update states b ⟨s, rest, above, update, ⟨states.1, states.2, b⟩⟩
  /-- It is further down. -/
  | passed {s : Stage} {rest : List Stage} {above : List Layout} {i : Nat} {update : Option Indicator}
      {states : States (s :: rest)} {b : Backend} {v : Visit} (hvisits : Visits rest above i update states.2 b v) :
      Visits (s :: rest) above (i + 1) update states b v
  /-- It flushes, and hands an entry on to the next stage. -/
  | handed {s t : Stage} {rest : List Stage} {above : List Layout} {update : Option Indicator}
      {states : States (s :: rest)} {b b' : Backend} {a : Attempt} {p : WindowPair} {j : Nat} {x : Indicator}
      {below : States rest} {v : Visit} (hflushes : update = none ∨ s.threshold ≤ states.1.windows.active.size)
      (hcommit : states.1.windows.begin.2.commit states.1.windows.begin.1 = (true, a, p))
      (hnext : s.next = some j) (ht : rest[j]? = some t)
      (hhanded : Handed s ⟨t.layout, submitIn rest (above ++ [s.layout]) j⟩ (Scene.taken ⟨states.1, states.2, b⟩ s p)
        (Scene.draining ⟨states.1, states.2, b⟩ s p) x below b')
      (hvisits : Visits rest (above ++ [s.layout]) j (some x) below b' v) :
      Visits (s :: rest) above 0 update states b v

theorem Visits.sound {stages : List Stage} {above : List Layout} {i : Nat} {update : Option Indicator}
    {states : States stages} {b : Backend} {v : Visit} (h : Visits stages above i update states b v)
    (hstates : states.Ready) : v.Sound := by
  induction h with
  | here => exact Visit.sound _ hstates.1 hstates.2
  | passed _ ih => exact ih hstates.2
  | @handed s t rest above _ _ _ _ _ _ j _ _ _ _ _ hnext ht hhanded _ ih =>
    apply ih
    exact hhanded.keeps (downstream_eq hnext ht above ▸ downstream_keeps s rest above) hstates.2

/-- The visits of a flush of all stages. -/
inductive VisitsAll : (stages : List Stage) → States stages → Backend → Visit → Prop
  | head {s : Stage} {rest : List Stage} {states : States (s :: rest)} {b : Backend} {v : Visit}
      (hvisits : Visits (s :: rest) [] 0 none states b v) : VisitsAll (s :: rest) states b v
  | flushed {s : Stage} {rest : List Stage} {states : States (s :: rest)} {b : Backend} {swapped : Bool}
      {c : Scene (States rest)} {v : Visit} (hflush : s.flushHead rest states b = (.ok (.ok swapped), c))
      (hvisits : VisitsAll rest c.below c.backend v) : VisitsAll (s :: rest) states b v
  | failed {s : Stage} {rest : List Stage} {states : States (s :: rest)} {b : Backend} {e : FlushError}
      {c : Scene (States rest)} {v : Visit} (hflush : s.flushHead rest states b = (.ok (.error e), c))
      (hvisits : VisitsAll rest c.below (c.backend.record (.flushFailed e)) v) : VisitsAll (s :: rest) states b v

theorem VisitsAll.sound {stages : List Stage} {states : States stages} {b : Backend} {v : Visit}
    (h : VisitsAll stages states b v) (hstates : states.Ready) : v.Sound := by
  induction h with
  | head hvisits => exact hvisits.sound hstates
  | @flushed _ _ _ b _ _ _ hflush _ ih =>
    have hhead := (flushHead_ready hstates b).2.1.2
    rw [hflush] at hhead
    exact ih hhead
  | @failed _ _ _ b _ _ _ hflush _ ih =>
    have hhead := (flushHead_ready hstates b).2.1.2
    rw [hflush] at hhead
    exact ih hhead

/-! ## Uses -/

/-- What a line is used for. -/
inductive Use where
  | submit (i : Nat) (x : Indicator)
  | flush (i : Nat)
  | flushAll

namespace Use

variable {stages : List Stage}

/-- What a use leaves. -/
def perform (states : States stages) (b : Backend) : Use → States stages × Backend
  | submit i x => (submitIn stages [] i x states b).2
  | flush i => (flushIn stages i states b).2
  | flushAll => (flushAllIn stages states b).2

/-- The visits of a use. -/
def Visits (states : States stages) (b : Backend) : Use → Visit → Prop
  | submit i x => Stage.Visits stages [] i (some x) states b
  | flush i => Stage.Visits stages [] i none states b
  | flushAll => VisitsAll stages states b

theorem ready {states : States stages} (h : states.Ready) (b : Backend) (u : Use) :
    (u.perform states b).1.Ready ∧ Sent (Fitting stages 0) b (u.perform states b).2 := by
  cases u with
  | submit i x => exact submitIn_ready stages [] i x states b h
  | flush i => exact (flushIn_ready stages i states b h).2
  | flushAll => exact flushAllIn_ready stages states b h

theorem Visits.sound {states : States stages} (h : states.Ready) {b : Backend} {u : Use} {v : Visit}
    (hv : u.Visits states b v) : v.Sound := by
  cases u with
  | submit i x => exact Stage.Visits.sound hv h
  | flush i => exact Stage.Visits.sound hv h
  | flushAll => exact VisitsAll.sound hv h

end Use

/-- The states of stages after some uses. Every use finds a store and a gateway of its own, so that
nothing is assumed of what else becomes of them. -/
def worked (stages : List Stage) (uses : List (Use × Backend)) : States stages :=
  uses.foldl (fun states u => (u.1.perform states u.2).1) (.initial stages)

theorem worked_ready (stages : List Stage) (uses : List (Use × Backend)) : (worked stages uses).Ready := by
  suffices h : ∀ states : States stages, states.Ready →
      (uses.foldl (fun states u => (u.1.perform states u.2).1) states).Ready from
    h _ (States.ready_initial stages)
  induction uses with
  | nil => exact fun _ h => h
  | cons u uses ih => exact fun states h => ih _ (u.1.ready h u.2).1

/-- Whatever stages were used for, and whatever happened then, all of them are ready. The next use leaves
them ready, every stage that it visits is so when it is visited, no flush that is asked for is refused, and no
batch is longer than a window of its stage may be. -/
theorem always_ready (stages : List Stage) (uses : List (Use × Backend)) :
    (worked stages uses).Ready ∧
      ∀ b, (∀ i, i < stages.length → (flushIn stages i (worked stages uses) b).1 ≠ .ok (.ok false)) ∧
        ∀ u : Use, (u.perform (worked stages uses) b).1.Ready ∧
          Sent (fun l _ ops => ∃ s ∈ stages, s.layout = l ∧ ops.length ≤ s.threshold) b
            (u.perform (worked stages uses) b).2 ∧
          ∀ v, u.Visits (worked stages uses) b v → v.Sound := by
  have h := worked_ready stages uses
  refine ⟨h, fun b => ⟨fun i => (flushIn_ready stages i _ b h).1, fun u => ?_⟩⟩
  obtain ⟨hready, hsent⟩ := u.ready h b
  refine ⟨hready, hsent.mono fun l flushing ops hfit => ?_, fun v hv => hv.sound h⟩
  obtain ⟨s, hs, hlayout, hlength, -⟩ := hfit
  exact ⟨s, hs, hlayout, hlength⟩

/-- A stage whose tables are missing and whose window is full: the flush fails, and the update that led to it
is alone in the window. -/
example : (worked [⟨⟨"calls", .count, .minute⟩, 1, none⟩]
    [(.submit 0 (.count "a" ⟨202403151427⟩ 1), {}), (.submit 0 (.count "b" ⟨202403151427⟩ 1), {})]).1.windows.active.indicators =
    [.count "b" ⟨202403151427⟩ 1] := by rfl

end Stage

end MetricCascade
