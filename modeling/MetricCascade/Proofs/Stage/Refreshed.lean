/-
Every figure that is computed. A visit of a stage computes figures while the entries of its window are reconciled
with what is stored, and when its update is merged. If properties last, each figure that a use of stages leads to,
in whatever stage, is computed of something that updates may be, and so computing it meets no fault.
-/
import MetricCascade.Proofs.Stage.Lasting
import MetricCascade.Proofs.Stage.Runs

namespace MetricCascade

namespace Stage

open Backend Store

variable {T : Layout → Prop} {A E : Layout → Indicator → Prop} {R : Layout → String → Row → Prop} {σ : Type} {s : Stage}
  {outlet : Option (Outlet σ)} {I : σ → Prop} {xs : List Indicator} {x y : Indicator} {b : Backend} {c : Scene σ}

/-! ## Batches -/

/-- While `s` prepares a batch of some entries, it reconciles `x` with what the backend `b` has. -/
inductive Reaches (s : Stage) (outlet : Option (Outlet σ)) : List Indicator → Scene σ → (x : Indicator) → (b : Backend) →
    Prop
  | first {x : Indicator} {rest : List Indicator} {c : Scene σ} : Reaches s outlet (x :: rest) c x c.backend
  /-- An entry before it is left out. -/
  | dropped {e x : Indicator} {rest : List Indicator} {c : Scene σ} {b b' : Backend}
      (hreconcile : s.reconcile e c.backend = (.ok none, b))
      (hlater : Reaches s outlet rest ({ c with backend := b }.count .addReconcileFailure) x b') :
      Reaches s outlet (e :: rest) c x b'
  /-- An entry before it is done with. -/
  | later {e x y : Indicator} {rest : List Indicator} {c d : Scene σ} {op : Operation} {b b' : Backend}
      (hreconcile : s.reconcile e c.backend = (.ok (some (op, y)), b))
      (hforward : s.forward outlet y { c with backend := b } = (.ok (), d)) (hlater : Reaches s outlet rest d x b') :
      Reaches s outlet (e :: rest) c x b'

/-- What was reconciled is an entry again, and nothing stored has changed. -/
theorem reconciled_lasting (h : Lasting T A E R) (hT : T s.layout) (hb : b.store.Each T R) (hx : E s.layout x)
    {r : Option (Operation × Indicator)} {b' : Backend} (hreconcile : s.reconcile x b = (.ok r, b')) :
    b'.store.Each T R ∧ ∀ op y, r = some (op, y) → E s.layout y ∧ y.measure = s.layout.measure := by
  obtain ⟨r', b'', hok, hstore, hop⟩ := reconcile_lasting h hT hb hx
  cases hok.symm.trans hreconcile
  exact ⟨hstore ▸ hb, fun op y hr => ⟨(hop op y hr).1, (hop op y hr).2.1⟩⟩

/-- Handing on leaves everything as it should be. -/
theorem forwarded_lasting (h : Lasting T A E R) (ho : Outlet.Lasts T A R I outlet) (hT : T s.layout) (hy : E s.layout y)
    (hmeasure : y.measure = s.layout.measure) (hI : I c.below) (hb : c.backend.store.Each T R) {d : Scene σ}
    (hforward : s.forward outlet y c = (.ok (), d)) : I d.below ∧ d.backend.store.Each T R := by
  obtain ⟨d', hok, hI', hb'⟩ := forward_lasting h ho hT hy hmeasure hI hb
  cases hok.symm.trans hforward
  exact ⟨hI', hb'⟩

/-- Each entry is reconciled with what is as it should be. -/
theorem Reaches.lasting (h : Lasting T A E R) (ho : Outlet.Lasts T A R I outlet) (hT : T s.layout)
    (hreaches : Reaches s outlet xs c x b) (hxs : ∀ x ∈ xs, E s.layout x) (hI : I c.below)
    (hb : c.backend.store.Each T R) : E s.layout x ∧ b.store.Each T R := by
  induction hreaches with
  | first => exact ⟨hxs _ (List.mem_cons_self ..), hb⟩
  | dropped hreconcile _ ih =>
    obtain ⟨hb', -⟩ := reconciled_lasting h hT hb (hxs _ (List.mem_cons_self ..)) hreconcile
    exact ih (fun z hz => hxs z (List.mem_cons_of_mem _ hz)) hI hb'
  | @later _ _ _ _ c _ op b' _ hreconcile hforward _ ih =>
    obtain ⟨hb', hop⟩ := reconciled_lasting h hT hb (hxs _ (List.mem_cons_self ..)) hreconcile
    obtain ⟨hy, hmeasure⟩ := hop _ _ rfl
    obtain ⟨hI', hb''⟩ := forwarded_lasting (c := { c with backend := b' }) h ho hT hy hmeasure hI hb' hforward
    exact ih (fun z hz => hxs z (List.mem_cons_of_mem _ hz)) hI' hb''

/-- What is handed on is an update that the next stage should get, and that stage is as it should be then. -/
theorem Handed.lasting (h : Lasting T A E R) {next : Outlet σ} (ho : Outlet.Lasts T A R I (some next)) (hT : T s.layout)
    {below : σ} (hhanded : Handed s next xs c x below b) (hxs : ∀ x ∈ xs, E s.layout x) (hI : I c.below)
    (hb : c.backend.store.Each T R) : A next.layout x ∧ I below ∧ b.store.Each T R := by
  induction hhanded with
  | first hreconcile hroll =>
    obtain ⟨hb', hop⟩ := reconciled_lasting h hT hb (hxs _ (List.mem_cons_self ..)) hreconcile
    obtain ⟨hy, hmeasure⟩ := hop _ _ rfl
    exact ⟨h.rollup hT (ho next rfl).1 hy hmeasure hroll, hI, hb'⟩
  | dropped hreconcile _ ih =>
    obtain ⟨hb', -⟩ := reconciled_lasting h hT hb (hxs _ (List.mem_cons_self ..)) hreconcile
    exact ih (fun z hz => hxs z (List.mem_cons_of_mem _ hz)) hI hb'
  | @later _ _ _ _ c _ op b' _ _ hreconcile hforward _ ih =>
    obtain ⟨hb', hop⟩ := reconciled_lasting h hT hb (hxs _ (List.mem_cons_self ..)) hreconcile
    obtain ⟨hy, hmeasure⟩ := hop _ _ rfl
    obtain ⟨hI', hb''⟩ := forwarded_lasting (c := { c with backend := b' }) h ho hT hy hmeasure hI hb' hforward
    exact ih (fun z hz => hxs z (List.mem_cons_of_mem _ hz)) hI' hb''

/-! ## Visits -/

namespace Visit

/-- What a visit finds is as it should be, and so is its update. -/
structure Lasts (T : Layout → Prop) (A E : Layout → Indicator → Prop) (R : Layout → String → Row → Prop) (v : Visit) :
    Prop where
  layout : T v.stage.layout
  layouts : ∀ t ∈ v.rest, T t.layout
  own : v.scene.own.windows.Each (E v.stage.layout)
  below : v.scene.below.Each E
  store : v.scene.backend.store.Each T R
  update : ∀ x, v.update = some x → A v.stage.layout x

/-- The visit computes the figure of `y`. What it leads to in the stages below is computed by other visits. -/
inductive Refreshes (v : Visit) : Indicator → Prop
  /-- An entry of the window is combined with what is stored. -/
  | reconciled {a : Attempt} {p : WindowPair} {x y : Indicator} {b : Backend} (hflushes : v.Flushes)
      (hcommit : v.scene.own.windows.begin.2.commit v.scene.own.windows.begin.1 = (true, a, p))
      (hreaches : Reaches v.stage (v.stage.downstream v.rest v.above) (v.scene.taken v.stage p)
        (v.scene.draining v.stage p) x b)
      (hy : v.stage.Reconciles x b y) : Refreshes v y
  /-- The update is merged into the window. -/
  | merged {x y : Indicator} (hupdate : v.update = some x) (hroom : ¬ v.Flushes)
      (hy : v.scene.own.windows.active.Refreshes x y) : Refreshes v y
  /-- The update is merged into the window that a flush left. -/
  | mergedAfter {x y : Indicator} {r : Except FlushError Bool} {d : Scene (States v.rest)} (hupdate : v.update = some x)
      (hflushes : v.Flushes) (hflush : v.flush = (.ok r, d)) (hy : d.own.windows.active.Refreshes x y) : Refreshes v y

/-- Figures are computed of what updates of the stage may be. -/
theorem Lasts.refreshes (h : Lasting T A E R) {v : Visit} (hv : v.Lasts T A E R) (hy : v.Refreshes y) :
    A v.stage.layout y := by
  have ho : Outlet.Lasts T A R (States.Each E) (v.stage.downstream v.rest v.above) := downstream_lasts h hv.layouts v.above
  cases hy with
  | @reconciled a p _ _ _ _ hcommit hreaches hy =>
    have hentries := (hv.own.attempted hcommit).taken v.scene v.stage
    obtain ⟨hx, hb⟩ := hreaches.lasting h ho hv.layout hentries hv.below hv.store
    exact hy.lasting h hv.layout hb hx
  | merged hupdate _ hy => exact hv.own.active.refreshes h (hv.update _ hupdate) hy
  | mergedAfter hupdate _ hflush hy =>
    obtain ⟨r', d', hok, hown, -⟩ := flush_lasting (c := v.scene) h ho hv.layout hv.own hv.below hv.store v.above
    cases hok.symm.trans hflush
    exact hown.active.refreshes h (hv.update _ hupdate) hy

end Visit

variable {stages : List Stage} {states : States stages}

/-- Every visit that a call leads to finds what it should. -/
theorem Visits.lasts (h : Lasting T A E R) {above : List Layout} {i : Nat} {update : Option Indicator} {v : Visit}
    (hvisits : Visits stages above i update states b v) (hT : ∀ t ∈ stages, T t.layout) (hs : states.Each E)
    (hb : b.store.Each T R) (hupdate : ∀ x, update = some x → ∀ t, stages[i]? = some t → A t.layout x) :
    v.Lasts T A E R := by
  induction hvisits with
  | @here s rest _ _ _ _ =>
    exact ⟨hT s (List.mem_cons_self ..), fun t ht => hT t (List.mem_cons_of_mem _ ht), hs.1, hs.2, hb,
      fun x hx => hupdate x hx s rfl⟩
  | passed _ ih => exact ih (fun t ht => hT t (List.mem_cons_of_mem _ ht)) hs.2 hb hupdate
  | @handed s t rest above _ states b _ a p j x _ _ _ hcommit hnext ht hhanded _ ih =>
    have hrest : ∀ t ∈ rest, T t.layout := fun t ht => hT t (List.mem_cons_of_mem _ ht)
    have heach : states.1.windows.Each (E s.layout) ∧ states.2.Each E := hs
    have hentries := (heach.1.attempted hcommit).taken (Scene.mk states.1 states.2 b) s
    have ho : Outlet.Lasts T A R (States.Each E) (s.downstream rest above) := downstream_lasts h hrest above
    rw [downstream_eq hnext ht above] at ho
    obtain ⟨hx, hbelow, hb'⟩ := hhanded.lasting h ho (hT s (List.mem_cons_self ..)) hentries heach.2 hb
    refine ih hrest hbelow hb' ?_
    rintro _ ⟨⟩ t' ht'
    obtain rfl : t = t' := Option.some.inj (ht.symm.trans ht')
    exact hx

theorem VisitsAll.lasts (h : Lasting T A E R) {v : Visit} (hvisits : VisitsAll stages states b v)
    (hT : ∀ t ∈ stages, T t.layout) (hs : states.Each E) (hb : b.store.Each T R) : v.Lasts T A E R := by
  induction hvisits with
  | head hvisits => exact hvisits.lasts h hT hs hb nofun
  | flushed hflush _ ih =>
    obtain ⟨r, d, hok, -, hbelow, hb'⟩ := flushHead_lasting h hT hs hb
    cases hok.symm.trans hflush
    exact ih (fun t ht => hT t (List.mem_cons_of_mem _ ht)) hbelow hb'
  | failed hflush _ ih =>
    obtain ⟨r, d, hok, -, hbelow, hb'⟩ := flushHead_lasting h hT hs hb
    cases hok.symm.trans hflush
    exact ih (fun t ht => hT t (List.mem_cons_of_mem _ ht)) hbelow hb'

/-! ## Uses -/

namespace Use

theorem Visits.lasts (h : Lasting T A E R) (hT : ∀ t ∈ stages, T t.layout) (hs : states.Each E) (hb : b.store.Each T R)
    {u : Use} (hu : Suit A stages [u]) {v : Visit} (hv : u.Visits states b v) : v.Lasts T A E R := by
  cases u with
  | submit i x =>
    refine Stage.Visits.lasts h hv hT hs hb ?_
    rintro _ ⟨⟩
    exact hu i x (List.mem_singleton_self _)
  | flush i => exact Stage.Visits.lasts h hv hT hs hb nofun
  | flushAll => exact VisitsAll.lasts h hv hT hs hb

/-- No fault aborts a use, and it leaves everything as it should be. -/
theorem attempt_lasting (h : Lasting T A E R) (hT : ∀ t ∈ stages, T t.layout) (hs : states.Each E) (hb : b.store.Each T R)
    {u : Use} (hu : Suit A stages [u]) :
    ∃ states' b', attempt (states, b) u = .ok (states', b') ∧ states'.Each E ∧ b'.store.Each T R := by
  cases u with
  | submit i x =>
    obtain ⟨states', b', hsubmit, hs', hb'⟩ :=
      submitIn_lasting h stages [] i x states b hT (hu i x (List.mem_singleton_self _)) hs hb
    exact ⟨states', b', by simp only [attempt, hsubmit, Except.map], hs', hb'⟩
  | flush i =>
    obtain ⟨r, states', b', hflush, hs', hb'⟩ := flushIn_lasting h stages i states b hT hs hb
    exact ⟨states', b', by simp only [attempt, hflush, Except.map], hs', hb'⟩
  | flushAll =>
    obtain ⟨r, states', b', hflush, hs', hb'⟩ := flushAllIn_lasting h stages states b hT hs hb
    exact ⟨states', b', by simp only [attempt, hflush, Except.map], hs', hb'⟩

/-- No fault aborts a run, and it leaves everything as it should be. -/
theorem run_lasting (h : Lasting T A E R) (hT : ∀ t ∈ stages, T t.layout) (hs : states.Each E) (hb : b.store.Each T R)
    {uses : List Use} (huses : Suit A stages uses) :
    ∃ states' b', run (states, b) uses = .ok (states', b') ∧ states'.Each E ∧ b'.store.Each T R := by
  induction uses generalizing states b with
  | nil => exact ⟨states, b, rfl, hs, hb⟩
  | cons u rest ih =>
    have hone : Suit A stages [u] := fun i x hx => huses i x (List.mem_singleton.1 hx ▸ List.mem_cons_self ..)
    obtain ⟨states₂, b₂, hattempt, hs₂, hb₂⟩ := attempt_lasting h hT hs hb hone
    obtain ⟨states', b', hrun, hs', hb'⟩ := ih hs₂ hb₂ fun i x hx => huses i x (List.mem_cons_of_mem _ hx)
    refine ⟨states', b', ?_, hs', hb'⟩
    unfold run
    rw [hattempt]
    exact hrun

end Use

end Stage

end MetricCascade
