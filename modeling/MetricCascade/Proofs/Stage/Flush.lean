/-
Flushes and updates of a stage whose table can be read, over a gateway that refuses nothing. Every
entry is settled into what its key holds, the results are written and handed on, and the balance
between submissions, table and window is kept. What is asked of the next stage is a contract, so
that lines can be treated from their end upwards.
-/
import MetricCascade.Proofs.Stage.Frame
import MetricCascade.Proofs.Window.Merge

namespace MetricCascade

open Indicator

namespace Backend

/-! ## A gateway that refuses nothing -/

variable {b : Backend}

theorem get_faultless (h : b.faults = {}) (l : Layout) (k : Key) : b.get l k = (b.store.get l k, b.called) := by
  unfold get
  rw [h]

theorem prepare_faultless (h : b.faults = {}) (kind : WriteKind) (l : Layout) (x : Indicator) :
    b.prepare kind l x = (Operation.prepare kind l x, b.called) := by
  unfold prepare
  rw [h]

theorem persist_faultless {batch : List Operation} {t : Store} (h : b.faults = {})
    (ht : b.store.persist batch = .ok t) (l : Layout) (flushing : List Layout) :
    b.persist l flushing batch = (.ok (), { b.called.record (.batch l flushing batch true) with store := t }) := by
  unfold persist
  rw [h, ht]

end Backend

namespace Stage

open Backend Store

/-! ## Settling entries -/

/-- An entry, added to what `v` holds under its key. -/
def settle (v : View) (x : Indicator) : Indicator :=
  match v x.key with
  | none => x
  | some stored => { x with value := x.value.join stored }

theorem settle_key (v : View) (x : Indicator) : (settle v x).key = x.key := by
  unfold settle
  split <;> rfl

/-- Whether a settled entry takes the place of a row. -/
def settleKind (v : View) (y : Indicator) : WriteKind :=
  match v y.key with
  | none => .insert
  | some _ => .update

/-- The operation that a flush writes for a settled entry. -/
def settleOp (l : Layout) (v : View) (y : Indicator) : Operation := .storing (settleKind v y) l y

/-- Once settled entries are written, their aggregates are settled into the view. -/
theorem overlay_settle (v : View) {xs : List Indicator} {w : View} (h : Lists xs w) :
    overlay v (xs.map (settle v)) = settled v w := by
  obtain ⟨hnodup, hmem⟩ := h
  have hkeys : ((xs.map (settle v)).map (·.key)).Nodup := by
    rw [List.map_map]
    have hkey : (fun y : Indicator => y.key) ∘ settle v = fun x => x.key := funext fun x => settle_key v x
    rw [hkey]
    exact hnodup
  funext k
  unfold settled
  cases hk : w k with
  | none =>
    apply overlay_of_notMem
    intro y hy heq
    obtain ⟨x, hx, rfl⟩ := List.mem_map.1 hy
    rw [settle_key] at heq
    rw [hmem, heq, hk] at hx
    cases hx
  | some a =>
    have hx : settle v ⟨k, a⟩ ∈ xs.map (settle v) := List.mem_map_of_mem ((hmem ⟨k, a⟩).2 hk)
    have hover := overlay_of_mem (v := v) hkeys hx
    rw [settle_key] at hover
    rw [hover]
    unfold settle
    dsimp only
    cases v k <;> rfl

/-- The table of `s` shows `v` over a gateway that refuses nothing, and all of `v` can be read. -/
structure Legible (s : Stage) (φ : Key → Form) (v : View) (b : Backend) : Prop where
  faultless : b.faults = {}
  shows : b.store.Shows s.layout v
  fits : ∀ k a, v k = some a → Indicator.Fits ⟨k, a⟩
  current : ∀ k a, v k = some a → a.Current (φ k)

variable {σ : Type} {s : Stage} {φ : Key → Form} {v : View}

theorem Legible.extends {P : Layout → Prop} {b b' : Backend} (h : Legible s φ v b) (hb : Extends P b b')
    (hP : ∀ m, P m → m.table ≠ s.layout.table) : Legible s φ v b' :=
  ⟨hb.faults.trans h.faultless, hb.shows hP h.shows, h.fits, h.current⟩

theorem Legible.asked {b b' : Backend} (h : Legible s φ v b) (hb : Asked b b') : Legible s φ v b' :=
  h.extends (P := fun _ => False) hb.extends fun _ => False.elim

theorem measure_eq {f : Form} {a : Aggregate} (ha : a.Current f) : a.measure = f.1 := congrArg Prod.fst ha.form

/-- What a legible table holds is what its view shows. -/
theorem Legible.get {b : Backend} (h : Legible s φ v b) (hm : ∀ k, (φ k).1 = s.layout.measure) (k : Key) :
    b.store.get s.layout k = .ok ((v k).map (Indicator.mk k)) :=
  h.shows.get_readable fun a ha => ⟨h.fits k a ha, (measure_eq (h.current k a ha)).trans (hm k)⟩

/-- Settling an entry makes a current aggregate of both. -/
theorem settle_current {x : Indicator} (hv : ∀ k a, v k = some a → a.Current (φ k))
    (hx : x.value.Current (φ x.key)) :
    (settle v x).value.Current (φ x.key) ∧ (settle v x).value.raw = x.value.raw + weight (v x.key) := by
  unfold settle
  cases hstored : v x.key with
  | none => exact ⟨hx, (add_zero _).symm⟩
  | some stored =>
    have hs := hv _ _ hstored
    obtain ⟨-, -, -, hcur, hraw⟩ := Aggregate.join_spec hx.proper hs.proper hx.form hs.form
    exact ⟨hcur, hraw⟩

/-- Reconciling an entry settles it. -/
theorem reconcile_legible {x : Indicator} {b : Backend} (h : Legible s φ v b)
    (hm : ∀ k, (φ k).1 = s.layout.measure) (hx : x.value.Current (φ x.key)) :
    ∃ b', s.reconcile x b = (.ok (some (settleOp s.layout v (settle v x), settle v x)), b') ∧ Asked b b' := by
  have hasked := (reconcile_spec s x b).1
  suffices hok : (s.reconcile x b).1 = .ok (some (settleOp s.layout v (settle v x), settle v x)) by
    exact ⟨_, Prod.ext hok rfl, hasked⟩
  have hmeasure : (settle v x).measure = s.layout.measure := (measure_eq (settle_current h.current hx).1).trans (hm _)
  have hcalled : b.called.faults = {} := h.faultless
  unfold reconcile
  rw [get_faultless h.faultless, h.get hm]
  cases hstored : v x.key with
  | none =>
    have hsettle : settle v x = x := by unfold settle; rw [hstored]
    rw [hsettle] at hmeasure
    have hop : Operation.prepare .insert s.layout x = .ok (.storing .insert s.layout x) :=
      Operation.prepare_eq_ok.2 ⟨hmeasure, rfl⟩
    simp only [Option.map_none, ready, prepare_faultless hcalled, hop, settleOp, settleKind, hsettle, hstored]
  | some stored =>
    have hs := h.current _ _ hstored
    obtain ⟨joined, hjoin, hrefresh, -, -⟩ := Aggregate.join_spec hx.proper hs.proper hx.form hs.form
    have hsettle : settle v x = { x with value := x.value.join stored } := by unfold settle; rw [hstored]
    have hcombine : x.combine ⟨x.key, stored⟩ = .ok { x with value := joined } := by
      unfold combine
      rw [if_pos rfl, hjoin]
    have hfresh : ({ x with value := joined } : Indicator).refresh = .ok (settle v x) := by
      unfold Indicator.refresh
      rw [hrefresh, hsettle]
      rfl
    have hop : Operation.prepare .update s.layout (settle v x) = .ok (.storing .update s.layout (settle v x)) :=
      Operation.prepare_eq_ok.2 ⟨hmeasure, rfl⟩
    simp only [Option.map_some, hcombine, hfresh, ready, prepare_faultless hcalled, hop, settleOp, settleKind,
      settle_key, hstored]

/-- An entry of another measure is left out. -/
theorem reconcile_misfit {x : Indicator} {b : Backend} (h : Legible s φ v b)
    (hm : ∀ k, (φ k).1 = s.layout.measure) (hx : x.measure ≠ s.layout.measure) :
    ∃ b', s.reconcile x b = (.ok none, b') ∧ Asked b b' := by
  have hasked := (reconcile_spec s x b).1
  suffices hok : (s.reconcile x b).1 = .ok none by exact ⟨_, Prod.ext hok rfl, hasked⟩
  have hcalled : b.called.faults = {} := h.faultless
  unfold reconcile
  rw [get_faultless h.faultless, h.get hm]
  cases hstored : v x.key with
  | none =>
    simp only [Option.map_none, ready, prepare_faultless hcalled]
    cases hprepare : Operation.prepare .insert s.layout x with
    | error e => rfl
    | ok op => exact absurd (Operation.prepare_eq_ok.1 hprepare).1 hx
  | some stored =>
    have hne : stored.measure ≠ x.value.measure :=
      fun heq => hx (heq.symm.trans ((measure_eq (h.current _ _ hstored)).trans (hm _)))
    obtain ⟨e, he⟩ := Aggregate.combine_of_ne hne
    have hcombine : x.combine ⟨x.key, stored⟩ = .error (.misfit e) := by
      unfold combine
      rw [if_pos rfl, he]
    simp only [Option.map_some, hcombine]

/-! ## The contract of the next stage -/

/-- What the next stage receives of some rows. -/
def handed (outlet : Option (Outlet σ)) (ys : List Indicator) : List Indicator :=
  match outlet with
  | none => []
  | some next => rolledUp next.layout.level ys

theorem handed_append (outlet : Option (Outlet σ)) (ys zs : List Indicator) :
    handed outlet (ys ++ zs) = handed outlet ys ++ handed outlet zs := by
  unfold handed
  cases outlet with
  | none => rfl
  | some next => exact rolledUp_append ..

/-- What is received of a row is the row itself, rolled up to the level of the next stage. -/
theorem mem_handed {outlet : Option (Outlet σ)} {ys : List Indicator} {z : Indicator} :
    z ∈ handed outlet ys ↔ ∃ next, outlet = some next ∧ ∃ y ∈ ys, y.rollup next.layout.level = .ok z := by
  unfold handed
  cases outlet with
  | none => simp
  | some next =>
    simp only [Option.some.injEq, exists_eq_left']
    exact mem_rolledUp

/-- What the stage of layout `l` relies on. `J` describes the stages below once they have been handed
a list of indicators, all with `A`; as long as what results is within `G`, the next stage takes one
more. Work of `l` itself makes no difference to `J`, and neither do the stages below to `l`. -/
structure Outlet.Serves (outlet : Option (Outlet σ)) (l : Layout) (A : Indicator → Prop)
    (J : List Indicator → σ → Backend → Prop) (G : Backend → Prop) : Prop where
  within : Outlet.Within (fun m => m ≠ l ∧ m.table ≠ l.table) outlet
  takes : ∀ {next : Outlet σ}, outlet = some next → ∀ {F x below b}, J F below b → A x →
    G (next.submit x below b).2.2 →
    ∃ below' b', next.submit x below b = (.ok (), below', b') ∧ J (F ++ [x]) below' b'
  aside : ∀ {F below b b'}, Extends (· = l) b b' → J F below b → J F below b'
  back : ∀ {P : Layout → Prop} {b b'}, Extends P b b' → G b' → G b

variable {outlet : Option (Outlet σ)} {A : Indicator → Prop} {J : List Indicator → σ → Backend → Prop}
  {G : Backend → Prop}

theorem forward_served (ho : Outlet.Serves outlet s.layout A J G) {F : List Indicator} {y : Indicator} {c : Scene σ}
    (hA : ∀ z ∈ handed outlet [y], A z) (hJ : J F c.below c.backend)
    (hG : G (s.forward outlet y c).2.backend) :
    ∃ d, s.forward outlet y c = (.ok (), d) ∧ J (F ++ handed outlet [y]) d.below d.backend := by
  cases outlet with
  | none => exact ⟨c, rfl, by simpa [handed] using hJ⟩
  | some next =>
    cases hroll : y.rollup next.layout.level with
    | error e =>
      have hnone : handed (some next) [y] = [] := by simp [handed, rolledUp, hroll, Except.toOption]
      rw [forward_error hroll, hnone, List.append_nil]
      exact ⟨_, rfl, ho.aside (asked_record c.backend fun _ => rfl).extends hJ⟩
    | ok z =>
      have hone : handed (some next) [y] = [z] := by simp [handed, rolledUp, hroll, Except.toOption]
      rw [forward_ok hroll] at hG ⊢
      obtain ⟨below', b', hsubmit, hJ'⟩ := ho.takes rfl hJ (hA z (by simp [hone])) hG
      rw [hsubmit, hone]
      exact ⟨_, rfl, hJ'⟩

/-- A batch is prepared of every entry of the stage's measure, settled, and the next stage has received
all of them. Other entries are left out. -/
theorem prepareBatch_settles (ho : Outlet.Serves outlet s.layout A J G) (hm : ∀ k, (φ k).1 = s.layout.measure)
    {F xs : List Indicator} {c : Scene σ} (hv : Legible s φ v c.backend)
    (hxs : ∀ x ∈ xs.filter (·.measure = s.layout.measure), x.value.Current (φ x.key))
    (hA : ∀ x ∈ xs.filter (·.measure = s.layout.measure), ∀ z ∈ handed outlet [settle v x], A z)
    (hJ : J F c.below c.backend) (hG : G (s.prepareBatch outlet xs c).2.backend) :
    ∃ d, s.prepareBatch outlet xs c =
        (.ok (((xs.filter (·.measure = s.layout.measure)).map (settle v)).map (settleOp s.layout v)), d) ∧
      J (F ++ handed outlet ((xs.filter (·.measure = s.layout.measure)).map (settle v))) d.below d.backend := by
  induction xs generalizing c F with
  | nil =>
    refine ⟨c, rfl, ?_⟩
    have hnone : handed outlet [] = [] := by unfold handed; cases outlet <;> rfl
    rw [List.filter_nil, List.map_nil, hnone, List.append_nil]
    exact hJ
  | cons x rest ih =>
    by_cases hfit : x.measure = s.layout.measure
    · rw [List.filter_cons_of_pos (by simpa using hfit)] at hxs hA ⊢
      obtain ⟨b, hreconcile, hasked⟩ := reconcile_legible hv hm (hxs x (List.mem_cons_self ..))
      unfold prepareBatch at hG ⊢
      rw [hreconcile] at hG ⊢
      dsimp only at hG ⊢
      have hforward := forward_served ho (F := F) (c := { c with backend := b }) (hA x (List.mem_cons_self ..))
        (ho.aside hasked.extends hJ)
      have hext := forward_extends (s := s) ho.within (settle v x) { c with backend := b }
      rcases hf : s.forward outlet (settle v x) { c with backend := b } with ⟨fault | _, c'⟩ <;>
        rw [hf] at hG hforward hext
      · obtain ⟨d, hd, -⟩ := hforward hG
        cases hd
      · obtain ⟨d, hd, hJ'⟩ := hforward (ho.back (prepareBatch_extends ho.within rest c').1 hG)
        obtain rfl : c' = d := congrArg Prod.snd hd
        -- the stages below write to other tables, so `v` is still what this one shows
        have hlegible : Legible s φ v c'.backend := (hv.asked hasked).extends hext fun m hm => hm.2
        obtain ⟨d, hrest, hJrest⟩ := ih hlegible (fun y hy => hxs y (List.mem_cons_of_mem _ hy))
          (fun y hy => hA y (List.mem_cons_of_mem _ hy)) hJ' hG
        refine ⟨d, by dsimp only; rw [hrest]; rfl, ?_⟩
        rw [List.append_assoc, ← handed_append] at hJrest
        exact hJrest
    · rw [List.filter_cons_of_neg (by simpa using hfit)] at hxs hA ⊢
      obtain ⟨b, hreconcile, hasked⟩ := reconcile_misfit hv hm hfit
      unfold prepareBatch at hG ⊢
      rw [hreconcile] at hG ⊢
      exact ih (c := { c with backend := b }.count .addReconcileFailure) (hv.asked hasked) hxs hA
        (ho.aside hasked.extends hJ) hG

/-! ## Flushing -/

theorem writeBatch_ok {c : Scene σ} (hv : Legible s φ v c.backend) (above : List Layout) (ys : List Indicator) :
    ∃ d, s.writeBatch above (ys.map (settleOp s.layout v)) c = (.ok (), d) ∧ d.below = c.below ∧
      d.own.windows = c.own.windows ∧ d.backend.store.Shows s.layout (overlay v ys) ∧
      d.backend.written s.layout = c.backend.written s.layout ++ ys.map (settleOp s.layout v) ∧
      Extends (· = s.layout) c.backend d.backend := by
  have hext : Extends (· = s.layout) c.backend (s.writeBatch above (ys.map (settleOp s.layout v)) c).2.backend := by
    refine writeBatch_extends (P := (· = s.layout)) rfl above (fun op hop => ?_) c
    obtain ⟨y, -, rfl⟩ := List.mem_map.1 hop
    rfl
  obtain ⟨t, ht, hshows, -⟩ := hv.shows.persist (settleKind v) ys
  have ht : c.backend.store.persist (ys.map (settleOp s.layout v)) = .ok t := ht
  unfold writeBatch at hext ⊢
  rw [persist_faultless hv.faultless ht] at hext ⊢
  refine ⟨_, rfl, rfl, rfl, hshows, ?_, hext⟩
  show writtenIn s.layout (_ :: c.backend.journal) = _
  rw [writtenIn]
  simp only [Event.accepted, if_true]
  rfl

/-- What a flush has drained is prepared and settled. -/
theorem draining_settles (ho : Outlet.Serves outlet s.layout A J G) (hm : ∀ k, (φ k).1 = s.layout.measure)
    {F xs : List Indicator} {c : Scene σ} {p : WindowPair} (hv : Legible s φ v c.backend)
    (hfit : xs = (c.taken s p).filter (·.measure = s.layout.measure)) (hxs : ∀ x ∈ xs, x.value.Current (φ x.key))
    (hA : ∀ x ∈ xs, ∀ z ∈ handed outlet [settle v x], A z) (hJ : J F c.below c.backend)
    {r : Outcome (List Operation)} {d : Scene σ}
    (h : s.prepareBatch outlet (c.taken s p) (c.draining s p) = (r, d)) (hG : G d.backend) :
    r = .ok ((xs.map (settle v)).map (settleOp s.layout v)) ∧ d.own.windows = p.drain.2 ∧
      Legible s φ v d.backend ∧ d.backend.written s.layout = c.backend.written s.layout ∧
      J (F ++ handed outlet (xs.map (settle v))) d.below d.backend := by
  subst hfit
  have hasked := c.draining_asked s p
  have hv' : Legible s φ v (c.draining s p).backend := hv.asked hasked
  have hprepare := prepareBatch_settles ho hm hv' hxs hA (ho.aside hasked.extends hJ)
  have hkept := prepareBatch_kept (s := s) outlet (c.taken s p) (c.draining s p)
  obtain ⟨hext, -⟩ := prepareBatch_extends (s := s) ho.within (c.taken s p) (c.draining s p)
  rw [h] at hprepare hkept hext
  obtain ⟨d', hd, hJ'⟩ := hprepare hG
  cases hd
  have hwritten : d.backend.written s.layout = (c.draining s p).backend.written s.layout :=
    hext.written fun hno => hno.1 rfl
  exact ⟨rfl, hkept.windows, hv'.extends hext fun m hm => hm.2, hwritten.trans (hasked.written _), hJ'⟩

/-- A flush that drained what an idle stage held leaves the stage idle, and nothing waits in it. -/
theorem flushed_idle {c e : Scene σ} (hidle : c.own.windows.Idle)
    (h : e.own.windows = c.own.windows.swapped.drain.2) :
    e.flushed.own.windows.Idle ∧ e.flushed.own.windows.active.view = fun _ => none := by
  show e.own.windows.release.Idle ∧ e.own.windows.release.active.view = fun _ => none
  rw [h]
  exact hidle.release

/-- A flush of an idle stage settles what waits into its table and hands it on, but for entries of other
measures, which are dropped. -/
theorem flush_settles (ho : Outlet.Serves outlet s.layout A J G) (hm : ∀ k, (φ k).1 = s.layout.measure)
    {F xs : List Indicator} {c : Scene σ} (hidle : c.own.windows.Idle) (hv : Legible s φ v c.backend)
    (hfit : xs = c.own.windows.active.fitting (c.order s.layout) s.layout.measure)
    (hxs : ∀ x ∈ xs, x.value.Current (φ x.key))
    (hA : ∀ x ∈ xs, ∀ z ∈ handed outlet [settle v x], A z)
    (hJ : J F c.below c.backend) (above : List Layout) (hG : G (s.flush outlet above c).2.backend) :
    ∃ d, s.flush outlet above c = (.ok (.ok true), d) ∧ d.own.windows.Idle ∧
      d.own.windows.active.view = (fun _ => none) ∧
      d.backend.store.Shows s.layout (settled v (c.own.windows.active.fitView s.layout.measure)) ∧
      d.backend.written s.layout = c.backend.written s.layout ++ (xs.map (settle v)).map (settleOp s.layout v) ∧
      J (F ++ handed outlet (xs.map (settle v))) d.below d.backend := by
  have hoverlay : overlay v (xs.map (settle v)) = settled v (c.own.windows.active.fitView s.layout.measure) :=
    overlay_settle v (hfit ▸ c.own.windows.active.lists_fitting _ s.layout.measure)
  rcases hflush : s.flush outlet above c with ⟨r, e⟩
  rw [hflush] at hG
  cases hflush ▸ flush_cases s outlet above c with
  | unswapped hcommit => cases (hidle.swaps hcommit).1
  | aborted hcommit hprepare =>
    obtain ⟨-, rfl⟩ := hidle.swaps hcommit
    obtain ⟨hno, -⟩ := draining_settles ho hm hv hfit hxs hA hJ hprepare hG
    cases hno
  | unwritten hcommit hprepare =>
    obtain ⟨-, rfl⟩ := hidle.swaps hcommit
    obtain ⟨hbatch, hwindows, hv', hwritten, hJ'⟩ := draining_settles ho hm hv hfit hxs hA hJ hprepare hG
    obtain rfl : xs = [] := List.map_eq_nil_iff.1 (List.map_eq_nil_iff.1 (Except.ok.inj hbatch).symm)
    obtain ⟨hidle', hview⟩ := flushed_idle hidle hwindows
    refine ⟨_, rfl, hidle', hview, ?_, ?_, hJ'⟩
    · rw [← hoverlay]
      exact hv'.shows
    · rw [List.map_nil, List.map_nil, List.append_nil]
      exact hwritten
  | @sent _ _ op batch d e r hcommit hprepare hwrite =>
    obtain ⟨-, rfl⟩ := hidle.swaps hcommit
    have htables := (prepareBatch_extends (s := s) ho.within _ (c.draining s c.own.windows.swapped)).2 (op :: batch)
      (congrArg Prod.fst hprepare)
    -- writing only adds to what there is, so the prepared batch was within `G` already
    have hback : G d.backend := by
      have hext := writeBatch_extends (P := (· = s.layout)) (s := s) rfl above htables d
      rw [hwrite] at hext
      exact ho.back hext hG
    obtain ⟨hbatch, hwindows, hv', hwritten, hJ'⟩ := draining_settles ho hm hv hfit hxs hA hJ hprepare hback
    obtain ⟨e', hok, hbelow, hown, hshows, hwrote, hext⟩ := writeBatch_ok hv' above (xs.map (settle v))
    rw [← Except.ok.inj hbatch, hwrite] at hok
    cases hok
    obtain ⟨hidle', hview⟩ := flushed_idle hidle (hown.trans hwindows)
    refine ⟨_, rfl, hidle', hview, ?_, ?_, ?_⟩
    · rw [← hoverlay]
      exact hshows
    · rw [← hwritten]
      exact hwrote
    · exact hbelow ▸ ho.aside hext hJ'

/-! ## Flushes that are not refused -/

/-- A gateway that refuses nothing, before the tables of some stages. -/
structure Accepting (stages : List Stage) (b : Backend) : Prop where
  faultless : b.faults = {}
  present : ∀ t ∈ stages, b.store.hasTable t.layout = true

theorem Accepting.extends {stages : List Stage} {P : Layout → Prop} {b b' : Backend} (h : Accepting stages b)
    (hb : Extends P b b') : Accepting stages b' :=
  ⟨hb.faults.trans h.faultless, fun t ht => (hb.present _).trans (h.present t ht)⟩

theorem Accepting.tail {rest : List Stage} {b : Backend} (h : Accepting (s :: rest) b) : Accepting rest b :=
  ⟨h.faultless, fun t ht => h.present t (List.mem_cons_of_mem _ ht)⟩

/-- Where nothing is refused, a batch for a table that is there is written. -/
theorem writeBatch_accepted {rest : List Stage} {c : Scene σ} (h : Accepting (s :: rest) c.backend)
    (above : List Layout) {batch : List Operation} (hbatch : ∀ op ∈ batch, op.table = s.layout.table) :
    (s.writeBatch above batch c).1 = .ok () := by
  have hpresent : ∀ op ∈ batch, c.backend.store.tables.contains op.table = true := by
    intro op hop
    rw [hbatch op hop]
    exact h.present s (List.mem_cons_self ..)
  unfold writeBatch
  rw [persist_faultless h.faultless (persist_eq_ok hpresent)]

/-- Where nothing is refused, no flush meets an error. -/
theorem flush_accepted {rest : List Stage} {outlet : Option (Outlet σ)} {P : Layout → Prop}
    (ho : Outlet.Within P outlet) {c : Scene σ} (h : Accepting (s :: rest) c.backend) (above : List Layout)
    (e : FlushError) : (s.flush outlet above c).1 ≠ .ok (.error e) := by
  intro hrefused
  have hcases := flush_cases s outlet above c
  generalize s.flush outlet above c = result at hrefused hcases
  cases hcases with
  | unswapped _ => cases hrefused
  | aborted _ _ => cases hrefused
  | unwritten _ _ => cases hrefused
  | @sent p _ op batch d _ _ _ hprepare hwrite =>
    obtain ⟨hext, hbatch⟩ := prepareBatch_extends (s := s) ho (c.taken s p) (c.draining s p)
    rw [hprepare] at hext hbatch
    have hdrained : Extends P c.backend (c.draining s p).backend := (c.draining_asked s p).extends
    have haccepted := writeBatch_accepted ((h.extends hdrained).extends hext) above (hbatch _ rfl)
    rw [hwrite] at haccepted
    cases haccepted
    cases hrefused

/-- Where nothing is refused, no flush of a line meets an error. -/
theorem flushAllIn_accepted : ∀ (stages : List Stage) (states : States stages) (b : Backend),
    Accepting stages b → ∀ e, (flushAllIn stages states b).1 ≠ .ok (.error e)
  | [], (), b, _, e => fun hno => nomatch hno
  | s :: rest, states, b, h, e => by
    have haccepted := fun e => flush_accepted (c := ⟨states.1, states.2, b⟩)
      (downstream_within s rest []) h [] e
    have hext := flushHead_extends s rest states b
    have hhead : s.flushHead rest states b = s.flush (s.downstream rest []) [] ⟨states.1, states.2, b⟩ := rfl
    rw [flushAllIn_cons]
    rcases hf : s.flushHead rest states b with ⟨fault | e' | swapped, d⟩ <;> rw [hf] at hext hhead
    · exact fun hno => nomatch hno
    · rw [← hhead] at haccepted
      exact absurd rfl (haccepted e')
    · exact flushAllIn_accepted rest d.below d.backend (h.tail.extends hext) e

end Stage

end MetricCascade
