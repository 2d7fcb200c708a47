/-
Properties that last. What is asked of updates, of entries and of rows lasts if it is kept by each single thing
that is done with them: an update whose figure is computed makes an entry, updates of one key combine to one, an
entry is stored as a row and read back from it, and an entry that is rolled up is an update for another stage. Then
no fault aborts an operation of stages, and every one of them keeps all entries and rows so, whatever the gateway
refuses.
-/
import MetricCascade.Proofs.Stage.Frame
import MetricCascade.Proofs.Time.Widen

namespace MetricCascade

variable {P : Indicator → Prop} {T : Layout → Prop} {A E : Layout → Indicator → Prop} {R : Layout → String → Row → Prop}
  {l : Layout}

/-- Updates for a stage have `A`, entries of its windows `E`, and rows of its table `R`, each as the layout of the
stage asks for it. `T` are the layouts of the stages. -/
structure Lasting (T : Layout → Prop) (A E : Layout → Indicator → Prop) (R : Layout → String → Row → Prop) : Prop where
  update {l : Layout} {x : Indicator} : E l x → A l x
  refresh {l : Layout} {x : Indicator} : A l x → ∃ a, x.value.refresh = .ok a ∧ E l ⟨x.key, a⟩
  combine {l : Layout} {k : Key} {a b j : Aggregate} : A l ⟨k, a⟩ → A l ⟨k, b⟩ → a.combine b = .ok j → A l ⟨k, j⟩
  /-- A row is asked for by every layout of its table. -/
  stored {l m : Layout} {x : Indicator} : T l → T m → m.table = l.table → E l x → x.measure = l.measure →
    R m x.key.text (Row.ofIndicator x)
  read {l : Layout} {row : Row} {x : Indicator} : T l → R l x.key.text row → l.ofRow row = .ok x → E l x
  rollup {l m : Layout} {x y : Indicator} : T l → T m → E l x → x.measure = l.measure → x.rollup m.level = .ok y → A m y

/-! ## Indicators -/

namespace Lasting

/-- What two updates of one key combine to is one again. -/
theorem joined (h : Lasting T A E R) {x y z : Indicator} (hx : A l x) (hy : A l y) (hjoin : x.combine y = .ok z) : A l z := by
  unfold Indicator.combine at hjoin
  split at hjoin
  · rename_i hkey
    split at hjoin
    · rename_i j hj
      cases hjoin
      have hy' : A l ⟨x.key, y.value⟩ := hkey ▸ hy
      exact h.combine hx hy' hj
    · cases hjoin
  · cases hjoin

/-- The figure of an update can be computed, and makes it an entry. -/
theorem refreshed (h : Lasting T A E R) {x : Indicator} (hx : A l x) : ∃ y, x.refresh = .ok y ∧ E l y := by
  obtain ⟨a, ha, hentry⟩ := h.refresh hx
  refine ⟨⟨x.key, a⟩, ?_, hentry⟩
  unfold Indicator.refresh
  rw [ha]
  rfl

end Lasting

/-! ## Windows -/

namespace Window

/-- Every entry has the property. -/
def Each (P : Indicator → Prop) (w : Window) : Prop := ∀ k a, w.entries.get? k = some a → P ⟨k, a⟩

theorem Each.insert {d : Dict Key Aggregate} {k : Key} {a : Aggregate} (hd : ∀ k a, d.get? k = some a → P ⟨k, a⟩)
    (ha : P ⟨k, a⟩) : ∀ j b, (d.insert k a).get? j = some b → P ⟨j, b⟩ := by
  intro j b hb
  rw [Dict.get?_insert] at hb
  split at hb
  · rename_i hjk
    subst hjk
    exact Option.some.inj hb ▸ ha
  · exact hd j b hb

theorem Each.indicators {w : Window} (hw : w.Each P) {x : Indicator} (hx : x ∈ w.indicators) : P x := by
  obtain ⟨e, he, rfl⟩ := List.mem_map.1 hx
  exact hw e.1 e.2 (Dict.get?_eq_some_iff.2 he)

/-- While `x` is merged, the figure of `y` is computed: of `x` itself, or of what it is combined to. -/
inductive Refreshes (w : Window) (x : Indicator) : Indicator → Prop
  | first (hold : w.entries.get? x.key = none) : Refreshes w x x
  | joined {old j : Aggregate} (hold : w.entries.get? x.key = some old) (hjoin : old.combine x.value = .ok j) :
      Refreshes w x ⟨x.key, j⟩

theorem Each.refreshes (h : Lasting T A E R) {w : Window} {x y : Indicator} (hw : w.Each (E l)) (hx : A l x)
    (hy : w.Refreshes x y) : A l y := by
  cases hy with
  | first _ => exact hx
  | joined hold hjoin => exact h.combine (h.update (hw _ _ hold)) hx hjoin

/-- An update is merged or refused, and the entries stay what they should be. -/
theorem Each.merge (h : Lasting T A E R) {w : Window} {x : Indicator} (hw : w.Each (E l)) (hx : A l x) :
    ∃ r w', w.merge x = (.ok r, w') ∧ w'.Each (E l) := by
  unfold Window.merge
  cases hold : w.entries.get? x.key with
  | none =>
    obtain ⟨fresh, hfresh, hentry⟩ := h.refresh hx
    simp only [hfresh]
    exact ⟨_, _, rfl, Each.insert hw hentry⟩
  | some old =>
    dsimp only
    cases hjoin : old.combine x.value with
    | error e => exact ⟨_, _, rfl, hw⟩
    | ok j =>
      obtain ⟨fresh, hfresh, hentry⟩ := h.refresh (Each.refreshes h hw hx (.joined hold hjoin))
      simp only [hfresh]
      exact ⟨_, _, rfl, Each.insert hw hentry⟩

end Window

namespace WindowPair

/-- Every entry of both windows has the property. -/
structure Each (P : Indicator → Prop) (p : WindowPair) : Prop where
  active : p.active.Each P
  retired : p.retired.Each P

theorem each_initial : Each P {} := ⟨fun _ _ h => (nomatch h), fun _ _ h => (nomatch h)⟩

theorem Each.merge (h : Lasting T A E R) {p : WindowPair} {x : Indicator} (hp : p.Each (E l)) (hx : A l x) :
    ∃ r p', p.merge x = (.ok r, p') ∧ p'.Each (E l) := by
  have hactive : p.active.enter.Each (E l) := hp.active
  obtain ⟨r, w, hmerge, hw⟩ := hactive.merge h hx
  unfold WindowPair.merge
  rw [hmerge]
  exact ⟨_, _, rfl, hw, hp.retired⟩

theorem Each.commit {p : WindowPair} (hp : p.Each P) (a : Attempt) : (p.commit a).2.2.Each P := by
  unfold WindowPair.commit
  split
  · exact ⟨hp.retired, hp.active⟩
  · exact hp

/-- An attempt at a swap moves no entry out of the pair. -/
theorem Each.attempted {p q : WindowPair} {swapped : Bool} {a : Attempt} (hp : p.Each P)
    (hcommit : p.begin.2.commit p.begin.1 = (swapped, a, q)) : q.Each P := by
  have heach := Each.commit (p := p.begin.2) ⟨hp.active, hp.retired⟩ p.begin.1
  rw [hcommit] at heach
  exact heach

theorem Each.drain {p : WindowPair} (hp : p.Each P) : p.drain.2.Each P := ⟨hp.active, fun _ _ h => by cases h⟩

theorem Each.taken {σ : Type} {p : WindowPair} (hp : p.Each P) (c : Stage.Scene σ) (s : Stage) :
    ∀ x ∈ c.taken s p, P x :=
  fun _ hx => hp.retired.indicators (Stage.Scene.mem_taken.1 hx)

end WindowPair

/-! ## Stores -/

/-- The operation stores an entry of the measure of a layout. -/
def Operation.Storing (E : Layout → Indicator → Prop) (l : Layout) (op : Operation) : Prop :=
  ∃ kind x, op = .storing kind l x ∧ E l x ∧ x.measure = l.measure

namespace Store

/-- Every row of the tables is as the layouts ask for it. -/
def Each (T : Layout → Prop) (R : Layout → String → Row → Prop) (s : Store) : Prop :=
  ∀ l, T l → ∀ id row, s.row? l.table id = some row → R l id row

variable {s : Store}

/-- Tables without rows are as any layout asks for it. -/
theorem each_empty (h : ∀ l, T l → ∀ t, s.tables.get? l.table = some t → t.rows = ∅) : s.Each T R := by
  intro l hl id row hrow
  unfold row? at hrow
  cases ht : s.tables.get? l.table with
  | none =>
    rw [ht] at hrow
    cases hrow
  | some t =>
    rw [ht, Option.bind_some, h l hl t ht] at hrow
    cases hrow

theorem Each.get (h : Lasting T A E R) (hs : s.Each T R) (hl : T l) {k : Key} {x : Indicator}
    (hget : s.get l k = .ok (some x)) (hkey : x.key = k) : E l x := by
  obtain ⟨row, hrow, hread⟩ := get_eq_some hget
  exact h.read hl (hkey ▸ hs l hl _ row hrow) hread

theorem Each.write {op : Operation} (hs : s.Each T R)
    (hop : ∀ l, T l → l.table = op.table → R l op.id op.row) : (s.write op).Each T R := by
  intro l hl id row hrow
  unfold row? at hrow
  rw [tables_write] at hrow
  split at hrow
  · rename_i htable
    cases ht : s.tables.get? l.table with
    | none =>
      rw [ht] at hrow
      cases hrow
    | some t =>
      rw [ht] at hrow
      simp only [Option.map_some, Option.bind_some, Dict.get?_insert] at hrow
      split at hrow
      · rename_i hid
        subst hid
        exact Option.some.inj hrow ▸ hop l hl htable.symm
      · refine hs l hl id row ?_
        unfold row?
        rw [ht, Option.bind_some, hrow]
  · exact hs l hl id row hrow

/-- Writing what stores entries of one layout leaves every row as it should be. -/
theorem Each.foldl_write (h : Lasting T A E R) (hl : T l) {batch : List Operation} (hs : s.Each T R)
    (hbatch : ∀ op ∈ batch, op.Storing E l) : (batch.foldl Store.write s).Each T R := by
  induction batch generalizing s with
  | nil => exact hs
  | cons op batch ih =>
    obtain ⟨kind, x, rfl, hx, hmeasure⟩ := hbatch op (List.mem_cons_self ..)
    refine ih (hs.write fun m hm htable => ?_) fun o ho => hbatch o (List.mem_cons_of_mem _ ho)
    exact h.stored hl hm htable hx hmeasure

end Store

namespace Stage

open Backend Store

variable {σ : Type} {s : Stage} {outlet : Option (Outlet σ)} {I : σ → Prop} {x : Indicator} {b : Backend} {c : Scene σ}

/-! ## Stages -/

/-- While an entry is reconciled, the figure of `y` is computed: of what it is combined to. -/
inductive Reconciles (s : Stage) (x : Indicator) (b : Backend) : Indicator → Prop
  | joined {stored y : Indicator} (hget : (b.get s.layout x.key).1 = .ok (some stored)) (hjoin : x.combine stored = .ok y) :
      Reconciles s x b y

theorem Reconciles.lasting (h : Lasting T A E R) (hT : T s.layout) (hb : b.store.Each T R) (hx : E s.layout x)
    {y : Indicator} (hy : s.Reconciles x b y) : A s.layout y := by
  cases hy with
  | @joined stored _ hget hjoin =>
    have hkey : stored.key = x.key := by
      unfold Indicator.combine at hjoin
      split at hjoin
      · rename_i hkey
        exact hkey.symm
      · cases hjoin
    have hstored : E s.layout stored := hb.get h hT (get_ok hget) hkey
    exact h.joined (h.update hx) (h.update hstored) hjoin

/-- An entry is reconciled or left out, and what is stored of it is an entry again. -/
theorem reconcile_lasting (h : Lasting T A E R) (hT : T s.layout) (hb : b.store.Each T R) (hx : E s.layout x) :
    ∃ r b', s.reconcile x b = (.ok r, b') ∧ b'.store = b.store ∧
      ∀ op y, r = some (op, y) → E s.layout y ∧ y.measure = s.layout.measure ∧ op.Storing E s.layout := by
  obtain ⟨hasked, hop⟩ := reconcile_spec s x b
  suffices hok : ∃ r, (s.reconcile x b).1 = .ok r by
    obtain ⟨r, hr⟩ := hok
    refine ⟨r, _, Prod.ext hr rfl, hasked.store, ?_⟩
    rintro op y rfl
    obtain ⟨hmeasure, kind, hreconciled, rfl⟩ := hop op y hr
    suffices hy : E s.layout y from ⟨hy, hmeasure, kind, y, rfl, hy, hmeasure⟩
    cases hreconciled with
    | fresh => exact hx
    | joined hget hjoin hfresh =>
      obtain ⟨z, hz, hentry⟩ := h.refreshed (Reconciles.lasting h hT hb hx (.joined hget hjoin))
      obtain rfl : z = y := Except.ok.inj (hz.symm.trans hfresh)
      exact hentry
  unfold reconcile
  rcases hget : b.get s.layout x.key with ⟨e | _ | stored, b'⟩
  · exact ⟨_, rfl⟩
  · exact ⟨_, rfl⟩
  · dsimp only
    cases hjoin : x.combine stored with
    | error e => exact ⟨_, rfl⟩
    | ok joined =>
      obtain ⟨fresh, hfresh, -⟩ := h.refreshed (Reconciles.lasting h hT hb hx (.joined (by rw [hget]) hjoin))
      simp only [hfresh]
      exact ⟨_, rfl⟩

/-- The next stage, and those below it, take every update that they should without a fault; `I` describes them. -/
def Outlet.Lasts (T : Layout → Prop) (A : Layout → Indicator → Prop) (R : Layout → String → Row → Prop) (I : σ → Prop)
    (outlet : Option (Outlet σ)) : Prop :=
  ∀ next, outlet = some next → T next.layout ∧ ∀ x below b, A next.layout x → I below → b.store.Each T R →
    ∃ below' b', next.submit x below b = (.ok (), below', b') ∧ I below' ∧ b'.store.Each T R

theorem forward_lasting (h : Lasting T A E R) (ho : Outlet.Lasts T A R I outlet) (hT : T s.layout) (hx : E s.layout x)
    (hmeasure : x.measure = s.layout.measure) (hI : I c.below) (hb : c.backend.store.Each T R) :
    ∃ d, s.forward outlet x c = (.ok (), d) ∧ I d.below ∧ d.backend.store.Each T R := by
  cases outlet with
  | none => exact ⟨c, rfl, hI, hb⟩
  | some next =>
    obtain ⟨hnext, htakes⟩ := ho next rfl
    cases hroll : x.rollup next.layout.level with
    | error e =>
      rw [forward_error hroll]
      exact ⟨_, rfl, hI, hb⟩
    | ok rolled =>
      obtain ⟨below', b', hsubmit, hI', hb'⟩ :=
        htakes rolled c.below c.backend (h.rollup hT hnext hx hmeasure hroll) hI hb
      rw [forward_ok hroll, hsubmit]
      exact ⟨_, rfl, hI', hb'⟩

theorem prepareBatch_lasting (h : Lasting T A E R) (ho : Outlet.Lasts T A R I outlet) (hT : T s.layout)
    {xs : List Indicator} (hxs : ∀ x ∈ xs, E s.layout x) (hI : I c.below) (hb : c.backend.store.Each T R) :
    ∃ batch d, s.prepareBatch outlet xs c = (.ok batch, d) ∧ I d.below ∧ d.backend.store.Each T R ∧
      ∀ op ∈ batch, op.Storing E s.layout := by
  induction xs generalizing c with
  | nil => exact ⟨[], c, rfl, hI, hb, nofun⟩
  | cons x rest ih =>
    have hrest : ∀ y ∈ rest, E s.layout y := fun y hy => hxs y (List.mem_cons_of_mem _ hy)
    obtain ⟨r, b, hreconcile, hstore, hop⟩ := reconcile_lasting h hT hb (hxs x (List.mem_cons_self ..))
    rw [← hstore] at hb
    unfold prepareBatch
    rw [hreconcile]
    rcases r with _ | ⟨op, y⟩
    · exact ih (c := { c with backend := b }.count .addReconcileFailure) hrest hI hb
    · obtain ⟨hy, hmeasure, hstoring⟩ := hop op y rfl
      obtain ⟨d, hforward, hI', hb'⟩ := forward_lasting (c := { c with backend := b }) h ho hT hy hmeasure hI hb
      obtain ⟨batch, e, htail, hI'', hb'', hbatch⟩ := ih (c := d) hrest hI' hb'
      dsimp only
      rw [hforward]
      dsimp only
      rw [htail]
      refine ⟨_, e, rfl, hI'', hb'', ?_⟩
      intro o ho
      rcases List.mem_cons.1 ho with rfl | ho
      · exact hstoring
      · exact hbatch o ho

theorem writeBatch_lasting (h : Lasting T A E R) (hT : T s.layout) {batch : List Operation}
    (hb : c.backend.store.Each T R) (hbatch : ∀ op ∈ batch, op.Storing E s.layout) (above : List Layout) :
    (s.writeBatch above batch c).2.backend.store.Each T R := by
  unfold writeBatch
  rcases persist_cases c.backend s.layout (above ++ [s.layout]) batch with ⟨e, he⟩ | ⟨t, ht, hpersist⟩
  · rw [he]
    exact hb
  · rw [hpersist]
    have hwritten : (batch.foldl Store.write c.backend.store).Each T R := hb.foldl_write h hT hbatch
    show t.Each T R
    rw [persist_ok ht]
    exact hwritten

/-- No fault aborts a flush, and it leaves everything as it should be. -/
theorem flush_lasting (h : Lasting T A E R) (ho : Outlet.Lasts T A R I outlet) (hT : T s.layout)
    (hown : c.own.windows.Each (E s.layout)) (hI : I c.below) (hb : c.backend.store.Each T R) (above : List Layout) :
    ∃ r d, s.flush outlet above c = (.ok r, d) ∧ d.own.windows.Each (E s.layout) ∧ I d.below ∧
      d.backend.store.Each T R := by
  have hprepared {p : WindowPair} (hp : p.Each (E s.layout)) {r : Outcome (List Operation)} {d : Scene σ}
      (hprepare : s.prepareBatch outlet (c.taken s p) (c.draining s p) = (r, d)) :
      ∃ batch, r = .ok batch ∧ d.own.windows.Each (E s.layout) ∧ I d.below ∧ d.backend.store.Each T R ∧
        ∀ op ∈ batch, op.Storing E s.layout := by
    obtain ⟨batch, d', hok, hI', hb', hbatch⟩ :=
      prepareBatch_lasting (c := c.draining s p) h ho hT (hp.taken c s) hI hb
    have hkept := (prepareBatch_kept (s := s) outlet (c.taken s p) (c.draining s p)).windows
    rw [hprepare] at hok hkept
    cases hok
    exact ⟨batch, rfl, hkept ▸ hp.drain, hI', hb', hbatch⟩
  rcases hflush : s.flush outlet above c with ⟨r, e⟩
  cases hflush ▸ flush_cases s outlet above c with
  | unswapped hcommit =>
    have hp := hown.attempted hcommit
    exact ⟨_, _, rfl, ⟨hp.active, hp.retired⟩, hI, hb⟩
  | aborted hcommit hprepare =>
    obtain ⟨batch, hno, -⟩ := hprepared (hown.attempted hcommit) hprepare
    cases hno
  | unwritten hcommit hprepare =>
    obtain ⟨-, -, heach, hI', hb', -⟩ := hprepared (hown.attempted hcommit) hprepare
    exact ⟨_, _, rfl, ⟨heach.active, heach.retired⟩, hI', hb'⟩
  | @sent _ _ op batch d e r hcommit hprepare hwrite =>
    obtain ⟨batch', hbatch', heach, hI', hb', hops⟩ := hprepared (hown.attempted hcommit) hprepare
    obtain rfl := Except.ok.inj hbatch'
    obtain ⟨⟨hwindows, -⟩, hbelow⟩ := writeBatch_kept (s := s) above (op :: batch) d
    have hstore := writeBatch_lasting h hT hb' hops above
    rw [hwrite] at hwindows hbelow hstore
    refine ⟨_, _, rfl, ?_, ?_, hstore⟩
    · have hsame : e.own.windows.Each (E s.layout) := hwindows ▸ heach
      exact ⟨hsame.active, hsame.retired⟩
    · have hsame : I e.below := hbelow ▸ hI'
      exact hsame

theorem merge_lasting (h : Lasting T A E R) (hown : c.own.windows.Each (E s.layout)) (hx : A s.layout x) (hI : I c.below)
    (hb : c.backend.store.Each T R) :
    ∃ d, s.merge x c = (.ok (), d) ∧ d.own.windows.Each (E s.layout) ∧ I d.below ∧ d.backend.store.Each T R := by
  obtain ⟨r, p, hmerge, hp⟩ := hown.merge h hx
  unfold merge
  rw [hmerge]
  cases r with
  | error e => exact ⟨_, rfl, hp, hI, hb⟩
  | ok u => exact ⟨_, rfl, hp, hI, hb⟩

/-- No fault aborts an update, and it leaves everything as it should be. -/
theorem submit_lasting (h : Lasting T A E R) (ho : Outlet.Lasts T A R I outlet) (hT : T s.layout)
    (hown : c.own.windows.Each (E s.layout)) (hx : A s.layout x) (hI : I c.below) (hb : c.backend.store.Each T R)
    (above : List Layout) :
    ∃ d, s.submit outlet above x c = (.ok (), d) ∧ d.own.windows.Each (E s.layout) ∧ I d.below ∧
      d.backend.store.Each T R := by
  unfold submit
  split
  · obtain ⟨r, d, hflush, hown', hI', hb'⟩ := flush_lasting h ho hT hown hI hb above
    rw [hflush]
    cases r with
    | error e => exact merge_lasting (c := d.record (.flushFailed e)) h hown' hx hI' hb'
    | ok swapped => exact merge_lasting h hown' hx hI' hb'
  · exact merge_lasting h hown hx hI hb

/-! ## Lines -/

/-- Every entry of every stage is as its layout asks for it. -/
def States.Each (E : Layout → Indicator → Prop) : {stages : List Stage} → States stages → Prop
  | [], () => True
  | s :: _, (own, below) => own.windows.Each (E s.layout) ∧ below.Each E

theorem States.each_initial : ∀ stages : List Stage, (States.initial stages).Each E
  | [] => trivial
  | _ :: rest => ⟨WindowPair.each_initial, States.each_initial rest⟩

/-- The entries of the stage at a position are as its layout asks for it. -/
theorem States.Each.at : ∀ {stages : List Stage} {states : States stages}, states.Each E → ∀ {i : Nat} {t : Stage},
    stages[i]? = some t → ∃ own, states.toList[i]? = some own ∧ own.windows.Each (E t.layout)
  | s :: _, (own, _), h, 0, t, ht => by
    obtain rfl : s = t := Option.some.inj ht
    exact ⟨own, rfl, h.1⟩
  | _ :: _, (_, _), h, _ + 1, _, ht => h.2.at ht

variable {rest stages : List Stage}

theorem outlet_lasts (hT : ∀ t ∈ rest, T t.layout)
    {f : Nat → Indicator → States rest → Backend → Outcome Unit × States rest × Backend}
    (hf : ∀ i x below b, (∀ t, rest[i]? = some t → A t.layout x) → below.Each E → b.store.Each T R →
      ∃ below' b', f i x below b = (.ok (), below', b') ∧ below'.Each E ∧ b'.store.Each T R) :
    Outlet.Lasts T A R (States.Each E) (s.outlet rest f) := by
  intro next hnext
  obtain ⟨j, t, -, ht, rfl⟩ := outlet_eq_some hnext
  refine ⟨hT t (List.mem_of_getElem? ht), fun x below b hx => hf j x below b fun t' ht' => ?_⟩
  obtain rfl : t = t' := Option.some.inj (ht.symm.trans ht')
  exact hx

/-- No fault aborts an update of a line. -/
theorem submitIn_lasting (h : Lasting T A E R) : ∀ (stages : List Stage) (above : List Layout) (i : Nat) (x : Indicator)
    (states : States stages) (b : Backend), (∀ s ∈ stages, T s.layout) → (∀ t, stages[i]? = some t → A t.layout x) →
      states.Each E → b.store.Each T R →
      ∃ states' b', submitIn stages above i x states b = (.ok (), states', b') ∧ states'.Each E ∧ b'.store.Each T R
  | [], _, _, _, (), b, _, _, _, hb => ⟨(), b, rfl, trivial, hb⟩
  | s :: rest, above, 0, x, states, b, hT, hx, hs, hb => by
    have heach : states.1.windows.Each (E s.layout) ∧ states.2.Each E := hs
    have hrest : ∀ t ∈ rest, T t.layout := fun t ht => hT t (List.mem_cons_of_mem _ ht)
    have ho : Outlet.Lasts T A R (States.Each E) (s.downstream rest above) := outlet_lasts hrest
      fun i x below b hx hbelow hb => submitIn_lasting h rest _ i x below b hrest hx hbelow hb
    obtain ⟨d, hsubmit, hown, hbelow, hb'⟩ := submit_lasting (c := ⟨states.1, states.2, b⟩) h ho
      (hT s (List.mem_cons_self ..)) heach.1 (hx s rfl) heach.2 hb above
    rw [submitIn_head, hsubmit]
    exact ⟨(d.own, d.below), d.backend, rfl, ⟨hown, hbelow⟩, hb'⟩
  | s :: rest, above, i + 1, x, states, b, hT, hx, hs, hb => by
    have heach : states.1.windows.Each (E s.layout) ∧ states.2.Each E := hs
    obtain ⟨below', b', hsubmit, hbelow, hb'⟩ :=
      submitIn_lasting h rest above i x states.2 b (fun t ht => hT t (List.mem_cons_of_mem _ ht)) hx heach.2 hb
    rw [submitIn_tail, hsubmit]
    exact ⟨(states.1, below'), b', rfl, ⟨heach.1, hbelow⟩, hb'⟩

theorem downstream_lasts (h : Lasting T A E R) (hT : ∀ t ∈ rest, T t.layout) (above : List Layout) :
    Outlet.Lasts T A R (States.Each E) (s.downstream rest above) :=
  outlet_lasts hT fun i x below b => submitIn_lasting h rest (above ++ [s.layout]) i x below b hT

/-- No fault aborts a flush of the first stage. -/
theorem flushHead_lasting (h : Lasting T A E R) {states : States (s :: rest)} (hT : ∀ t ∈ s :: rest, T t.layout)
    (hs : states.Each E) (hb : b.store.Each T R) :
    ∃ r d, s.flushHead rest states b = (.ok r, d) ∧ d.own.windows.Each (E s.layout) ∧ d.below.Each E ∧
      d.backend.store.Each T R :=
  flush_lasting (c := ⟨states.1, states.2, b⟩) h
    (downstream_lasts (s := s) h (fun t ht => hT t (List.mem_cons_of_mem _ ht)) []) (hT s (List.mem_cons_self ..)) hs.1 hs.2
    hb []

/-- No fault aborts a flush of one stage of a line. -/
theorem flushIn_lasting (h : Lasting T A E R) : ∀ (stages : List Stage) (i : Nat) (states : States stages) (b : Backend),
    (∀ s ∈ stages, T s.layout) → states.Each E → b.store.Each T R →
      ∃ r states' b', flushIn stages i states b = (.ok r, states', b') ∧ states'.Each E ∧ b'.store.Each T R
  | [], _, (), b, _, _, hb => ⟨_, (), b, rfl, trivial, hb⟩
  | s :: rest, 0, states, b, hT, hs, hb => by
    obtain ⟨r, d, hflush, hown, hbelow, hb'⟩ := flushHead_lasting h hT hs hb
    rw [flushIn_head, hflush]
    exact ⟨r, (d.own, d.below), d.backend, rfl, ⟨hown, hbelow⟩, hb'⟩
  | s :: rest, i + 1, states, b, hT, hs, hb => by
    have heach : states.1.windows.Each (E s.layout) ∧ states.2.Each E := hs
    obtain ⟨r, below', b', hflush, hbelow, hb'⟩ :=
      flushIn_lasting h rest i states.2 b (fun t ht => hT t (List.mem_cons_of_mem _ ht)) heach.2 hb
    rw [flushIn_tail, hflush]
    exact ⟨r, (states.1, below'), b', rfl, ⟨heach.1, hbelow⟩, hb'⟩

/-- No fault aborts a flush of a line. -/
theorem flushAllIn_lasting (h : Lasting T A E R) : ∀ (stages : List Stage) (states : States stages) (b : Backend),
    (∀ s ∈ stages, T s.layout) → states.Each E → b.store.Each T R →
      ∃ r states' b', flushAllIn stages states b = (.ok r, states', b') ∧ states'.Each E ∧ b'.store.Each T R
  | [], (), b, _, _, hb => ⟨_, (), b, rfl, trivial, hb⟩
  | s :: rest, states, b, hT, hs, hb => by
    have hrest : ∀ t ∈ rest, T t.layout := fun t ht => hT t (List.mem_cons_of_mem s ht)
    obtain ⟨r, d, hhead, hown, hbelow, hb'⟩ := flushHead_lasting h hT hs hb
    rw [flushAllIn_cons, hhead]
    cases r with
    | error e =>
      obtain ⟨r', below', b'', hall, hbelow', hb''⟩ :=
        flushAllIn_lasting h rest d.below (d.backend.record (.flushFailed e)) hrest hbelow hb'
      dsimp only
      rw [hall]
      exact ⟨_, (d.own, below'), b'', rfl, ⟨hown, hbelow'⟩, hb''⟩
    | ok swapped =>
      obtain ⟨r', below', b'', hall, hbelow', hb''⟩ := flushAllIn_lasting h rest d.below d.backend hrest hbelow hb'
      dsimp only
      rw [hall]
      exact ⟨_, (d.own, below'), b'', rfl, ⟨hown, hbelow'⟩, hb''⟩

end Stage

end MetricCascade
