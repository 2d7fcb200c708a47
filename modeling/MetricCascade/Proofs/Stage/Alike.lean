/-
What stages can tell apart. Where the answers of a gateway depend on the call alone and not on those before it, two
backends that agree on some tables, refuse the same and have windows drained in the same orders, are alike for stages
of these tables: every operation answers the same over both, leaves the same states, and writes the same to those
tables.
-/
import Mathlib.Data.List.Find
import MetricCascade.Proofs.Stage.Rules

namespace MetricCascade

/-- Whether a call is refused depends on what is asked, not on how many calls came before. -/
structure Faults.Steady (f : Faults) : Prop where
  lookup (n : Nat) : f.lookup n = f.lookup 0
  prepare (n : Nat) : f.prepare n = f.prepare 0
  persist (n : Nat) : f.persist n = f.persist 0

/-- A batch is refused by the store for the tables it is for. -/
theorem Store.persist_congr {s s' : Store} {batch : List Operation}
    (h : ∀ op ∈ batch, s'.tables.get? op.table = s.tables.get? op.table) :
    (∃ e, s.persist batch = .error e ∧ s'.persist batch = .error e) ∨
      ∃ t t', s.persist batch = .ok t ∧ s'.persist batch = .ok t' ∧
        ∀ name, s'.tables.get? name = s.tables.get? name → t'.tables.get? name = t.tables.get? name := by
  have hfind : batch.find? (fun op => !s'.tables.contains op.table) =
      batch.find? fun op => !s.tables.contains op.table := by
    apply List.find?_congr
    intro op hop
    unfold Dict.contains
    rw [h op hop]
  unfold persist
  rw [hfind]
  cases batch.find? (fun op => !s.tables.contains op.table) with
  | some op => exact .inl ⟨_, rfl, rfl⟩
  | none => exact .inr ⟨_, _, rfl, rfl, fun name hname => tables_foldl_write_congr hname batch⟩

namespace Backend

variable {T : String → Prop} {b b' c c' : Backend}

/-- Stages of the tables of `T` cannot tell the backends apart. -/
structure Alike (T : String → Prop) (b b' : Backend) : Prop where
  steady : b.faults.Steady
  faults : b'.faults = b.faults
  order : b'.order = b.order
  tables : ∀ name, T name → b'.store.tables.get? name = b.store.tables.get? name

theorem Alike.refl (h : b.faults.Steady) : Alike T b b := ⟨h, rfl, rfl, fun _ _ => rfl⟩

/-- Questions and reports make no difference. -/
theorem Alike.asked (h : Alike T b b') (hb : Asked b c) (hb' : Asked b' c') : Alike T c c' := by
  refine ⟨?_, ?_, ?_, fun name hname => ?_⟩
  · rw [hb.faults]
    exact h.steady
  · rw [hb'.faults, hb.faults, h.faults]
  · rw [hb'.order, hb.order, h.order]
  · rw [hb'.store, hb.store, h.tables name hname]

theorem Alike.record (h : Alike T b b') (e : Event) : Alike T (b.record e) (b'.record e) :=
  ⟨h.steady, h.faults, h.order, h.tables⟩

/-- Nor does the work of stages with other tables. -/
theorem Alike.extends {P : Layout → Prop} (h : Alike T b b') (hb' : Extends P b' c') (hP : ∀ l, P l → ¬ T l.table) :
    Alike T b c' := by
  refine ⟨h.steady, hb'.faults.trans h.faults, hb'.order.trans h.order, fun name hname => ?_⟩
  rw [hb'.tables name fun l hl heq => hP l hl (heq ▸ hname), h.tables name hname]

theorem Alike.get (h : Alike T b b') {l : Layout} (hl : T l.table) (k : Key) : (b'.get l k).1 = (b.get l k).1 := by
  unfold Backend.get Store.get
  rw [h.faults, h.steady.lookup b'.calls, h.steady.lookup b.calls, h.tables l.table hl]

theorem Alike.prepare (h : Alike T b b') (kind : WriteKind) (l : Layout) (x : Indicator) :
    (b'.prepare kind l x).1 = (b.prepare kind l x).1 := by
  unfold Backend.prepare
  rw [h.faults, h.steady.prepare b'.calls, h.steady.prepare b.calls]

/-- A batch for tables of `T` is answered the same, and leaves the backends alike. -/
theorem Alike.persist (h : Alike T b b') (l : Layout) (flushing : List Layout) {batch : List Operation}
    (hbatch : ∀ op ∈ batch, T op.table) :
    ∃ e', b'.persist l flushing batch = ((b.persist l flushing batch).1, e') ∧
      Alike T (b.persist l flushing batch).2 e' := by
  have hcalled : Alike T b.called b'.called := h.asked (asked_called b) (asked_called b')
  have hrefused := hcalled.record (.batch l flushing batch false)
  unfold Backend.persist
  rw [h.faults, h.steady.persist b'.calls, h.steady.persist b.calls]
  cases b.faults.persist 0 batch with
  | some reason => exact ⟨_, rfl, hrefused⟩
  | none =>
    rcases Store.persist_congr fun op hop => h.tables op.table (hbatch op hop) with ⟨e, he, he'⟩ | ⟨t, t', ht, ht', htables⟩
    · simp only [he, he']
      exact ⟨_, rfl, hrefused⟩
    · simp only [ht, ht']
      exact ⟨_, rfl, h.steady, h.faults, h.order, fun name hname => htables name (h.tables name hname)⟩

/-- What is done answers the same over backends that are alike, leaves the same state, and leaves them alike. -/
def Blind {α β : Type} (T : String → Prop) (f : Backend → α × β × Backend) : Prop :=
  ∀ ⦃b b' : Backend⦄ ⦃a : α⦄ ⦃x : β⦄ ⦃e : Backend⦄, Alike T b b' → f b = (a, x, e) →
    ∃ e', f b' = (a, x, e') ∧ Alike T e e'

end Backend

namespace Stage

open Backend

variable {σ : Type} {T : String → Prop} {s : Stage} {outlet : Option (Outlet σ)} {b b' : Backend}

/-- The scene over another backend. -/
def Scene.over (c : Scene σ) (b : Backend) : Scene σ := { c with backend := b }

/-- The same of what is done in a scene. -/
def Scene.Blind {α : Type} (T : String → Prop) (f : Scene σ → α × Scene σ) : Prop :=
  ∀ ⦃c : Scene σ⦄ ⦃b' : Backend⦄ ⦃a : α⦄ ⦃d : Scene σ⦄, Alike T c.backend b' → f c = (a, d) →
    ∃ e', f (c.over b') = (a, d.over e') ∧ Alike T d.backend e'

/-! ## Batches -/

theorem ready_alike (h : Alike T b b') (kind : WriteKind) (x : Indicator) :
    (s.ready kind x b').1 = (s.ready kind x b).1 := by
  have hprepare := h.prepare kind s.layout x
  unfold ready
  rcases hb : b.prepare kind s.layout x with ⟨r, c⟩
  rcases hb' : b'.prepare kind s.layout x with ⟨r', c'⟩
  rw [hb, hb'] at hprepare
  obtain rfl : r' = r := hprepare
  cases r' <;> rfl

theorem reconcile_answer (hT : T s.layout.table) (h : Alike T b b') (x : Indicator) :
    (s.reconcile x b').1 = (s.reconcile x b).1 := by
  have hget := h.get hT x.key
  have hasked := h.asked (asked_get b s.layout x.key) (asked_get b' s.layout x.key)
  unfold reconcile
  rcases hb : b.get s.layout x.key with ⟨r, c⟩
  rcases hb' : b'.get s.layout x.key with ⟨r', c'⟩
  rw [hb, hb'] at hget hasked
  obtain rfl : r' = r := hget
  rcases r' with e | _ | stored
  · rfl
  · exact congrArg Except.ok (ready_alike hasked .insert x)
  · dsimp only
    cases x.combine stored with
    | error e => rfl
    | ok joined =>
      dsimp only
      cases joined.refresh with
      | error fault => rfl
      | ok fresh => exact congrArg Except.ok (ready_alike hasked .update fresh)

/-- An entry is reconciled with what is in the own table. -/
theorem reconcile_alike (hT : T s.layout.table) (h : Alike T b b') {x : Indicator}
    {r : Outcome (Option (Operation × Indicator))} {e : Backend} (hreconcile : s.reconcile x b = (r, e)) :
    ∃ e', s.reconcile x b' = (r, e') ∧ Alike T e e' := by
  have hanswer := reconcile_answer hT h x
  have hasked := (reconcile_spec s x b).1
  rw [hreconcile] at hanswer hasked
  exact ⟨(s.reconcile x b').2, Prod.ext hanswer rfl, h.asked hasked (reconcile_spec s x b').1⟩

/-- The next stage cannot tell such backends apart. -/
def Outlet.Blind (T : String → Prop) (outlet : Option (Outlet σ)) : Prop :=
  ∀ next, outlet = some next → ∀ x below, Backend.Blind T (next.submit x below)

theorem forward_blind (hout : Outlet.Blind T outlet) (x : Indicator) : Scene.Blind T (s.forward outlet x) := by
  intro c b' r d h hforward
  cases outlet with
  | none =>
    cases hforward
    exact ⟨b', rfl, h⟩
  | some next =>
    cases hroll : x.rollup next.layout.level with
    | error e =>
      rw [forward_error hroll] at hforward
      cases hforward
      rw [forward_error hroll]
      exact ⟨_, rfl, h.record _⟩
    | ok y =>
      rcases hsubmit : next.submit y c.below c.backend with ⟨r', below, e⟩
      rw [forward_ok hroll, hsubmit] at hforward
      cases hforward
      obtain ⟨e', he', halike⟩ := hout next rfl y c.below h hsubmit
      refine ⟨e', ?_, halike⟩
      rw [forward_ok hroll, show next.submit y (c.over b').below (c.over b').backend = _ from he']
      rfl

/-- Entry by entry, the own table and the stages below answer the same over both backends. -/
theorem prepareBatch_blind (hout : Outlet.Blind T outlet) (hT : T s.layout.table) (xs : List Indicator) :
    Scene.Blind T (s.prepareBatch outlet xs) := by
  induction xs with
  | nil =>
    intro c b' r d h hprepare
    cases hprepare
    exact ⟨b', rfl, h⟩
  | cons x rest ih =>
    intro c b' r d h hprepare
    unfold prepareBatch at hprepare ⊢
    rcases hreconcile : s.reconcile x c.backend with ⟨fault | _ | ⟨op, y⟩, e⟩ <;>
      obtain ⟨e', he', halike⟩ := reconcile_alike hT h hreconcile <;>
      rw [hreconcile] at hprepare <;> rw [show s.reconcile x (c.over b').backend = _ from he'] <;>
      dsimp only at hprepare ⊢
    · cases hprepare
      exact ⟨e', rfl, halike⟩
    · exact ih (c := { c with backend := e }.count .addReconcileFailure) halike hprepare
    · rcases hforward : s.forward outlet y { c with backend := e } with ⟨fault | _, c₁⟩ <;>
        obtain ⟨e₁, he₁, halike₁⟩ := forward_blind hout y (c := { c with backend := e }) halike hforward <;>
        rw [hforward] at hprepare <;>
        rw [show s.forward outlet y { c.over b' with backend := e' } = _ from he₁] <;>
        dsimp only at hprepare ⊢
      · cases hprepare
        exact ⟨e₁, rfl, halike₁⟩
      · rcases htail : s.prepareBatch outlet rest c₁ with ⟨r₂, c₂⟩
        obtain ⟨e₂, he₂, halike₂⟩ := ih halike₁ htail
        rw [htail] at hprepare
        cases hprepare
        rw [he₂]
        exact ⟨e₂, rfl, halike₂⟩

theorem writeBatch_blind (above : List Layout) {batch : List Operation} (hbatch : ∀ op ∈ batch, T op.table) :
    @Scene.Blind σ _ T (s.writeBatch above batch) := by
  intro c b' r d h hwrite
  obtain ⟨e', he', halike⟩ := h.persist s.layout (above ++ [s.layout]) hbatch
  unfold writeBatch at hwrite ⊢
  rw [show (c.over b').backend.persist s.layout (above ++ [s.layout]) batch = _ from he']
  rcases hpersist : c.backend.persist s.layout (above ++ [s.layout]) batch with ⟨e | _, b⟩ <;>
    rw [hpersist] at hwrite halike <;> cases hwrite <;> exact ⟨e', rfl, halike⟩

/-! ## Flushes and updates -/

theorem flushRetired_blind (hout : Outlet.Blind T outlet) (hT : T s.layout.table) (above : List Layout) :
    Scene.Blind T (s.flushRetired outlet above) := by
  intro c b' r d h hflush
  unfold flushRetired at hflush ⊢
  have horder : (c.over b').order s.layout = c.order s.layout := by
    unfold Scene.order
    exact congrFun (congrFun h.order _) _
  rw [show (c.over b').own = c.own from rfl, horder]
  rcases hdrain : c.own.windows.drain (c.order s.layout) with ⟨entries, windows⟩
  rw [hdrain] at hflush
  dsimp only at hflush ⊢
  have hdrained : Alike T (c.backend.record (.drained s.layout entries.length)) (b'.record (.drained s.layout entries.length)) :=
    h.record _
  rcases hprepare : s.prepareBatch outlet entries ((c.setWindows windows).record (.drained s.layout entries.length)) with
    ⟨fault | batch, c₁⟩ <;>
    obtain ⟨e₁, he₁, halike⟩ := prepareBatch_blind hout hT entries hdrained hprepare <;>
    rw [hprepare] at hflush <;>
    rw [show s.prepareBatch outlet entries (((c.over b').setWindows windows).record (.drained s.layout entries.length)) = _
      from he₁]
  · cases hflush
    exact ⟨e₁, rfl, halike⟩
  · cases batch with
    | nil =>
      cases hflush
      exact ⟨e₁, rfl, halike⟩
    | cons op batch =>
      have htables := prepareBatch_tables hprepare
      dsimp only at hflush ⊢
      rcases hwrite : s.writeBatch above (op :: batch) c₁ with ⟨r', c₂⟩
      obtain ⟨e₂, he₂, halike₂⟩ := writeBatch_blind above (fun o ho => (htables o ho).symm ▸ hT) halike hwrite
      rw [hwrite] at hflush
      cases hflush
      rw [he₂]
      exact ⟨e₂, rfl, halike₂⟩

theorem flush_blind (hout : Outlet.Blind T outlet) (hT : T s.layout.table) (above : List Layout) :
    Scene.Blind T (s.flush outlet above) := by
  intro c b' r d h hflush
  unfold flush at hflush ⊢
  rw [show (c.over b').own = c.own from rfl]
  rcases hbegin : c.own.windows.begin with ⟨attempt, windows⟩
  rw [hbegin] at hflush
  dsimp only at hflush ⊢
  rcases hcommit : windows.commit attempt with ⟨_ | _, a, p⟩ <;> rw [hcommit] at hflush <;> dsimp only at hflush ⊢
  · cases hflush
    exact ⟨b', rfl, h⟩
  · rcases hretired : s.flushRetired outlet above ((c.setWindows p).setFlushing true) with ⟨r', c₁⟩
    obtain ⟨e₁, he₁, halike⟩ := flushRetired_blind hout hT above (c := (c.setWindows p).setFlushing true) h hretired
    rw [hretired] at hflush
    cases hflush
    rw [show s.flushRetired outlet above (((c.over b').setWindows p).setFlushing true) = _ from he₁]
    exact ⟨e₁, rfl, halike⟩

theorem merge_blind (x : Indicator) : @Scene.Blind σ _ T (s.merge x) := by
  intro c b' r d h hmerge
  unfold merge at hmerge ⊢
  rw [show (c.over b').own = c.own from rfl]
  rcases hp : c.own.windows.merge x with ⟨fault | e | _, p⟩ <;> rw [hp] at hmerge <;> cases hmerge
  · exact ⟨b', rfl, h⟩
  · exact ⟨_, rfl, h.record _⟩
  · exact ⟨b', rfl, h⟩

theorem submit_blind (hout : Outlet.Blind T outlet) (hT : T s.layout.table) (above : List Layout) (x : Indicator) :
    Scene.Blind T (s.submit outlet above x) := by
  intro c b' r d h hsubmit
  unfold submit at hsubmit ⊢
  rw [show (c.over b').own = c.own from rfl]
  split at hsubmit
  · rename_i hfull
    rw [if_pos hfull]
    rcases hflush : s.flush outlet above c with ⟨fault | e | swapped, c₁⟩ <;>
      obtain ⟨e₁, he₁, halike⟩ := flush_blind hout hT above h hflush <;> rw [hflush] at hsubmit <;> rw [he₁] <;>
      dsimp only at hsubmit ⊢
    · cases hsubmit
      exact ⟨e₁, rfl, halike⟩
    · exact merge_blind x (c := c₁.record (.flushFailed e)) (halike.record _) hsubmit
    · exact merge_blind x halike hsubmit
  · rename_i hroom
    rw [if_neg hroom]
    exact merge_blind x h hsubmit

/-! ## Lines -/

theorem downstream_blind {rest : List Stage} (above : List Layout)
    (h : ∀ (above : List Layout) (i : Nat) (x : Indicator) (states : States rest),
      Backend.Blind T (submitIn rest above i x states)) : Outlet.Blind T (s.downstream rest above) := by
  intro next hnext x below
  obtain ⟨j, t, -, -, rfl⟩ := outlet_eq_some hnext
  exact h (above ++ [s.layout]) j x below

/-- An update is taken the same over backends that agree on the tables of the line. -/
theorem submitIn_blind : ∀ {stages : List Stage}, (∀ t ∈ stages, T t.layout.table) → ∀ (above : List Layout) (i : Nat)
    (x : Indicator) (states : States stages), Backend.Blind T (submitIn stages above i x states)
  | [], _, _, _, _, (), b, b', _, _, _, h, hsubmit => by
    cases hsubmit
    exact ⟨b', rfl, h⟩
  | s :: rest, hT, above, 0, x, states, b, b', _, _, _, h, hsubmit => by
    have hrest := submitIn_blind fun t ht => hT t (List.mem_cons_of_mem _ ht)
    rw [submitIn_head] at hsubmit ⊢
    rcases hown : s.submit (s.downstream rest above) above x ⟨states.1, states.2, b⟩ with ⟨r, d⟩
    obtain ⟨e', he', halike⟩ := submit_blind (downstream_blind above hrest) (hT s (List.mem_cons_self ..)) above x h hown
    rw [hown] at hsubmit
    cases hsubmit
    rw [show s.submit (s.downstream rest above) above x ⟨states.1, states.2, b'⟩ = _ from he']
    exact ⟨e', rfl, halike⟩
  | s :: rest, hT, above, i + 1, x, states, b, b', _, _, _, h, hsubmit => by
    have hrest := submitIn_blind fun t ht => hT t (List.mem_cons_of_mem _ ht)
    rw [submitIn_tail] at hsubmit ⊢
    rcases hbelow : submitIn rest above i x states.2 b with ⟨r, below, e⟩
    obtain ⟨e', he', halike⟩ := hrest above i x states.2 h hbelow
    rw [hbelow] at hsubmit
    cases hsubmit
    rw [he']
    exact ⟨e', rfl, halike⟩

/-- So are the stages of a line flushed. -/
theorem flushAllIn_blind : ∀ {stages : List Stage}, (∀ t ∈ stages, T t.layout.table) → ∀ states : States stages,
    Backend.Blind T (flushAllIn stages states)
  | [], _, (), b, b', _, _, _, h, hflush => by
    cases hflush
    exact ⟨b', rfl, h⟩
  | s :: rest, hT, states, b, b', _, _, _, h, hflush => by
    have hrest : ∀ t ∈ rest, T t.layout.table := fun t ht => hT t (List.mem_cons_of_mem _ ht)
    rw [flushAllIn_cons] at hflush ⊢
    rcases hhead : s.flushHead rest states b with ⟨fault | e | swapped, d⟩ <;>
      obtain ⟨e₁, he₁, halike⟩ := flush_blind (downstream_blind [] (submitIn_blind hrest)) (hT s (List.mem_cons_self ..)) []
        (c := ⟨states.1, states.2, b⟩) h hhead <;>
      rw [hhead] at hflush <;> rw [show s.flushHead rest states b' = _ from he₁] <;> dsimp only at hflush ⊢
    · cases hflush
      exact ⟨e₁, rfl, halike⟩
    · rcases hall : flushAllIn rest d.below (d.backend.record (.flushFailed e)) with ⟨r, below, e₂⟩
      obtain ⟨e₃, he₃, halike₂⟩ := flushAllIn_blind hrest d.below (halike.record (.flushFailed e)) hall
      rw [hall] at hflush
      cases hflush
      rw [show flushAllIn rest (d.over e₁).below ((d.over e₁).backend.record (.flushFailed e)) = _ from he₃]
      exact ⟨e₃, rfl, halike₂⟩
    · rcases hall : flushAllIn rest d.below d.backend with ⟨r, below, e₂⟩
      obtain ⟨e₃, he₃, halike₂⟩ := flushAllIn_blind hrest d.below halike hall
      rw [hall] at hflush
      cases hflush
      rw [show flushAllIn rest (d.over e₁).below (d.over e₁).backend = _ from he₃]
      exact ⟨e₃, rfl, halike₂⟩

end Stage

end MetricCascade
