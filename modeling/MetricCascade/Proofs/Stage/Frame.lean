/-
What stages leave alone, whatever their states and whatever the gateway refuses. Reconciling only
asks and reports. A flush or an update writes to no tables but those of the stages that it can
reach, installs and drops none, and the journal only grows. Each stage writes to its own table, and
what is written to a table that no other stage has can be read off the journal.
-/
import MetricCascade.Proofs.Table.View
import MetricCascade.Stage.Line

namespace MetricCascade

/-! ## What a journal says was written -/

/-- The operations of a batch that a stage wrote. -/
def Event.accepted (l : Layout) : Event → List Operation
  | .batch stage _ ops true => if stage = l then ops else []
  | _ => []

namespace Backend

/-- The operations that a stage wrote according to a journal, oldest first. -/
def writtenIn (l : Layout) : List Event → List Operation
  | [] => []
  | e :: rest => writtenIn l rest ++ e.accepted l

/-- The operations that a stage has written, oldest first. -/
def written (b : Backend) (l : Layout) : List Operation := writtenIn l b.journal

theorem writtenIn_append (l : Layout) (es rest : List Event) :
    writtenIn l (es ++ rest) = writtenIn l rest ++ writtenIn l es := by
  induction es with
  | nil => simp [writtenIn]
  | cons e es ih => rw [List.cons_append, writtenIn, writtenIn, ih, List.append_assoc]

/-! ## Asking -/

/-- `b'` is `b` after questions and reports: nothing was written. -/
structure Asked (b b' : Backend) : Prop where
  store : b'.store = b.store
  faults : b'.faults = b.faults
  order : b'.order = b.order
  events : ∃ es, b'.journal = es ++ b.journal ∧ ∀ l, writtenIn l es = []

theorem Asked.refl (b : Backend) : Asked b b := ⟨rfl, rfl, rfl, [], rfl, fun _ => rfl⟩

theorem Asked.trans {a b c : Backend} (h1 : Asked a b) (h2 : Asked b c) : Asked a c := by
  obtain ⟨es, he, hes⟩ := h1.events
  obtain ⟨fs, hf, hfs⟩ := h2.events
  refine ⟨h2.store.trans h1.store, h2.faults.trans h1.faults, h2.order.trans h1.order, fs ++ es, ?_, fun l => ?_⟩
  · rw [hf, he, List.append_assoc]
  · rw [writtenIn_append, hes, hfs, List.nil_append]

theorem Asked.written {b b' : Backend} (h : Asked b b') (l : Layout) : b'.written l = b.written l := by
  obtain ⟨es, he, hes⟩ := h.events
  unfold Backend.written
  rw [he, writtenIn_append, hes, List.append_nil]

theorem asked_called (b : Backend) : Asked b b.called := ⟨rfl, rfl, rfl, [], rfl, fun _ => rfl⟩

theorem asked_get (b : Backend) (l : Layout) (k : Key) : Asked b (b.get l k).2 := asked_called b

/-- What a lookup finds, the store has. -/
theorem get_ok {b : Backend} {l : Layout} {k : Key} {found : Option Indicator} (h : (b.get l k).1 = .ok found) :
    b.store.get l k = .ok found := by
  simp only [get] at h
  split at h
  · cases h
  · exact h

theorem asked_prepare (b : Backend) (kind : WriteKind) (l : Layout) (x : Indicator) :
    Asked b (b.prepare kind l x).2 := asked_called b

/-- Recording anything but a batch is a report. -/
theorem asked_record (b : Backend) {e : Event} (h : ∀ l, e.accepted l = []) : Asked b (b.record e) :=
  ⟨rfl, rfl, rfl, [e], rfl, fun l => by rw [writtenIn, h, writtenIn, List.append_nil]⟩

/-! ## Working -/

/-- Between `b` and `b'` a stage has written rows of its own table only; these are all that was written
to that table, if no other layout of `P` has it. -/
def WroteOwn (P : Layout → Prop) (b b' : Backend) (l : Layout) : Prop :=
  ∃ ops, b'.written l = b.written l ++ ops ∧ (∀ op ∈ ops, op.table = l.table) ∧
    ((∀ m, P m → m.table = l.table → m = l) →
      b'.store.tables.get? l.table = (ops.foldl Store.write b.store).tables.get? l.table)

variable {P Q : Layout → Prop}

theorem WroteOwn.trans {a b c : Backend} {l : Layout} (h1 : WroteOwn P a b l) (h2 : WroteOwn P b c l) :
    WroteOwn P a c l := by
  obtain ⟨ops, hops, hown, htable⟩ := h1
  obtain ⟨more, hmore, hown', htable'⟩ := h2
  refine ⟨ops ++ more, by rw [hmore, hops, List.append_assoc], ?_, fun hsole => ?_⟩
  · intro op hop
    exact (List.mem_append.1 hop).elim (hown op) (hown' op)
  · rw [htable' hsole, List.foldl_append]
    exact Store.tables_foldl_write_congr (htable hsole) more

theorem Asked.wroteOwn {b b' : Backend} (h : Asked b b') (l : Layout) : WroteOwn P b b' l :=
  ⟨[], by rw [h.written l, List.append_nil], fun _ hop => (List.not_mem_nil hop).elim, fun _ => by rw [h.store]; rfl⟩

/-- `b'` is `b` after work of stages with the layouts of `P`. -/
structure Extends (P : Layout → Prop) (b b' : Backend) : Prop where
  faults : b'.faults = b.faults
  order : b'.order = b.order
  tables : ∀ name, (∀ l, P l → l.table ≠ name) → b'.store.tables.get? name = b.store.tables.get? name
  present : ∀ name, b'.store.tables.contains name = b.store.tables.contains name
  events : ∃ es, b'.journal = es ++ b.journal ∧ ∀ l, ¬ P l → writtenIn l es = []
  own : ∀ l, WroteOwn P b b' l

theorem Extends.trans {a b c : Backend} (h1 : Extends P a b) (h2 : Extends P b c) : Extends P a c := by
  obtain ⟨es, he, hes⟩ := h1.events
  obtain ⟨fs, hf, hfs⟩ := h2.events
  refine ⟨h2.faults.trans h1.faults, h2.order.trans h1.order,
    fun name hn => (h2.tables name hn).trans (h1.tables name hn),
    fun name => (h2.present name).trans (h1.present name), ⟨fs ++ es, ?_, fun l hl => ?_⟩,
    fun l => (h1.own l).trans (h2.own l)⟩
  · rw [hf, he, List.append_assoc]
  · rw [writtenIn_append, hes l hl, hfs l hl, List.nil_append]

theorem Extends.mono {b b' : Backend} (h : Extends P b b') (hPQ : ∀ l, P l → Q l) : Extends Q b b' := by
  obtain ⟨es, he, hes⟩ := h.events
  refine ⟨h.faults, h.order, fun name hn => h.tables name fun l hl => hn l (hPQ l hl), h.present,
    ⟨es, he, fun l hl => hes l fun hP => hl (hPQ l hP)⟩, fun l => ?_⟩
  obtain ⟨ops, hops, hown, htable⟩ := h.own l
  exact ⟨ops, hops, hown, fun hsole => htable fun m hm => hsole m (hPQ m hm)⟩

theorem Asked.extends {b b' : Backend} (h : Asked b b') : Extends P b b' := by
  obtain ⟨es, he, hes⟩ := h.events
  refine ⟨h.faults, h.order, fun name _ => ?_, fun name => ?_, ⟨es, he, fun l _ => hes l⟩, fun l => h.wroteOwn l⟩ <;>
    rw [h.store]

theorem Extends.refl (b : Backend) : Extends P b b := (Asked.refl b).extends

/-- A stage that did not work has written nothing. -/
theorem Extends.written {b b' : Backend} (h : Extends P b b') {l : Layout} (hl : ¬ P l) :
    b'.written l = b.written l := by
  obtain ⟨es, he, hes⟩ := h.events
  unfold Backend.written
  rw [he, writtenIn_append, hes l hl, List.append_nil]

/-- What was written stays written. -/
theorem Extends.written_prefix {b b' : Backend} (h : Extends P b b') (l : Layout) :
    b.written l <+: b'.written l := by
  obtain ⟨es, he, -⟩ := h.events
  unfold Backend.written
  rw [he, writtenIn_append]
  exact List.prefix_append _ _

/-- A table of other stages shows what it showed. -/
theorem Extends.shows {b b' : Backend} (h : Extends P b b') {l : Layout} {v : View}
    (hl : ∀ m, P m → m.table ≠ l.table) (hv : b.store.Shows l v) : b'.store.Shows l v :=
  hv.congr (h.tables l.table hl)

/-- A batch is refused, which is recorded, or it is written by the store. -/
theorem persist_cases (b : Backend) (l : Layout) (flushing : List Layout) (batch : List Operation) :
    (∃ e, b.persist l flushing batch = (.error e, b.called.record (.batch l flushing batch false))) ∨
      ∃ t, b.store.persist batch = .ok t ∧
        b.persist l flushing batch = (.ok (), { b.called.record (.batch l flushing batch true) with store := t }) := by
  unfold persist
  cases b.faults.persist b.calls batch with
  | some reason => exact .inl ⟨_, rfl⟩
  | none =>
    cases hstore : b.store.persist batch with
    | error e => exact .inl ⟨e, rfl⟩
    | ok t => exact .inr ⟨t, rfl, rfl⟩

/-- Writing a batch of rows of its own table is work of the stage. -/
theorem extends_persist (b : Backend) {l : Layout} (flushing : List Layout) {batch : List Operation} (hl : P l)
    (hbatch : ∀ op ∈ batch, op.table = l.table) : Extends P b (b.persist l flushing batch).2 := by
  have hevent (m : Layout) (hm : ¬ P m) : writtenIn m [.batch l flushing batch true] = [] := by
    have hne : l ≠ m := fun heq => hm (heq ▸ hl)
    simp [writtenIn, Event.accepted, hne]
  rcases persist_cases b l flushing batch with ⟨e, he⟩ | ⟨t, ht, hb⟩
  · rw [he]
    exact (asked_called b).extends.trans (asked_record b.called fun _ => rfl).extends
  · rw [hb, Store.persist_ok ht]
    refine ⟨rfl, rfl, fun name hn => ?_, fun name => Store.contains_foldl_write batch b.store name,
      ⟨[_], rfl, hevent⟩, fun m => ?_⟩
    · exact Store.tables_foldl_write_of_ne fun op hop => hbatch op hop ▸ hn l hl
    · by_cases hm : l = m
      · subst hm
        exact ⟨batch, by simp [Backend.written, record, writtenIn, Event.accepted, called], hbatch, fun _ => rfl⟩
      · refine ⟨[], by simp [Backend.written, record, writtenIn, Event.accepted, called, hm], by simp, fun hsole => ?_⟩
        exact Store.tables_foldl_write_of_ne fun op hop hname => hm (hsole l hl ((hbatch op hop).symm.trans hname))

end Backend

namespace Stage

open Backend

variable {σ : Type} {s : Stage} {P : Layout → Prop}

/-! ## Reconciling -/

theorem ready_spec (s : Stage) (kind : WriteKind) (x : Indicator) (b : Backend) :
    Asked b (s.ready kind x b).2 ∧
      ∀ op y, (s.ready kind x b).1 = some (op, y) →
        y = x ∧ x.measure = s.layout.measure ∧ op = .storing kind s.layout x := by
  have hasked := asked_prepare b kind s.layout x
  unfold ready
  rcases hp : b.prepare kind s.layout x with ⟨e | op, b'⟩
  · rw [hp] at hasked
    exact ⟨hasked.trans (asked_record b' fun _ => rfl), fun _ _ h => by cases h⟩
  · rw [hp] at hasked
    refine ⟨hasked, ?_⟩
    intro _ _ h
    obtain ⟨rfl, rfl⟩ := Prod.mk.inj (Option.some.inj h)
    have hok : Operation.prepare kind s.layout x = .ok op := by
      have hfst := congrArg Prod.fst hp
      simp only [Backend.prepare] at hfst
      split at hfst
      · cases hfst
      · exact hfst
    exact ⟨rfl, Operation.prepare_eq_ok.1 hok⟩

/-- What is stored of an entry `x` when `b` is asked: the entry itself, or the entry combined with
what was found under its key. -/
inductive Reconciled (s : Stage) (x : Indicator) (b : Backend) : WriteKind → Indicator → Prop
  | fresh (hget : (b.get s.layout x.key).1 = .ok none) : Reconciled s x b .insert x
  | joined {stored joined fresh : Indicator} (hget : (b.get s.layout x.key).1 = .ok (some stored))
    (hjoin : x.combine stored = .ok joined) (hfresh : joined.refresh = .ok fresh) :
    Reconciled s x b .update fresh

theorem refresh_key {x y : Indicator} (h : x.refresh = .ok y) : y.key = x.key := by
  unfold Indicator.refresh at h
  cases hv : x.value.refresh with
  | error e => rw [hv] at h; cases h
  | ok v => rw [hv] at h; cases h; rfl

theorem combine_key {x y z : Indicator} (h : x.combine y = .ok z) : z.key = x.key := by
  unfold Indicator.combine at h
  split at h
  · split at h
    · cases h; rfl
    · cases h
  · cases h

theorem Reconciled.key {x y : Indicator} {b : Backend} {kind : WriteKind} (h : Reconciled s x b kind y) :
    y.key = x.key := by
  cases h with
  | fresh => rfl
  | joined _ hjoin hfresh => exact (refresh_key hfresh).trans (combine_key hjoin)

/-- Reconciling only asks; a result of it is the operation that stores what was reconciled. -/
theorem reconcile_spec (s : Stage) (x : Indicator) (b : Backend) :
    Asked b (s.reconcile x b).2 ∧
      ∀ op y, (s.reconcile x b).1 = .ok (some (op, y)) →
        y.measure = s.layout.measure ∧ ∃ kind, Reconciled s x b kind y ∧ op = .storing kind s.layout y := by
  have hasked := asked_get b s.layout x.key
  unfold reconcile
  rcases hg : b.get s.layout x.key with ⟨e | found, b'⟩
  · rw [hg] at hasked
    exact ⟨hasked.trans (asked_record b' fun _ => rfl), fun _ _ h => by cases h⟩
  · rw [hg] at hasked
    cases found with
    | none =>
      obtain ⟨hready, hop⟩ := ready_spec s .insert x b'
      refine ⟨hasked.trans hready, ?_⟩
      intro op y h
      obtain ⟨rfl, hm, rfl⟩ := hop op y (Except.ok.inj h)
      exact ⟨hm, .insert, .fresh (by rw [hg]), rfl⟩
    | some stored =>
      dsimp only
      cases hj : x.combine stored with
      | error e => exact ⟨hasked.trans (asked_record b' fun _ => rfl), fun _ _ h => by cases h⟩
      | ok joined =>
        dsimp only
        cases hr : joined.refresh with
        | error fault => exact ⟨hasked, fun _ _ h => by cases h⟩
        | ok fresh =>
          obtain ⟨hready, hop⟩ := ready_spec s .update fresh b'
          refine ⟨hasked.trans hready, ?_⟩
          intro op y h
          obtain ⟨rfl, hm, rfl⟩ := hop op y (Except.ok.inj h)
          exact ⟨hm, .update, .joined (by rw [hg]) hj hr, rfl⟩

/-! ## Flushing and submitting -/

/-- Whatever a stage submits to the next one is work of the stages of `P`. -/
def Outlet.Within (P : Layout → Prop) (outlet : Option (Outlet σ)) : Prop :=
  ∀ next, outlet = some next → ∀ x below b, Extends P b (next.submit x below b).2.2

variable {outlet : Option (Outlet σ)}

theorem forward_ok {next : Outlet σ} {x y : Indicator} (h : x.rollup next.layout.level = .ok y) (c : Scene σ) :
    s.forward (some next) x c =
      ((next.submit y c.below c.backend).1, { c.count .addForwarded with
        below := (next.submit y c.below c.backend).2.1
        backend := (next.submit y c.below c.backend).2.2 }) := by
  unfold forward
  dsimp only
  rw [h]
  rfl

/-- What has no window at the level of the next stage is counted, reported and let go. -/
theorem forward_error {next : Outlet σ} {x : Indicator} {e : BucketError}
    (h : x.rollup next.layout.level = .error e) (c : Scene σ) :
    s.forward (some next) x c =
      (.ok (), (c.count .addForwardFailure).record (.forwardFailed s.layout x.key next.layout e)) := by
  unfold forward
  dsimp only
  rw [h]

/-- The number of updates that reached a stage. -/
def State.received (own : State) : Nat := own.tally.merged + own.tally.mergeFailures

/-- What a batch leaves alone of its stage's own state, while it is prepared and when it is written. -/
structure State.Kept (own own' : State) : Prop where
  windows : own'.windows = own.windows
  received : own'.received = own.received

theorem State.Kept.trans {own own' own'' : State} (h : Kept own own') (h' : Kept own' own'') : Kept own own'' :=
  ⟨h'.windows.trans h.windows, h'.received.trans h.received⟩

theorem forward_kept (outlet : Option (Outlet σ)) (x : Indicator) (c : Scene σ) :
    c.own.Kept (s.forward outlet x c).2.own := by
  cases outlet with
  | none => exact ⟨rfl, rfl⟩
  | some next =>
    cases hroll : x.rollup next.layout.level with
    | error e =>
      rw [forward_error hroll]
      exact ⟨rfl, rfl⟩
    | ok y =>
      rw [forward_ok hroll]
      exact ⟨rfl, rfl⟩

theorem prepareBatch_kept (outlet : Option (Outlet σ)) (xs : List Indicator) (c : Scene σ) :
    c.own.Kept (s.prepareBatch outlet xs c).2.own := by
  induction xs generalizing c with
  | nil => exact ⟨rfl, rfl⟩
  | cons x rest ih =>
    unfold prepareBatch
    rcases s.reconcile x c.backend with ⟨fault | _ | ⟨op, y⟩, b⟩
    · exact ⟨rfl, rfl⟩
    · obtain ⟨hwindows, hreceived⟩ := ih ({ c with backend := b }.count .addReconcileFailure)
      exact ⟨hwindows, hreceived⟩
    · have hforward := forward_kept (s := s) outlet y { c with backend := b }
      dsimp only
      rcases hf : s.forward outlet y { c with backend := b } with ⟨fault | _, c'⟩ <;> rw [hf] at hforward
      · exact hforward
      · exact hforward.trans (ih c')

theorem writeBatch_kept (above : List Layout) (batch : List Operation) (c : Scene σ) :
    c.own.Kept (s.writeBatch above batch c).2.own ∧ (s.writeBatch above batch c).2.below = c.below := by
  unfold writeBatch
  rcases c.backend.persist s.layout (above ++ [s.layout]) batch with ⟨e | _, b⟩ <;> exact ⟨⟨rfl, rfl⟩, rfl⟩

theorem forward_extends (hout : Outlet.Within P outlet) (x : Indicator) (c : Scene σ) :
    Extends P c.backend (s.forward outlet x c).2.backend := by
  cases outlet with
  | none => exact .refl _
  | some next =>
    cases hroll : x.rollup next.layout.level with
    | error e =>
      rw [forward_error hroll]
      exact (asked_record c.backend fun _ => rfl).extends
    | ok y =>
      rw [forward_ok hroll]
      exact hout next rfl y c.below c.backend

/-- Preparing a batch is work of the stages below, and every operation of it is for the own table. -/
theorem prepareBatch_extends (hout : Outlet.Within P outlet) (xs : List Indicator) (c : Scene σ) :
    Extends P c.backend (s.prepareBatch outlet xs c).2.backend ∧
      ∀ batch, (s.prepareBatch outlet xs c).1 = .ok batch → ∀ op ∈ batch, op.table = s.layout.table := by
  induction xs generalizing c with
  | nil =>
    refine ⟨.refl _, ?_⟩
    intro batch h
    obtain rfl : [] = batch := Except.ok.inj h
    exact fun _ h => by cases h
  | cons x rest ih =>
    unfold prepareBatch
    obtain ⟨hasked, hop⟩ := reconcile_spec s x c.backend
    rcases hr : s.reconcile x c.backend with ⟨fault | _ | ⟨op, y⟩, b⟩ <;> rw [hr] at hasked hop
    · exact ⟨hasked.extends, fun _ h => by cases h⟩
    · obtain ⟨hext, hbatch⟩ := ih ({ c with backend := b }.count .addReconcileFailure)
      exact ⟨hasked.extends.trans hext, hbatch⟩
    · obtain ⟨-, kind, -, rfl⟩ := hop op y rfl
      have hext := forward_extends (s := s) hout y { c with backend := b }
      dsimp only
      rcases hf : s.forward outlet y { c with backend := b } with ⟨fault | _, c'⟩ <;> rw [hf] at hext
      · exact ⟨hasked.extends.trans hext, fun _ h => by cases h⟩
      · obtain ⟨hext', hbatch⟩ := ih c'
        refine ⟨(hasked.extends.trans hext).trans hext', ?_⟩
        intro batch h
        dsimp only at h
        cases htail : (s.prepareBatch outlet rest c').1 with
        | error fault => rw [htail] at h; cases h
        | ok tail =>
          rw [htail] at h
          obtain rfl : _ :: tail = batch := Except.ok.inj h
          intro o ho
          rcases List.mem_cons.1 ho with rfl | ho
          · rfl
          · exact hbatch tail htail o ho

theorem writeBatch_extends (hs : P s.layout) (above : List Layout) {batch : List Operation}
    (hbatch : ∀ op ∈ batch, op.table = s.layout.table) (c : Scene σ) :
    Extends P c.backend (s.writeBatch above batch c).2.backend := by
  have hpersist := extends_persist c.backend (above ++ [s.layout]) hs hbatch
  unfold writeBatch
  rcases hp : c.backend.persist s.layout (above ++ [s.layout]) batch with ⟨e | _, b⟩ <;> rw [hp] at hpersist <;>
    exact hpersist

/-- What a flush drains from `p`, in the order in which it comes out. -/
def Scene.taken (c : Scene σ) (s : Stage) (p : WindowPair) : List Indicator := (p.drain (c.order s.layout)).1

theorem Scene.taken_perm (c : Scene σ) (s : Stage) (p : WindowPair) : (c.taken s p).Perm p.retired.indicators :=
  (c.order s.layout).perm _

@[simp] theorem Scene.mem_taken {c : Scene σ} {s : Stage} {p : WindowPair} {x : Indicator} :
    x ∈ c.taken s p ↔ x ∈ p.retired.indicators := (c.taken_perm s p).mem_iff

/-- The scene in which a flush prepares what it has drained from `p`. -/
def Scene.draining (c : Scene σ) (s : Stage) (p : WindowPair) : Scene σ :=
  (((c.setWindows p).setFlushing true).setWindows p.drain.2).record (.drained s.layout p.drain.1.length)

/-- The scene that a flush ends in, whatever became of its batch. -/
def Scene.flushed (c : Scene σ) : Scene σ := (c.setWindows c.own.windows.release).setFlushing false

theorem Scene.draining_asked (c : Scene σ) (s : Stage) (p : WindowPair) : Asked c.backend (c.draining s p).backend :=
  asked_record c.backend fun _ => rfl

/-- How a flush can go. -/
inductive Flushed (s : Stage) (outlet : Option (Outlet σ)) (above : List Layout) (c : Scene σ) :
    Outcome (Except FlushError Bool) × Scene σ → Prop where
  /-- The windows are not swapped. -/
  | unswapped {p : WindowPair} {a : Attempt}
      (hcommit : c.own.windows.begin.2.commit c.own.windows.begin.1 = (false, a, p)) :
      Flushed s outlet above c (.ok (.ok false), c.setWindows p.release)
  /-- A fault aborts the batch while it is prepared. -/
  | aborted {p : WindowPair} {a : Attempt} {fault : Fault} {d : Scene σ}
      (hcommit : c.own.windows.begin.2.commit c.own.windows.begin.1 = (true, a, p))
      (hprepare : s.prepareBatch outlet (c.taken s p) (c.draining s p) = (.error fault, d)) :
      Flushed s outlet above c (.error fault, d.flushed)
  /-- Nothing is left to be written. -/
  | unwritten {p : WindowPair} {a : Attempt} {d : Scene σ}
      (hcommit : c.own.windows.begin.2.commit c.own.windows.begin.1 = (true, a, p))
      (hprepare : s.prepareBatch outlet (c.taken s p) (c.draining s p) = (.ok [], d)) :
      Flushed s outlet above c (.ok (.ok true), d.flushed)
  /-- A batch goes to the gateway. -/
  | sent {p : WindowPair} {a : Attempt} {op : Operation} {batch : List Operation} {d d' : Scene σ}
      {r : Except FlushError Unit}
      (hcommit : c.own.windows.begin.2.commit c.own.windows.begin.1 = (true, a, p))
      (hprepare : s.prepareBatch outlet (c.taken s p) (c.draining s p) = (.ok (op :: batch), d))
      (hwrite : s.writeBatch above (op :: batch) d = (r, d')) :
      Flushed s outlet above c (.ok (r.map fun () => true), d'.flushed)

theorem flush_cases (s : Stage) (outlet : Option (Outlet σ)) (above : List Layout) (c : Scene σ) :
    Flushed s outlet above c (s.flush outlet above c) := by
  unfold flush flushRetired
  rcases hbegin : c.own.windows.begin with ⟨attempt, windows⟩
  dsimp only
  rcases hcommit : windows.commit attempt with ⟨swapped, a, p⟩
  have hcommitted : c.own.windows.begin.2.commit c.own.windows.begin.1 = (swapped, a, p) := by
    rw [hbegin]
    exact hcommit
  cases swapped with
  | false => exact .unswapped hcommitted
  | true =>
    dsimp only
    -- the order in which the entries come out does not change their number
    have hscene : (((c.setWindows p).setFlushing true).setWindows p.drain.2).record
        (.drained s.layout (c.taken s p).length) = c.draining s p := by
      rw [(c.taken_perm s p).length_eq]
      rfl
    rcases hdrain : ((c.setWindows p).setFlushing true).own.windows.drain
      (((c.setWindows p).setFlushing true).order s.layout) with ⟨entries, drained⟩
    obtain ⟨rfl, rfl⟩ : c.taken s p = entries ∧ p.drain.2 = drained := Prod.ext_iff.1 hdrain
    dsimp only
    rw [hscene]
    rcases hprepare : s.prepareBatch outlet (c.taken s p) (c.draining s p) with ⟨fault | _ | ⟨op, batch⟩, d⟩
    · exact .aborted hcommitted hprepare
    · exact .unwritten hcommitted hprepare
    · exact .sent hcommitted hprepare rfl

theorem flush_extends (hs : P s.layout) (hout : Outlet.Within P outlet) (above : List Layout) (c : Scene σ) :
    Extends P c.backend (s.flush outlet above c).2.backend := by
  have hprepared {p : WindowPair} {r : Outcome (List Operation)} {d : Scene σ}
      (h : s.prepareBatch outlet (c.taken s p) (c.draining s p) = (r, d)) :
      Extends P c.backend d.backend ∧ ∀ batch, r = .ok batch → ∀ op ∈ batch, op.table = s.layout.table := by
    obtain ⟨hext, hbatch⟩ := prepareBatch_extends (s := s) hout (c.taken s p) (c.draining s p)
    rw [h] at hext hbatch
    exact ⟨(c.draining_asked s p).extends.trans hext, hbatch⟩
  rcases hflush : s.flush outlet above c with ⟨r, e⟩
  cases hflush ▸ flush_cases s outlet above c with
  | unswapped _ => exact .refl _
  | aborted _ hprepare => exact (hprepared hprepare).1
  | unwritten _ hprepare => exact (hprepared hprepare).1
  | @sent _ _ _ _ d _ _ _ hprepare hwrite =>
    obtain ⟨hext, hbatch⟩ := hprepared hprepare
    have hwritten := writeBatch_extends hs above (hbatch _ rfl) d
    rw [hwrite] at hwritten
    exact hext.trans hwritten

theorem merge_extends (x : Indicator) (c : Scene σ) : Extends P c.backend (s.merge x c).2.backend := by
  unfold merge
  rcases c.own.windows.merge x with ⟨_ | _ | _, p⟩
  · exact .refl _
  · exact (asked_record c.backend fun _ => rfl).extends
  · exact .refl _

theorem submit_extends (hs : P s.layout) (hout : Outlet.Within P outlet) (above : List Layout) (x : Indicator)
    (c : Scene σ) : Extends P c.backend (s.submit outlet above x c).2.backend := by
  unfold submit
  split
  · have hflush := flush_extends hs hout above c
    rcases hf : s.flush outlet above c with ⟨fault | e | _, c'⟩ <;> rw [hf] at hflush
    · exact hflush
    · exact (hflush.trans (asked_record c'.backend fun _ => rfl).extends).trans
        (merge_extends x (c'.record (.flushFailed e)))
    · exact hflush.trans (merge_extends x c')
  · exact merge_extends x c

/-! ## Lines -/

/-- The stage that `s` hands on to, where the flushes of `above` have led to `s`. -/
def downstream (s : Stage) (rest : List Stage) (above : List Layout) : Option (Outlet (States rest)) :=
  s.outlet rest (submitIn rest (above ++ [s.layout]))

/-- A stage hands on to one of the stages below it. -/
theorem outlet_eq_some {rest : List Stage} {next : Outlet (States rest)}
    {f : Nat → Indicator → States rest → Backend → Outcome Unit × States rest × Backend}
    (h : s.outlet rest f = some next) :
    ∃ j t, s.next = some j ∧ rest[j]? = some t ∧ next = ⟨t.layout, f j⟩ := by
  unfold outlet at h
  obtain ⟨j, hj, h⟩ := Option.bind_eq_some_iff.1 h
  obtain ⟨t, ht, rfl⟩ := Option.map_eq_some_iff.1 h
  exact ⟨j, t, hj, ht, rfl⟩

theorem downstream_eq {rest : List Stage} {j : Nat} {t : Stage} (hnext : s.next = some j)
    (hfed : rest[j]? = some t) (above : List Layout) :
    s.downstream rest above = some ⟨t.layout, submitIn rest (above ++ [s.layout]) j⟩ := by
  unfold downstream Stage.outlet
  rw [hnext, Option.bind_some, hfed, Option.map_some]

theorem submitIn_head (s : Stage) (rest : List Stage) (above : List Layout) (x : Indicator)
    (states : States (s :: rest)) (b : Backend) :
    submitIn (s :: rest) above 0 x states b =
      match s.submit (s.downstream rest above) above x ⟨states.1, states.2, b⟩ with
      | (r, c) => (r, (c.own, c.below), c.backend) := rfl

theorem submitIn_tail (s : Stage) (rest : List Stage) (above : List Layout) (i : Nat) (x : Indicator)
    (states : States (s :: rest)) (b : Backend) :
    submitIn (s :: rest) above (i + 1) x states b =
      match submitIn rest above i x states.2 b with
      | (r, below, b) => (r, (states.1, below), b) := rfl

theorem flushIn_head (s : Stage) (rest : List Stage) (states : States (s :: rest)) (b : Backend) :
    flushIn (s :: rest) 0 states b =
      match s.flushHead rest states b with
      | (r, c) => (r, (c.own, c.below), c.backend) := rfl

theorem flushIn_tail (s : Stage) (rest : List Stage) (i : Nat) (states : States (s :: rest)) (b : Backend) :
    flushIn (s :: rest) (i + 1) states b =
      match flushIn rest i states.2 b with
      | (r, below, b) => (r, (states.1, below), b) := rfl

theorem flushAllIn_cons (s : Stage) (rest : List Stage) (states : States (s :: rest)) (b : Backend) :
    flushAllIn (s :: rest) states b =
      match s.flushHead rest states b with
      | (.error fault, c) => (.error fault, (c.own, c.below), c.backend)
      | (.ok (.ok _), c) =>
        match flushAllIn rest c.below c.backend with
        | (r, below, b) => (r, (c.own, below), b)
      | (.ok (.error e), c) =>
        match flushAllIn rest c.below (c.backend.record (.flushFailed e)) with
        | (r, below, b) => (r.map fun _ => .error e, (c.own, below), b) := rfl

/-- The layouts of some stages. -/
def Among (stages : List Stage) (l : Layout) : Prop := ∃ s ∈ stages, s.layout = l

theorem Among.tail {rest : List Stage} {l : Layout} (h : Among rest l) : Among (s :: rest) l := by
  obtain ⟨t, ht, rfl⟩ := h
  exact ⟨t, List.mem_cons_of_mem _ ht, rfl⟩

theorem Among.head (s : Stage) (rest : List Stage) : Among (s :: rest) s.layout :=
  ⟨s, List.mem_cons_self .., rfl⟩

theorem outlet_within {rest : List Stage}
    {f : Nat → Indicator → States rest → Backend → Outcome Unit × States rest × Backend}
    (hf : ∀ i x states b, Extends P b (f i x states b).2.2) : Outlet.Within P (s.outlet rest f) := by
  intro next hnext x below b
  obtain ⟨j, t, -, -, rfl⟩ := outlet_eq_some hnext
  exact hf j x below b

/-- An update is work of the stages of its line. -/
theorem submitIn_extends : ∀ (stages : List Stage) (above : List Layout) (i : Nat) (x : Indicator)
    (states : States stages) (b : Backend), Extends (Among stages) b (submitIn stages above i x states b).2.2
  | [], _, _, _, (), b => .refl b
  | s :: rest, above, 0, x, (own, below), b =>
    submit_extends (Among.head s rest)
      (outlet_within fun i x states b => (submitIn_extends rest _ i x states b).mono fun _ => Among.tail)
      above x ⟨own, below, b⟩
  | _ :: rest, above, i + 1, x, (_, below), b =>
    (submitIn_extends rest above i x below b).mono fun _ => Among.tail

/-- What a stage submits to the next one is work of the stages below it. -/
theorem downstream_within (s : Stage) (rest : List Stage) (above : List Layout) :
    Outlet.Within (Among rest) (s.downstream rest above) :=
  outlet_within fun i x states b => submitIn_extends rest (above ++ [s.layout]) i x states b

theorem flushHead_extends (s : Stage) (rest : List Stage) (states : States (s :: rest)) (b : Backend) :
    Extends (Among (s :: rest)) b (s.flushHead rest states b).2.backend :=
  flush_extends (Among.head s rest)
    (outlet_within fun i x states b => (submitIn_extends rest _ i x states b).mono fun _ => Among.tail)
    [] ⟨states.1, states.2, b⟩

theorem flushIn_extends : ∀ (stages : List Stage) (i : Nat) (states : States stages) (b : Backend),
    Extends (Among stages) b (flushIn stages i states b).2.2
  | [], _, (), b => .refl b
  | s :: rest, 0, states, b => flushHead_extends s rest states b
  | _ :: rest, i + 1, (_, below), b => (flushIn_extends rest i below b).mono fun _ => Among.tail

/-- Flushing a line is work of its stages. -/
theorem flushAllIn_extends : ∀ (stages : List Stage) (states : States stages) (b : Backend),
    Extends (Among stages) b (flushAllIn stages states b).2.2
  | [], (), b => .refl b
  | s :: rest, states, b => by
    have hhead := flushHead_extends s rest states b
    have hrest := flushAllIn_extends rest
    unfold flushAllIn
    rcases hf : s.flushHead rest states b with ⟨fault | e | _, c⟩ <;> rw [hf] at hhead
    · exact hhead
    · have hreport : Extends (Among (s :: rest)) c.backend (c.backend.record (.flushFailed e)) :=
        (asked_record c.backend fun _ => rfl).extends
      exact (hhead.trans hreport).trans ((hrest c.below _).mono fun _ => Among.tail)
    · exact hhead.trans ((hrest c.below c.backend).mono fun _ => Among.tail)

end Stage

end MetricCascade
