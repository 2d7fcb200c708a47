/-
What the counters of a stage count. Every update that a stage was given was merged or failed to be; every entry
that was read out of its windows was stored, dropped or lost with its batch, and handed on unless it was dropped,
where there is a next stage; batches are counted by their answers; and every insertion is a row of the table. The
other side of each account is read off the journal and the table. A stage keeps its accounts while a batch is
prepared, with what is prepared and what is still to come as two further items.
-/
import MetricCascade.Proofs.Stage.Refused
import MetricCascade.Proofs.Stage.Runs

namespace MetricCascade

/-! ## What a journal counts -/

namespace Event

/-- The number of entries that were read out of a window of a stage. -/
def drainedOf (l : Layout) : Event → Nat
  | .drained stage entries => if stage = l then entries else 0
  | _ => 0

/-- The number of operations in a refused batch of a stage. -/
def lostOf (l : Layout) : Event → Nat
  | .batch stage _ operations false => if stage = l then operations.length else 0
  | _ => 0

/-- One for a batch of a stage that was answered so. -/
def batchOf (l : Layout) (ok : Bool) : Event → Nat
  | .batch stage _ _ accepted => if stage = l ∧ accepted = ok then 1 else 0
  | _ => 0

/-- The figure is zero for events that are no work of the stage. -/
def OwnFigure (l : Layout) (f : Event → Nat) : Prop := ∀ e : Event, e.worker? ≠ some l → f e = 0

@[simp] theorem drainedOf_drained (l : Layout) (entries : Nat) : drainedOf l (.drained l entries) = entries := if_pos rfl

@[simp] theorem lostOf_drained (l stage : Layout) (entries : Nat) : lostOf l (.drained stage entries) = 0 := rfl

@[simp] theorem batchOf_drained (l stage : Layout) (ok : Bool) (entries : Nat) :
    batchOf l ok (.drained stage entries) = 0 := rfl

@[simp] theorem drainedOf_batch (l : Layout) (flushing : List Layout) (ops : List Operation) (ok : Bool) :
    drainedOf l (.batch l flushing ops ok) = 0 := rfl

@[simp] theorem lostOf_batch (l : Layout) (flushing : List Layout) (ops : List Operation) (ok : Bool) :
    lostOf l (.batch l flushing ops ok) = if ok then 0 else ops.length := by
  cases ok with
  | false => exact if_pos rfl
  | true => rfl

@[simp] theorem batchOf_batch (l : Layout) (flushing : List Layout) (ops : List Operation) (ok accepted : Bool) :
    batchOf l ok (.batch l flushing ops accepted) = if accepted = ok then 1 else 0 := by
  simp only [batchOf, true_and]

theorem ownFigure_drainedOf (l : Layout) : OwnFigure l (drainedOf l) := by
  intro e he
  cases e <;> try rfl
  exact if_neg fun heq => he (congrArg some heq)

theorem ownFigure_lostOf (l : Layout) : OwnFigure l (lostOf l) := by
  intro e he
  cases e with
  | batch stage flushing operations accepted =>
    cases accepted with
    | false => exact if_neg fun heq => he (congrArg some heq)
    | true => rfl
  | _ => rfl

theorem ownFigure_batchOf (l : Layout) (ok : Bool) : OwnFigure l (batchOf l ok) := by
  intro e he
  cases e <;> try rfl
  exact if_neg fun heq => he (congrArg some heq.1)

end Event

namespace Backend

/-- The total of a figure over the journal. -/
def tallied (f : Event → Nat) (b : Backend) : Nat := (b.journal.map f).sum

variable {b b' : Backend} {f : Event → Nat} {l : Layout}

/-- What a stage has not worked on does not show in its figures. -/
theorem tallied_of_noted {P : Layout → Prop} (hf : Event.OwnFigure l f) (h : Noted P b b') (hl : ¬ P l) :
    b'.tallied f = b.tallied f := by
  obtain ⟨es, hes, hworker⟩ := h
  have hzero : (es.map f).sum = 0 := by
    rw [List.sum_eq_zero_iff_forall_eq_nat]
    intro n hn
    obtain ⟨e, he, rfl⟩ := List.mem_map.1 hn
    exact hf e fun heq => hl (hworker e he l heq)
  unfold tallied
  rw [hes, List.map_append, List.sum_append, hzero, Nat.zero_add]

end Backend

/-! ## Rows of a table -/

namespace Store

/-- The number of rows of a table; a missing one has none. -/
def rowCount (s : Store) (name : String) : Nat := ((s.tables.get? name).map (·.rows.size)).getD 0

theorem rowCount_write {s : Store} {op : Operation} (h : s.tables.contains op.table = true) :
    (s.write op).rowCount op.table = s.rowCount op.table + if (s.row? op.table op.id).isSome then 0 else 1 := by
  obtain ⟨t, ht⟩ := Option.isSome_iff_exists.1 h
  unfold rowCount row?
  rw [tables_write, if_pos rfl, ht]
  simp only [Option.map_some, Option.getD_some, Option.bind_some, Dict.size_insert, Dict.contains]
  by_cases hrow : (t.rows.get? op.id).isSome = true <;> simp [hrow]

/-- A batch of distinct rows adds those to a table that it did not have. -/
theorem rowCount_foldl_write {name : String} {batch : List Operation} : ∀ {s : Store}, s.tables.contains name = true →
    (∀ op ∈ batch, op.table = name) → (batch.map (·.id)).Nodup →
    (∀ op ∈ batch, op.isUpdate = (s.row? name op.id).isSome) →
      (batch.foldl write s).rowCount name = s.rowCount name + batch.countP (fun op => !op.isUpdate) := by
  induction batch with
  | nil => exact fun _ _ _ _ => rfl
  | cons op batch ih =>
    intro s hname htable hnodup hkinds
    obtain rfl := htable op (List.mem_cons_self ..)
    rw [List.map_cons, List.nodup_cons] at hnodup
    -- the rows still to be written are other rows than the one that was
    have hkinds' : ∀ o ∈ batch, o.isUpdate = ((s.write op).row? op.table o.id).isSome := by
      intro o ho
      have hne : o.id ≠ op.id := fun heq => hnodup.1 (heq ▸ List.mem_map_of_mem ho)
      rw [row?_write hname, if_neg hne]
      exact hkinds o (List.mem_cons_of_mem _ ho)
    have hrest := ih ((contains_write s op op.table).trans hname) (fun o ho => htable o (List.mem_cons_of_mem _ ho))
      hnodup.2 hkinds'
    rw [List.foldl_cons, hrest, rowCount_write hname, List.countP_cons, ← hkinds op (List.mem_cons_self ..)]
    have hone : (if op.isUpdate = true then 0 else 1) + batch.countP (fun op => !op.isUpdate) =
        batch.countP (fun op => !op.isUpdate) + if (!op.isUpdate) = true then 1 else 0 := by
      cases op.isUpdate <;> simp [Nat.add_comm]
    rw [Nat.add_assoc, hone]

/-- So does a batch that the store accepts. -/
theorem rowCount_persist {s t : Store} {name : String} {batch : List Operation} (h : s.persist batch = .ok t)
    (htable : ∀ op ∈ batch, op.table = name) (hnodup : (batch.map (·.id)).Nodup)
    (hkinds : ∀ op ∈ batch, op.isUpdate = (s.row? name op.id).isSome) :
    t.rowCount name = s.rowCount name + batch.countP (fun op => !op.isUpdate) := by
  have hpresent : batch = [] ∨ s.tables.contains name = true := by
    cases batch with
    | nil => exact .inl rfl
    | cons op rest =>
      have hop := contains_of_persist h (List.mem_cons_self ..)
      exact .inr (htable op (List.mem_cons_self ..) ▸ hop)
  rw [persist_ok h]
  rcases hpresent with rfl | hname
  · rfl
  · exact rowCount_foldl_write hname htable hnodup hkinds

end Store

namespace Stage

open Backend Store Event

variable {σ : Type} {s : Stage} {outlet : Option (Outlet σ)} {next : Option Layout} {b b' : Backend}

/-! ## The accounts of a stage -/

/-- What is prepared but not written yet, and what is still to come, appear in the accounts of a stage that is
flushing: so many operations, and so many entries. -/
structure Balance (s : Stage) (next : Option Layout) (n prepared pending : Nat) (t : Tally) (b : Backend) : Prop where
  received : t.merged + t.mergeFailures = n
  drained : b.tallied (drainedOf s.layout) =
    t.inserts + t.updates + t.reconcileFailures + b.tallied (lostOf s.layout) + prepared + pending
  handed : t.forwarded + t.forwardFailures =
    if next.isSome then t.inserts + t.updates + b.tallied (lostOf s.layout) + prepared else 0
  flushes : t.flushes = b.tallied (batchOf s.layout true)
  persistFailures : t.persistFailures = b.tallied (batchOf s.layout false)
  rows : t.inserts = b.store.rowCount s.layout.table

/-- Between operations nothing is prepared and nothing pending. -/
structure Booked (s : Stage) (next : Option Layout) (n : Nat) (own : State) (b : Backend) : Prop where
  idle : own.windows.Idle
  balance : Balance s next n 0 0 own.tally b

/-- The work of other stages shows in no account. -/
theorem Balance.aside {P : Layout → Prop} {n prepared pending : Nat} {t : Tally}
    (h : Balance s next n prepared pending t b) (hb : Aside P b b') (hP : ∀ l, P l → l.table ≠ s.layout.table) :
    Balance s next n prepared pending t b' := by
  have hother : ¬ P s.layout := fun hs => hP s.layout hs rfl
  have hlost := tallied_of_noted (ownFigure_lostOf s.layout) hb.noted hother
  refine ⟨h.received, ?_, ?_, ?_, ?_, ?_⟩
  · rw [tallied_of_noted (ownFigure_drainedOf s.layout) hb.noted hother, hlost]
    exact h.drained
  · rw [hlost]
    exact h.handed
  · rw [tallied_of_noted (ownFigure_batchOf s.layout true) hb.noted hother]
    exact h.flushes
  · rw [tallied_of_noted (ownFigure_batchOf s.layout false) hb.noted hother]
    exact h.persistFailures
  · unfold rowCount
    rw [hb.work.tables s.layout.table hP]
    exact h.rows

/-! ## Preparing a batch -/

/-- What holds while a batch is prepared: beside the accounts, the operations and the entries to come are for
different rows of the own table, and an operation is an update exactly if its row is there. -/
structure Counting (s : Stage) (next : Option Layout) (J : Nat → σ → Backend → Prop) (n : Nat) (windows : WindowPair)
    (xs : List Indicator) (ops : List Operation) (c : Scene σ) : Prop where
  windows : c.own.windows = windows
  balance : Balance s next n ops.length xs.length c.own.tally c.backend
  distinct : (ops.map (·.id) ++ xs.map (·.key.text)).Nodup
  tables : ∀ op ∈ ops, op.table = s.layout.table
  kinds : ∀ op ∈ ops, op.isUpdate = (c.backend.store.row? s.layout.table op.id).isSome
  below : J c.own.tally.forwarded c.below c.backend

variable {J : Nat → σ → Backend → Prop} {n : Nat} {windows : WindowPair} {rest : List Indicator} {x y : Indicator}
  {ops : List Operation} {op : Operation} {c d : Scene σ} {A : Layout → Indicator → Prop}

/-- Reconciling makes an update exactly of an entry that has a row. -/
theorem reconcile_kind (h : s.reconcile x b = (.ok (some (op, y)), b')) :
    op.id = x.key.text ∧ op.table = s.layout.table ∧
      op.isUpdate = (b.store.row? s.layout.table x.key.text).isSome := by
  obtain ⟨-, hop⟩ := reconcile_spec s x b
  rw [h] at hop
  obtain ⟨-, kind, hreconciled, rfl⟩ := hop op y rfl
  refine ⟨congrArg Key.text hreconciled.key, rfl, ?_⟩
  cases hreconciled with
  | fresh hget =>
    rw [get_eq_none (get_ok hget)]
    rfl
  | joined hget _ _ =>
    obtain ⟨row, hrow, -⟩ := get_eq_some (get_ok hget)
    rw [hrow]
    rfl

/-- Work on other tables keeps what is known of the rows of the own one. -/
theorem row?_aside {P : Layout → Prop} {name : String} (hb : Aside P b b') (hP : ∀ l, P l → l.table ≠ name) (id : String) :
    b'.store.row? name id = b.store.row? name id := by
  unfold row?
  rw [hb.work.tables name hP]

/-- An entry that is left out is counted as one that could not be reconciled. -/
theorem Counting.left (hout : Outlet.Honours outlet s.layout A J)
    (h : Counting s (outlet.map (·.layout)) J n windows (x :: rest) ops c)
    (hreconcile : s.reconcile x c.backend = (.ok none, b)) :
    Counting s (outlet.map (·.layout)) J n windows rest ops ({ c with backend := b }.count .addReconcileFailure) := by
  have hnobody : Aside (fun _ => False) c.backend b := reconcile_aside hreconcile
  have hbalance := h.balance.aside hnobody fun _ hl => hl.elim
  refine ⟨h.windows, { hbalance with drained := ?_ }, ?_, h.tables, fun op hop => ?_,
    hout.aside (reconcile_aside hreconcile) h.below⟩
  · have hdrained := hbalance.drained
    simp only [List.length_cons] at hdrained
    show b.tallied (drainedOf s.layout) = c.own.tally.inserts + c.own.tally.updates + (c.own.tally.reconcileFailures + 1) +
      b.tallied (lostOf s.layout) + ops.length + rest.length
    omega
  · exact h.distinct.sublist (List.Sublist.append_left (List.sublist_cons_self ..) _)
  · show op.isUpdate = (b.store.row? s.layout.table op.id).isSome
    rw [row?_aside hnobody (fun _ hl => hl.elim)]
    exact h.kinds op hop

/-- Handing an operation's indicator on counts it, if there is a next stage. -/
theorem Balance.forwarded (hout : Outlet.Honours outlet s.layout A J) (hA : ∀ l x, A l x) {prepared pending : Nat}
    (h : Balance s (outlet.map (·.layout)) n prepared (pending + 1) c.own.tally c.backend)
    (hJ : J c.own.tally.forwarded c.below c.backend) (hforward : s.forward outlet y c = (.ok (), d)) :
    Balance s (outlet.map (·.layout)) n (prepared + 1) pending d.own.tally d.backend ∧
      J d.own.tally.forwarded d.below d.backend ∧ d.own.windows = c.own.windows ∧
      Aside (fun l => l.table ≠ s.layout.table) c.backend d.backend := by
  -- an entry that was to come is prepared now
  have hdrained {t : Tally} {b : Backend} (h : b.tallied (drainedOf s.layout) =
      t.inserts + t.updates + t.reconcileFailures + b.tallied (lostOf s.layout) + prepared + (pending + 1)) :
      b.tallied (drainedOf s.layout) =
        t.inserts + t.updates + t.reconcileFailures + b.tallied (lostOf s.layout) + (prepared + 1) + pending := by omega
  cases outlet with
  | none =>
    cases hforward
    exact ⟨{ h with drained := hdrained h.drained }, hJ, rfl, .refl _⟩
  | some next =>
    cases hroll : y.rollup next.layout.level with
    | error e =>
      rw [forward_error hroll] at hforward
      cases hforward
      have hreport : ∀ {P}, Aside P c.backend (c.backend.record (.forwardFailed s.layout y.key next.layout e)) :=
        aside_report c.backend rfl
      have hbalance := h.aside (hreport (P := fun _ => False)) fun _ hl => hl.elim
      refine ⟨{ hbalance with drained := hdrained hbalance.drained, handed := ?_ }, hout.aside hreport hJ, rfl, hreport⟩
      have hhanded := hbalance.handed
      simp only [Option.map_some, Option.isSome_some, if_true] at hhanded ⊢
      show c.own.tally.forwarded + (c.own.tally.forwardFailures + 1) = _
      rw [← Nat.add_assoc, hhanded]
      rfl
    | ok z =>
      rcases hsubmit : next.submit z c.below c.backend with ⟨r, below', b₂⟩
      rw [forward_ok hroll, hsubmit] at hforward
      cases hforward
      have haside := hout.apart next rfl z c.below c.backend _ _ hsubmit
      have hbalance := h.aside haside fun _ hl => hl
      refine ⟨{ hbalance with drained := hdrained hbalance.drained, handed := ?_ }, hout.takes rfl hJ (hA _ _) hsubmit,
        rfl, haside⟩
      have hhanded := hbalance.handed
      simp only [Option.map_some, Option.isSome_some, if_true] at hhanded ⊢
      show c.own.tally.forwarded + 1 + c.own.tally.forwardFailures = _
      rw [Nat.add_right_comm, hhanded]
      rfl

/-- An entry that is reconciled is prepared, whatever becomes of its indicator below. -/
theorem Counting.taken (hout : Outlet.Honours outlet s.layout A J) (hA : ∀ l x, A l x)
    (h : Counting s (outlet.map (·.layout)) J n windows (x :: rest) ops c)
    (hreconcile : s.reconcile x c.backend = (.ok (some (op, y)), b))
    (hforward : s.forward outlet y { c with backend := b } = (.ok (), d)) :
    Counting s (outlet.map (·.layout)) J n windows rest (ops ++ [op]) d := by
  obtain ⟨hid, htable, hkind⟩ := reconcile_kind hreconcile
  have hnobody : Aside (fun _ => False) c.backend b := reconcile_aside hreconcile
  have hbalance := h.balance.aside hnobody fun _ hl => hl.elim
  have hJ := hout.aside (reconcile_aside hreconcile) h.below
  obtain ⟨hprepared, hbelow, hwindows, haside⟩ :=
    Balance.forwarded (c := { c with backend := b }) hout hA hbalance hJ hforward
  -- neither asking nor handing on has touched the own table
  have hrow (id : String) : d.backend.store.row? s.layout.table id = c.backend.store.row? s.layout.table id :=
    (row?_aside haside (fun _ hl => hl) id).trans (row?_aside hnobody (fun _ hl => hl.elim) id)
  refine ⟨hwindows.trans h.windows, ?_, ?_, ?_, ?_, hbelow⟩
  · rw [List.length_append]
    exact hprepared
  · rw [List.map_append, List.append_assoc]
    simpa [hid] using h.distinct
  · intro o ho
    rcases List.mem_append.1 ho with ho | ho
    · exact h.tables o ho
    · rw [List.mem_singleton.1 ho]
      exact htable
  · intro o ho
    rw [hrow]
    rcases List.mem_append.1 ho with ho | ho
    · exact h.kinds o ho
    · rw [List.mem_singleton.1 ho, hid]
      exact hkind

/-- A batch that was sent is in the accounts as accepted or as lost. -/
theorem Counting.answered (h : Counting s next J n windows [] ops c) (above : List Layout) :
    Balance s next n 0 0 (s.writeBatch above ops c).2.own.tally (s.writeBatch above ops c).2.backend := by
  obtain ⟨-, hbalance, hdistinct, htables, hkinds, -⟩ := h
  have hdrained := hbalance.drained
  have hhanded := hbalance.handed
  have hsplit : ops.length = ops.countP Operation.isUpdate + ops.countP fun op => !op.isUpdate := by
    simpa using List.length_eq_countP_add_countP Operation.isUpdate (l := ops)
  unfold writeBatch
  rcases persist_cases c.backend s.layout (above ++ [s.layout]) ops with ⟨e, he⟩ | ⟨t, ht, hb⟩
  · rw [he]
    have htallied (f : Event → Nat) : (c.backend.called.record (.batch s.layout (above ++ [s.layout]) ops false)).tallied f =
        f (.batch s.layout (above ++ [s.layout]) ops false) + c.backend.tallied f := rfl
    refine ⟨hbalance.received, ?_, ?_, ?_, ?_, hbalance.rows⟩ <;>
      simp only [Scene.count, Tally.addPersistFailure, htallied, drainedOf_batch, lostOf_batch, batchOf_batch,
        Bool.false_eq_true, if_false, if_true, hdrained, hhanded, hbalance.flushes, hbalance.persistFailures,
        List.length_nil]
    · omega
    · split <;> omega
    · omega
    · omega
  · rw [hb]
    have hrows := rowCount_persist ht htables (by simpa using hdistinct) hkinds
    have htallied (f : Event → Nat) : Backend.tallied f
        { c.backend.called.record (.batch s.layout (above ++ [s.layout]) ops true) with store := t } =
        f (.batch s.layout (above ++ [s.layout]) ops true) + c.backend.tallied f := rfl
    refine ⟨hbalance.received, ?_, ?_, ?_, ?_, ?_⟩ <;>
      simp only [Scene.count, Tally.addFlush, htallied, drainedOf_batch, lostOf_batch, batchOf_batch,
        Bool.true_eq_false, if_false, if_true, hdrained, hhanded, hbalance.flushes, hbalance.persistFailures,
        List.length_nil]
    · omega
    · split <;> omega
    · omega
    · omega
    · rw [hbalance.rows]
      exact hrows.symm

/-- After the answer nothing is prepared any more. -/
theorem Counting.written (hout : Outlet.Honours outlet s.layout A J) (h : Counting s next J n windows [] ops c)
    (above : List Layout) : Counting s next J n windows [] [] (s.writeBatch above ops c).2 := by
  have hanswered := h.answered above
  have hbelow := hout.aside (writeBatch_aside above h.tables c) h.below
  obtain ⟨hkept, -⟩ := writeBatch_kept (s := s) above ops c
  refine ⟨hkept.windows.trans h.windows, hanswered, List.nodup_nil, nofun, nofun, ?_⟩
  unfold writeBatch at hbelow ⊢
  rcases hp : c.backend.persist s.layout (above ++ [s.layout]) ops with ⟨e | _, b⟩ <;> rw [hp] at hbelow <;> exact hbelow

/-- A flush begins with what it has read out still to come. -/
theorem Booked.draining (hout : Outlet.Honours outlet s.layout A J) (h : Booked s next n c.own c.backend)
    (hJ : J c.own.tally.forwarded c.below c.backend) :
    Counting s next J n c.own.windows.swapped.drain.2 (c.taken s c.own.windows.swapped) []
      (c.draining s c.own.windows.swapped) := by
  obtain ⟨-, hbalance⟩ := h
  have htaken : (c.taken s c.own.windows.swapped).Perm c.own.windows.active.indicators := c.taken_perm s _
  have htallied (f : Event → Nat) : (c.draining s c.own.windows.swapped).backend.tallied f =
      f (.drained s.layout c.own.windows.active.indicators.length) + c.backend.tallied f := rfl
  refine ⟨rfl, ⟨hbalance.received, ?_, ?_, ?_, ?_, hbalance.rows⟩, ?_, nofun, nofun, hout.aside (c.draining_aside s _) hJ⟩
  · rw [htallied, htallied, drainedOf_drained, lostOf_drained, Nat.zero_add, hbalance.drained, htaken.length_eq,
      Nat.add_comm]
    rfl
  · rw [htallied, lostOf_drained, Nat.zero_add]
    exact hbalance.handed
  · rw [htallied, batchOf_drained, Nat.zero_add]
    exact hbalance.flushes
  · rw [htallied, batchOf_drained, Nat.zero_add]
    exact hbalance.persistFailures
  · show ((c.taken s c.own.windows.swapped).map (·.key.text)).Nodup
    have hkeys := c.own.windows.active.nodup_indicators.map fun _ _ => Key.text_injective
    rw [List.map_map] at hkeys
    exact (htaken.map _).nodup_iff.2 hkeys

/-- Every stage keeps its accounts, whatever it is given. -/
theorem upholds_booked : Upholds (fun _ _ => True) Booked s next where
  flush {σ outlet J above n c d r} hnext hout hI hJ hflush := by
    subst hnext
    obtain ⟨e, he, rfl⟩ := flush_rule
      (K := Counting s (outlet.map (·.layout)) J n c.own.windows.swapped.drain.2 [] []) hI.idle (hI.draining hout hJ)
      (fun _ _ _ _ _ h hreconcile => h.left hout hreconcile)
      (fun _ _ _ _ _ _ _ _ h hreconcile hforward => h.taken hout (fun _ _ => trivial) hreconcile hforward)
      (fun _ h => h) (fun _ _ _ h => h.written hout above) hflush
    have hwindows : e.flushed.own.windows = c.own.windows.swapped.drain.2.release := congrArg WindowPair.release he.windows
    exact ⟨⟨hwindows ▸ hI.idle.release.1, he.balance⟩, he.below⟩
  merge {σ n x c d} _ hI hmerge := by
    have hreceived : d.own.tally.merged + d.own.tally.mergeFailures = n + 1 :=
      (merge_received hmerge).trans (congrArg Nat.succ hI.balance.received)
    have hidle := hI.idle.merge x
    unfold Stage.merge at hmerge
    rcases hp : c.own.windows.merge x with ⟨fault | e | _, p⟩ <;> rw [hp] at hmerge hidle <;> cases hmerge
    · have hreported := hI.balance.aside (P := fun _ => False)
        (aside_report c.backend (e := .updateRejected s.layout x.key e) rfl) fun _ hl => hl.elim
      exact ⟨hidle, { hreported with received := hreceived }⟩
    · exact ⟨hidle, { hI.balance with received := hreceived }⟩
  aside hb hI := ⟨hI.idle, hI.balance.aside hb fun _ hl => hl⟩

/-! ## Lines -/

theorem upholding_booked : ∀ {stages : List Stage}, (stages.map (·.layout.table)).Nodup →
    Upholding (fun _ _ => True) Booked stages
  | [], _ => trivial
  | s :: rest, h => by
    rw [List.map_cons, List.nodup_cons] at h
    refine ⟨upholds_booked, fun t ht hname => ?_, upholding_booked h.2⟩
    exact h.1 (List.mem_map.2 ⟨t, ht, hname⟩)

/-- The accounts of a stage that has done nothing, over a table without rows. -/
theorem booked_initial {st : Store} {faults : Faults} {order : Layout → Nat → DrainOrder}
    (h : ∀ t, st.tables.get? s.layout.table = some t → t.rows = ∅) :
    Booked s next 0 {} { store := st, faults := faults, order := order } := by
  refine ⟨WindowPair.idle_initial, rfl, rfl, ?_, rfl, rfl, ?_⟩
  · show 0 = if next.isSome then 0 else 0
    rw [ite_self]
  · show 0 = st.rowCount s.layout.table
    unfold rowCount
    cases ht : st.tables.get? s.layout.table with
    | none => rfl
    | some t =>
      rw [Option.map_some, h t ht]
      rfl

theorem fed?_drop {stages : List Stage} {i : Nat} (h : stages[i]? = some s) (states : States stages) :
    s.fed? (stages.drop (i + 1)) = ((⟨stages, states⟩ : Line).fedBy? i).map (·.layout) := by
  unfold fed? Line.fedBy?
  simp only [h, Option.bind_eq_bind, Option.bind_some]
  cases s.next with
  | none => rfl
  | some j =>
    rw [Option.bind_some, Option.bind_some, List.getElem?_drop]

/-- In every run of updates and flushes that no fault aborts, each stage of a line over empty tables of its own keeps
its accounts, whatever the gateway refuses and when, and in whatever order windows are drained: the updates it
received are those it was given and those that the stages above handed on to it; the entries that were read out of
its windows were stored, dropped or lost with their batch; where there is a next stage, it handed on those that were
not dropped; it has counted its batches by their answers; and it has inserted the rows of its table. -/
theorem counters_balance {stages : List Stage} {st : Store} {faults : Faults}
    {order : Layout → Nat → DrainOrder} {uses : List Use} {states : States stages}
    (htables : (stages.map (·.layout.table)).Nodup)
    (hempty : ∀ s ∈ stages, ∀ t, st.tables.get? s.layout.table = some t → t.rows = ∅)
    (hrun : Use.run (.initial stages, { store := st, faults := faults, order := order }) uses = .ok (states, b)) :
    ∀ i s, stages[i]? = some s → ∃ own, states.toList[i]? = some own ∧
      own.tally.merged + own.tally.mergeFailures = Use.given uses i + states.handedTo i ∧
      b.tallied (drainedOf s.layout) = own.tally.inserts + own.tally.updates + own.tally.reconcileFailures +
        b.tallied (lostOf s.layout) ∧
      (own.tally.forwarded + own.tally.forwardFailures = if ((⟨stages, states⟩ : Line).fedBy? i).isSome then
        own.tally.inserts + own.tally.updates + b.tallied (lostOf s.layout) else 0) ∧
      own.tally.flushes = b.tallied (batchOf s.layout true) ∧
      own.tally.persistFailures = b.tallied (batchOf s.layout false) ∧
      own.tally.inserts = b.store.rowCount s.layout.table := by
  have hinitial :
      (States.initial stages).Upheld Booked (fun _ => 0) { store := st, faults := faults, order := order } :=
    States.upheld_initial fun s hs next => booked_initial (hempty s hs)
  have hupheld := Use.run_upheld (upholding_booked htables) hinitial (fun _ _ _ _ _ => trivial) hrun
  intro i s hs
  obtain ⟨own, hown, -, hbalance⟩ := hupheld.at hs
  refine ⟨own, hown, ?_, hbalance.drained, ?_, hbalance.flushes, hbalance.persistFailures, hbalance.rows⟩
  · have hreceived := hbalance.received
    rwa [Nat.zero_add] at hreceived
  · have hhanded := hbalance.handed
    rwa [fed?_drop hs states, Option.isSome_map] at hhanded

/-- A call, and another one after a flush. -/
def callTwice : List Use :=
  [.submit 0 (.count "checkout" ⟨202403151427⟩ 1), .flush 0, .submit 0 (.count "checkout" ⟨202403151427⟩ 2), .flushAll]

/-- Refuses the third call if it is a batch. -/
def refusingThird : Faults where
  persist n _ := if n = 2 then some "down" else none

/-- The minutes lose their first batch, and the hour receives both calls. -/
theorem counters_balance_callTwice :
    ∃ states b, Use.run (.initial [minuteCalls, hourCalls], { store := refusingBatches.store, faults := refusingThird })
        callTwice = .ok (states, b) ∧
      states.toList.map (fun own => (own.tally.persistFailures, own.tally.inserts, own.tally.updates)) =
        [(1, 1, 0), (0, 1, 1)] ∧
      ∃ own, states.toList[1]? = some own ∧
        own.tally.merged + own.tally.mergeFailures = Use.given callTwice 1 + states.handedTo 1 ∧
        own.tally.inserts = b.store.rowCount "calls_hour" := by
  have hempty : ∀ s ∈ [minuteCalls, hourCalls], ∀ t, refusingBatches.store.tables.get? s.layout.table = some t →
      t.rows = ∅ := by
    intro s hs t ht
    simp only [List.mem_cons, List.not_mem_nil, or_false] at hs
    rcases hs with rfl | rfl
    · cases ht
      rfl
    · cases ht
      rfl
  obtain ⟨⟨states, b⟩, hrun⟩ : ∃ c, Use.run (.initial [minuteCalls, hourCalls],
    { store := refusingBatches.store, faults := refusingThird }) callTwice = .ok c := ⟨_, rfl⟩
  refine ⟨states, b, hrun, ?_, ?_⟩
  · have htallies : (Use.run (.initial [minuteCalls, hourCalls],
        { store := refusingBatches.store, faults := refusingThird }) callTwice).toOption.map (fun c =>
        c.1.toList.map fun own => (own.tally.persistFailures, own.tally.inserts, own.tally.updates)) =
        some [(1, 1, 0), (0, 1, 1)] := by decide +kernel
    rw [hrun] at htallies
    exact Option.some.inj htallies
  · obtain ⟨own, hown, hreceived, -, -, -, -, hrows⟩ := counters_balance (by decide) hempty hrun 1 hourCalls rfl
    exact ⟨own, hown, hreceived, hrows⟩

end Stage

end MetricCascade
