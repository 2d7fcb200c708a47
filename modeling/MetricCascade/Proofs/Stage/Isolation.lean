/-
Failures of single entries. An entry fails if it cannot be looked up, does not combine with what is found, or is
refused when its operation is prepared. A flush parts the entries of a window into those that fail and those that do
not: the first are counted and go no further; each of the others gets one operation and is handed on once. A list
beside the next stage says what that stage is given; it makes no difference to a flush.
-/
import MetricCascade.Proofs.Stage.Alike
import MetricCascade.Proofs.Stage.Cleared
import MetricCascade.Proofs.Stage.Counters
import MetricCascade.Proofs.Stage.Flush

namespace MetricCascade

namespace Stage

open Backend Indicator

variable {σ : Type} {s : Stage} {outlet : Option (Outlet σ)} {P : Layout → Prop} {x y : Indicator} {b b' : Backend}

/-! ## Entries that fail -/

/-- Nothing can be stored of an entry when `b` is asked. -/
inductive Fails (s : Stage) (x : Indicator) (b : Backend) : Prop
  | lookup {e : StoreError} (hget : (b.get s.layout x.key).1 = .error e)
  | combine {stored : Indicator} {e : CombineError} (hget : (b.get s.layout x.key).1 = .ok (some stored))
    (hjoin : x.combine stored = .error e)
  | prepare {kind : WriteKind} {y : Indicator} {e : StoreError} (hy : Reconciled s x b kind y)
    (hprepare : (b.called.prepare kind s.layout y).1 = .error e)

theorem ready_eq_none_iff {kind : WriteKind} :
    (s.ready kind x b).1 = none ↔ ∃ e, (b.prepare kind s.layout x).1 = .error e := by
  unfold ready
  rcases b.prepare kind s.layout x with ⟨e | op, b'⟩ <;> simp

/-- An entry is left out exactly if it fails. -/
theorem reconcile_eq_none_iff : (s.reconcile x b).1 = .ok none ↔ Fails s x b := by
  have hcalled : (b.get s.layout x.key).2 = b.called := rfl
  constructor
  · intro hnone
    unfold reconcile at hnone
    rcases hget : b.get s.layout x.key with ⟨e | _ | stored, b'⟩ <;> rw [hget] at hnone hcalled <;>
      obtain rfl : b' = b.called := hcalled <;> dsimp only at hnone
    · exact .lookup (congrArg Prod.fst hget)
    · obtain ⟨e, he⟩ := ready_eq_none_iff.1 (Except.ok.inj hnone)
      exact .prepare (.fresh (congrArg Prod.fst hget)) he
    · cases hjoin : x.combine stored with
      | error e => exact .combine (congrArg Prod.fst hget) hjoin
      | ok joined =>
        rw [hjoin] at hnone
        dsimp only at hnone
        cases hfresh : joined.refresh with
        | error fault =>
          rw [hfresh] at hnone
          cases hnone
        | ok fresh =>
          rw [hfresh] at hnone
          obtain ⟨e, he⟩ := ready_eq_none_iff.1 (Except.ok.inj hnone)
          exact .prepare (.joined (congrArg Prod.fst hget) hjoin hfresh) he
  · intro hfails
    unfold reconcile
    rcases hget : b.get s.layout x.key with ⟨found, b'⟩
    rw [hget] at hcalled
    obtain rfl : b' = b.called := hcalled
    cases hfails with
    | lookup hfound =>
      obtain rfl : found = _ := (congrArg Prod.fst hget).symm.trans hfound
      rfl
    | combine hfound hjoin =>
      obtain rfl : found = _ := (congrArg Prod.fst hget).symm.trans hfound
      dsimp only
      rw [hjoin]
    | prepare hy he =>
      cases hy with
      | fresh hfound =>
        obtain rfl : found = _ := (congrArg Prod.fst hget).symm.trans hfound
        exact congrArg Except.ok (ready_eq_none_iff.2 ⟨_, he⟩)
      | joined hfound hjoin hfresh =>
        obtain rfl : found = _ := (congrArg Prod.fst hget).symm.trans hfound
        dsimp only
        rw [hjoin]
        dsimp only
        rw [hfresh]
        exact congrArg Except.ok (ready_eq_none_iff.2 ⟨_, he⟩)

/-- An entry that is taken does not fail. -/
theorem reconcile_taken {op : Operation} (h : s.reconcile x b = (.ok (some (op, y)), b')) :
    ¬ Fails s x b ∧ ∃ kind, Reconciled s x b kind y ∧ op = .storing kind s.layout y := by
  obtain ⟨-, hop⟩ := reconcile_spec s x b
  rw [h] at hop
  obtain ⟨-, hreconciled⟩ := hop op y rfl
  refine ⟨fun hfails => ?_, hreconciled⟩
  rw [← reconcile_eq_none_iff, h] at hfails
  cases hfails

/-! ## Parting entries -/

/-- Entries are reconciled one after the other, each over a backend of `Q`: those that fail are `lost`; of each of
the others, `kept` has what is to be stored, and how. -/
inductive Parted (s : Stage) (Q : Backend → Prop) :
    (xs lost : List Indicator) → (kept : List (WriteKind × Indicator)) → Prop
  | nil : Parted s Q [] [] []
  | lost {x : Indicator} {xs lost : List Indicator} {kept : List (WriteKind × Indicator)} {b : Backend} (hb : Q b)
    (hfails : Fails s x b) (hrest : Parted s Q xs lost kept) : Parted s Q (x :: xs) (x :: lost) kept
  | kept {x y : Indicator} {xs lost : List Indicator} {kind : WriteKind} {kept : List (WriteKind × Indicator)}
    {b : Backend} (hb : Q b) (hstays : ¬ Fails s x b) (hy : Reconciled s x b kind y)
    (hrest : Parted s Q xs lost kept) : Parted s Q (x :: xs) lost ((kind, y) :: kept)

variable {Q : Backend → Prop} {xs ys zs lost lost' : List Indicator} {kept kept' : List (WriteKind × Indicator)}

theorem Parted.append (h : Parted s Q xs lost kept) (h' : Parted s Q ys lost' kept') :
    Parted s Q (xs ++ ys) (lost ++ lost') (kept ++ kept') := by
  induction h with
  | nil => exact h'
  | lost hb hfails _ ih => exact .lost hb hfails ih
  | kept hb hstays hy _ ih => exact .kept hb hstays hy ih

/-- Every key is either lost or kept. -/
theorem Parted.keys (h : Parted s Q xs lost kept) :
    (lost.map (·.key) ++ kept.map (·.2.key)).Perm (xs.map (·.key)) := by
  induction h with
  | nil => exact .nil
  | lost _ _ _ ih => exact ih.cons _
  | kept _ _ hy _ ih =>
    rw [List.map_cons, List.map_cons, hy.key]
    exact List.perm_middle.trans (ih.cons _)

/-- The operations that store what was kept. -/
def operations (s : Stage) (kept : List (WriteKind × Indicator)) : List Operation :=
  kept.map fun p => .storing p.1 s.layout p.2

/-! ## The next stage, recorded -/

/-- The next stage, with a list of what it was given. -/
def Outlet.recorded (next : Outlet σ) : Outlet (σ × List Indicator) where
  layout := next.layout
  submit x below b :=
    let (r, rest, b) := next.submit x below.1 b
    (r, (rest, below.2 ++ [x]), b)

/-- The scene with the list that stands beside the next stage. -/
def Scene.recording (c : Scene σ) (given : List Indicator) : Scene (σ × List Indicator) :=
  ⟨c.own, (c.below, given), c.backend⟩

theorem handed_one {next : Outlet σ} : handed (some next) [y] = (y.rollup next.layout.level).toOption.toList := by
  show rolledUp next.layout.level [y] = _
  unfold rolledUp
  cases hroll : y.rollup next.layout.level <;> simp [hroll, Except.toOption]

theorem forward_recorded (outlet : Option (Outlet σ)) (y : Indicator) (c : Scene σ) (given : List Indicator) :
    s.forward (outlet.map .recorded) y (c.recording given) =
      ((s.forward outlet y c).1, (s.forward outlet y c).2.recording (given ++ handed outlet [y])) := by
  cases outlet with
  | none => simp [handed, forward]
  | some next =>
    rw [Option.map_some, handed_one]
    cases hroll : y.rollup next.layout.level with
    | error e =>
      have hrecorded : y.rollup next.recorded.layout.level = .error e := hroll
      rw [forward_error hroll, forward_error hrecorded]
      simp [Except.toOption, Scene.recording, Scene.count, Scene.record, Outlet.recorded]
    | ok z =>
      have hrecorded : y.rollup next.recorded.layout.level = .ok z := hroll
      rw [forward_ok hroll, forward_ok hrecorded]
      rfl

/-- Entry by entry, the list makes no difference. -/
theorem prepareBatch_recorded (outlet : Option (Outlet σ)) (xs : List Indicator) (c : Scene σ) (given : List Indicator) :
    ∃ given', s.prepareBatch (outlet.map .recorded) xs (c.recording given) =
      ((s.prepareBatch outlet xs c).1, (s.prepareBatch outlet xs c).2.recording given') := by
  induction xs generalizing c given with
  | nil => exact ⟨given, rfl⟩
  | cons x rest ih =>
    unfold prepareBatch
    rw [show (c.recording given).backend = c.backend from rfl]
    rcases s.reconcile x c.backend with ⟨fault | _ | ⟨op, y⟩, b⟩
    · exact ⟨given, rfl⟩
    · exact ih ({ c with backend := b }.count .addReconcileFailure) given
    · have hforward := forward_recorded (s := s) outlet y { c with backend := b } given
      dsimp only
      rw [show s.forward (outlet.map .recorded) y { c.recording given with backend := b } = _ from hforward]
      rcases s.forward outlet y { c with backend := b } with ⟨fault | _, d⟩
      · exact ⟨_, rfl⟩
      · obtain ⟨given', hrest⟩ := ih d (given ++ handed outlet [y])
        dsimp only
        rw [hrest]
        exact ⟨given', rfl⟩

theorem writeBatch_recorded (above : List Layout) (batch : List Operation) (c : Scene σ) (given : List Indicator) :
    s.writeBatch above batch (c.recording given) =
      ((s.writeBatch above batch c).1, (s.writeBatch above batch c).2.recording given) := by
  unfold writeBatch
  rw [show (c.recording given).backend = c.backend from rfl]
  rcases c.backend.persist s.layout (above ++ [s.layout]) batch with ⟨e | _, b⟩ <;> rfl

theorem flushRetired_recorded (outlet : Option (Outlet σ)) (above : List Layout) (c : Scene σ) (given : List Indicator) :
    ∃ given', s.flushRetired (outlet.map .recorded) above (c.recording given) =
      ((s.flushRetired outlet above c).1, (s.flushRetired outlet above c).2.recording given') := by
  unfold flushRetired
  rw [show (c.recording given).own = c.own from rfl]
  rw [show (c.recording given).order s.layout = c.order s.layout from rfl]
  rcases c.own.windows.drain (c.order s.layout) with ⟨entries, windows⟩
  obtain ⟨given', hprepare⟩ := prepareBatch_recorded (s := s) outlet entries
    ((c.setWindows windows).record (.drained s.layout entries.length)) given
  dsimp only
  rw [show s.prepareBatch (outlet.map .recorded) entries
    (((c.recording given).setWindows windows).record (.drained s.layout entries.length)) = _ from hprepare]
  rcases s.prepareBatch outlet entries ((c.setWindows windows).record (.drained s.layout entries.length)) with
    ⟨fault | _ | ⟨op, batch⟩, d⟩
  · exact ⟨given', rfl⟩
  · exact ⟨given', rfl⟩
  · dsimp only
    rw [writeBatch_recorded]
    exact ⟨given', rfl⟩

theorem flush_recorded (outlet : Option (Outlet σ)) (above : List Layout) (c : Scene σ) (given : List Indicator) :
    ∃ given', s.flush (outlet.map .recorded) above (c.recording given) =
      ((s.flush outlet above c).1, (s.flush outlet above c).2.recording given') := by
  unfold flush
  rw [show (c.recording given).own = c.own from rfl]
  rcases c.own.windows.begin with ⟨attempt, windows⟩
  dsimp only
  rcases windows.commit attempt with ⟨_ | _, a, p⟩
  · exact ⟨given, rfl⟩
  · obtain ⟨given', hretired⟩ := flushRetired_recorded (s := s) outlet above ((c.setWindows p).setFlushing true) given
    dsimp only
    rw [show s.flushRetired (outlet.map .recorded) above (((c.recording given).setWindows p).setFlushing true) = _
      from hretired]
    exact ⟨given', rfl⟩

/-! ## A flush -/

/-- The indicators that have no window at the level of the next stage. -/
def stranded (outlet : Option (Outlet σ)) (ys : List Indicator) : List Indicator :=
  match outlet with
  | none => []
  | some next => ys.filter fun y => !widens next.layout.level y

theorem stranded_append (outlet : Option (Outlet σ)) (ys zs : List Indicator) :
    stranded outlet (ys ++ zs) = stranded outlet ys ++ stranded outlet zs := by
  cases outlet with
  | none => rfl
  | some next => exact List.filter_append ..

theorem apart_recorded (hout : Outlet.Apart P outlet) : Outlet.Apart P (outlet.map .recorded) := by
  intro next hnext x below b below' b' h
  rw [Option.map_eq_some_iff] at hnext
  obtain ⟨next, hnext, rfl⟩ := hnext
  rcases hsubmit : next.submit x below.1 b with ⟨r, rest, b₂⟩
  simp only [Outlet.recorded, hsubmit, Prod.mk.injEq] at h
  obtain ⟨rfl, rfl, rfl⟩ := h
  exact hout next hnext x below.1 b rest b₂ hsubmit

/-- Between `c` and `d`, so many entries failed, and `ys` were taken: those that have a window there were given to
the next stage. -/
structure Passed (outlet : Option (Outlet σ)) (P : Layout → Prop) (failed : Nat) (ys : List Indicator)
    (c d : Scene (σ × List Indicator)) : Prop where
  windows : d.own.windows = c.own.windows
  failures : d.own.tally.reconcileFailures = c.own.tally.reconcileFailures + failed
  forwarded : d.own.tally.forwarded = c.own.tally.forwarded + (handed outlet ys).length
  forwardFailures : d.own.tally.forwardFailures = c.own.tally.forwardFailures + (stranded outlet ys).length
  given : d.below.2 = c.below.2 ++ handed outlet ys
  work : Aside P c.backend d.backend
  silent : handed outlet ys = [] → d.below = c.below ∧ Aside (fun _ => False) c.backend d.backend

variable {c d e : Scene (σ × List Indicator)} {op : Operation}

/-- Questions and reports give nothing to the next stage. -/
theorem Passed.asked (hb : ∀ P, Aside P c.backend b) : Passed outlet P 0 [] c { c with backend := b } := by
  refine ⟨rfl, rfl, ?_, ?_, ?_, hb P, fun _ => ⟨rfl, hb _⟩⟩ <;> cases outlet <;> simp [handed, stranded, rolledUp]

theorem Passed.trans {m n : Nat} (h : Passed outlet P m ys c d) (h' : Passed outlet P n zs d e) :
    Passed outlet P (m + n) (ys ++ zs) c e := by
  refine ⟨h'.windows.trans h.windows, ?_, ?_, ?_, ?_, h.work.trans h'.work, ?_⟩
  · rw [h'.failures, h.failures, Nat.add_assoc]
  · rw [h'.forwarded, h.forwarded, handed_append, List.length_append, Nat.add_assoc]
  · rw [h'.forwardFailures, h.forwardFailures, stranded_append, List.length_append, Nat.add_assoc]
  · rw [h'.given, h.given, handed_append, List.append_assoc]
  · rw [handed_append, List.append_eq_nil_iff]
    rintro ⟨hnone, hnone'⟩
    obtain ⟨hbelow, hwork⟩ := h.silent hnone
    obtain ⟨hbelow', hwork'⟩ := h'.silent hnone'
    exact ⟨hbelow'.trans hbelow, hwork.trans hwork'⟩

theorem reconcile_passed (P : Layout → Prop) {r : Outcome (Option (Operation × Indicator))}
    (h : s.reconcile x c.backend = (r, b)) : Passed outlet P 0 [] c { c with backend := b } :=
  .asked fun _ => reconcile_aside h

theorem left_passed (P : Layout → Prop) (h : s.reconcile x c.backend = (.ok none, b)) :
    Passed outlet P 1 [] c ({ c with backend := b }.count .addReconcileFailure) :=
  { reconcile_passed P h with failures := rfl }

theorem forward_passed (hout : Outlet.Apart P outlet) (h : s.forward (outlet.map .recorded) y c = (.ok (), d)) :
    Passed outlet P 0 [y] c d := by
  cases outlet with
  | none =>
    cases h
    exact ⟨rfl, rfl, rfl, rfl, (List.append_nil _).symm, .refl _, fun _ => ⟨rfl, .refl _⟩⟩
  | some next =>
    rw [Option.map_some] at h
    cases hroll : y.rollup next.layout.level with
    | error e =>
      have hrecorded : y.rollup next.recorded.layout.level = .error e := hroll
      have hnone : handed (some next) [y] = [] := by rw [handed_one, hroll]; rfl
      have hone : stranded (some next) [y] = [y] := by simp [stranded, widens, hroll, Except.toOption]
      rw [forward_error hrecorded] at h
      cases h
      have hreport {P} : Aside P c.backend (c.backend.record (.forwardFailed s.layout y.key next.layout e)) :=
        aside_report c.backend rfl
      refine ⟨rfl, rfl, ?_, ?_, ?_, hreport, fun _ => ⟨rfl, hreport⟩⟩
      · rw [hnone]
        rfl
      · rw [hone]
        rfl
      · rw [hnone, List.append_nil]
        rfl
    | ok z =>
      have hrecorded : y.rollup next.recorded.layout.level = .ok z := hroll
      have hone : handed (some next) [y] = [z] := by rw [handed_one, hroll]; rfl
      have hnone : stranded (some next) [y] = [] := by simp [stranded, widens, hroll, Except.toOption]
      rcases hsubmit : next.recorded.submit z c.below c.backend with ⟨r, below, b⟩
      have hgiven : below.2 = c.below.2 ++ [z] := by
        have hlist : (next.recorded.submit z c.below c.backend).2.1.2 = c.below.2 ++ [z] := rfl
        rwa [hsubmit] at hlist
      rw [forward_ok hrecorded, hsubmit] at h
      cases h
      refine ⟨rfl, rfl, ?_, ?_, ?_, apart_recorded hout next.recorded rfl z c.below c.backend below b hsubmit, ?_⟩
      · rw [hone]
        rfl
      · rw [hnone]
        rfl
      · rw [hone]
        exact hgiven
      · rw [hone]
        exact fun hnone => absurd hnone (List.cons_ne_nil _ _)

/-- A batch has one operation for each entry that does not fail, in the order of the entries. -/
theorem prepareBatch_parts (hout : Outlet.Apart P outlet) {batch : List Operation}
    (h : s.prepareBatch (outlet.map .recorded) xs c = (.ok batch, d)) :
    ∃ lost kept, Parted s (Aside P c.backend) xs lost kept ∧ batch = s.operations kept ∧
      Passed outlet P lost.length (kept.map (·.2)) c d := by
  have hparts := prepareBatch_rule
    (M := fun rest ops e => ∃ before lost kept, xs = before ++ rest ∧ Parted s (Aside P c.backend) before lost kept ∧
      ops = s.operations kept ∧ Passed outlet P lost.length (kept.map (·.2)) c e) ?_ ?_ h
    ⟨[], [], [], rfl, .nil, rfl, .asked fun _ => .refl _⟩
  · obtain ⟨before, lost, kept, rfl, hparted, rfl, hpassed⟩ := hparts
    rw [List.append_nil]
    exact ⟨lost, kept, hparted, rfl, hpassed⟩
  · rintro x rest ops e b ⟨before, lost, kept, rfl, hparted, rfl, hpassed⟩ hreconcile
    have hfails : Fails s x e.backend := reconcile_eq_none_iff.1 (congrArg Prod.fst hreconcile)
    refine ⟨before ++ [x], lost ++ [x], kept, by simp, ?_, rfl, ?_⟩
    · simpa using hparted.append (.lost hpassed.work hfails .nil)
    · simpa using hpassed.trans (left_passed P hreconcile)
  · rintro x rest ops e op y b d ⟨before, lost, kept, rfl, hparted, rfl, hpassed⟩ hreconcile hforward
    obtain ⟨hstays, kind, hy, rfl⟩ := reconcile_taken hreconcile
    refine ⟨before ++ [x], lost, kept ++ [(kind, y)], by simp, ?_, by simp [operations], ?_⟩
    · simpa using hparted.append (.kept hpassed.work hstays hy .nil)
    · simpa using (hpassed.trans (reconcile_passed P hreconcile)).trans (forward_passed hout hforward)

/-! ## What a flush leaves -/

/-- The backend when a flush has read out the active window. -/
def Scene.drained (c : Scene σ) (s : Stage) : Backend :=
  c.backend.record (.drained s.layout c.own.windows.active.indicators.length)

/-- The entries of the active window, in the order in which a flush reads them out. -/
def Scene.entries (c : Scene σ) (s : Stage) : List Indicator := (c.own.windows.active.drain (c.order s.layout)).1

theorem Scene.entries_perm (c : Scene σ) (s : Stage) : (c.entries s).Perm c.own.windows.active.indicators :=
  (c.order s.layout).perm _

/-- What became of the entries of the active window in a flush that no fault aborted. While the batch is prepared,
no stage works but those of `P`, to which entries are handed on. -/
structure Isolated (s : Stage) (outlet : Option (Outlet σ)) (P : Layout → Prop) (above : List Layout) (c d : Scene σ)
    (r : Except FlushError Bool) (lost : List Indicator) (kept : List (WriteKind × Indicator)) : Prop where
  /-- The entries that fail are lost, and the others are kept. -/
  parted : Parted s (Aside P (c.drained s)) (c.entries s) lost kept
  keys : (lost.map (·.key) ++ kept.map (·.2.key)).Perm (c.own.windows.active.indicators.map (·.key))
  /-- If `P` has other tables, what is kept of an entry is made of what the own table held before the flush. -/
  found : (∀ l, P l → l.table ≠ s.layout.table) → ∀ p ∈ kept, ∃ x ∈ c.own.windows.active.indicators,
    Reconciled s x { c.backend with faults := {} } p.1 p.2
  /-- If moreover the gateway answers regardless of earlier calls, the entries that fail are those that fail before
  the flush. -/
  steady : (∀ l, P l → l.table ≠ s.layout.table) → c.backend.faults.Steady →
    Parted s (· = c.backend) (c.entries s) lost kept
  /-- If nothing is kept, nobody is called but to look up and to prepare entries. -/
  unsent : kept = [] → r = .ok true ∧ d.below = c.below ∧ Aside (fun _ => False) (c.drained s) d.backend
  /-- Else, one batch goes to the gateway, with one operation for each entry that was kept. -/
  sent : kept ≠ [] → ∃ prepared answer, Aside P (c.drained s) prepared ∧
    prepared.persist s.layout (above ++ [s.layout]) (s.operations kept) = (answer, d.backend) ∧
    r = (answer.mapError (FlushError.mk s.layout)).map fun () => true
  /-- The rows of the entries that were kept are written. -/
  written : r = .ok true → ∀ p ∈ kept, d.backend.store.row? s.layout.table p.2.key.text = some (Row.ofIndicator p.2)
  /-- If `P` has other tables, all other rows are as they were. -/
  unwritten : (∀ l, P l → l.table ≠ s.layout.table) → ∀ k, k ∉ kept.map (·.2.key) →
    d.backend.store.row? s.layout.table k.text = c.backend.store.row? s.layout.table k.text
  /-- The next stage is given what was kept, rolled up, and nothing else. -/
  given : s.flush (outlet.map .recorded) above (c.recording []) = (.ok r, d.recording (handed outlet (kept.map (·.2))))
  failures : d.own.tally.reconcileFailures = c.own.tally.reconcileFailures + lost.length
  forwarded : d.own.tally.forwarded = c.own.tally.forwarded + (handed outlet (kept.map (·.2))).length
  forwardFailures :
    d.own.tally.forwardFailures = c.own.tally.forwardFailures + (stranded outlet (kept.map (·.2))).length
  /-- Nothing waits any more. -/
  emptied : d.own.windows = {}

/-- What is reconciled is made of what the own table holds, whatever the gateway refuses. -/
theorem Reconciled.found (h : Reconciled s x b kind y)
    (htable : b.store.tables.get? s.layout.table = b'.store.tables.get? s.layout.table) :
    Reconciled s x { b' with faults := {} } kind y := by
  have hget {found : Option Indicator} (hfound : (b.get s.layout x.key).1 = .ok found) :
      (Backend.get { b' with faults := {} } s.layout x.key).1 = .ok found := by
    have hstore := get_ok hfound
    unfold Store.get at hstore
    rw [htable] at hstore
    exact hstore
  cases h with
  | fresh hfound => exact .fresh (hget hfound)
  | joined hfound hjoin hfresh => exact .joined (hget hfound) hjoin hfresh

theorem Parted.found (h : Parted s Q xs lost kept)
    (htable : ∀ b, Q b → b.store.tables.get? s.layout.table = b'.store.tables.get? s.layout.table) :
    ∀ p ∈ kept, ∃ x ∈ xs, Reconciled s x { b' with faults := {} } p.1 p.2 := by
  induction h with
  | nil => exact nofun
  | lost _ _ _ ih =>
    intro p hp
    obtain ⟨x, hx, hfound⟩ := ih p hp
    exact ⟨x, List.mem_cons_of_mem _ hx, hfound⟩
  | kept hb _ hy _ ih =>
    intro p hp
    rcases List.mem_cons.1 hp with rfl | hp
    · exact ⟨_, List.mem_cons_self .., hy.found (htable _ hb)⟩
    · obtain ⟨x, hx, hfound⟩ := ih p hp
      exact ⟨x, List.mem_cons_of_mem _ hx, hfound⟩

/-- Over a gateway that answers regardless of earlier calls, entries are judged by what was there before. -/
theorem Parted.steady (h : Parted s Q xs lost kept) (hsame : ∀ b, Q b → Alike (· = s.layout.table) b' b) :
    Parted s (· = b') xs lost kept := by
  have hfails (x : Indicator) {b : Backend} (hb : Q b) : Fails s x b' ↔ Fails s x b := by
    rw [← reconcile_eq_none_iff, ← reconcile_eq_none_iff, reconcile_answer (T := (· = s.layout.table)) rfl (hsame b hb)]
  induction h with
  | nil => exact .nil
  | lost hb hx _ ih => exact .lost rfl ((hfails _ hb).2 hx) ih
  | kept hb hstays hy _ ih =>
    refine .kept rfl (fun hx => hstays ((hfails _ hb).1 hx)) ?_ ih
    have hget := (hsame _ hb).get rfl
    cases hy with
    | fresh hfound => exact .fresh (hget _ ▸ hfound)
    | joined hfound hjoin hfresh => exact .joined (hget _ ▸ hfound) hjoin hfresh

/-- Of distinct keys, each is lost or kept once. -/
theorem Parted.nodup (h : Parted s Q xs lost kept) (hxs : (xs.map (·.key)).Nodup) : (kept.map (·.2.key)).Nodup :=
  (List.nodup_append.1 (h.keys.nodup_iff.2 hxs)).2.1

theorem operations_tables (s : Stage) (kept : List (WriteKind × Indicator)) :
    ∀ op ∈ s.operations kept, op.table = s.layout.table := by
  intro op hop
  obtain ⟨p, -, rfl⟩ := List.mem_map.1 hop
  rfl

theorem operations_ids (s : Stage) (kept : List (WriteKind × Indicator)) :
    (s.operations kept).map (·.id) = (kept.map (·.2.key)).map Key.text := by
  unfold operations
  rw [List.map_map, List.map_map]
  rfl

/-- A batch that the gateway accepts is in the table afterwards; whatever it answers, the other rows stay. -/
theorem persist_operations {prepared after : Backend} {flushing : List Layout} {answer : Except StoreError Unit}
    (h : prepared.persist s.layout flushing (s.operations kept) = (answer, after)) (hnodup : (kept.map (·.2.key)).Nodup) :
    (answer = .ok () → ∀ p ∈ kept, after.store.row? s.layout.table p.2.key.text = some (Row.ofIndicator p.2)) ∧
      ∀ k, k ∉ kept.map (·.2.key) →
        after.store.row? s.layout.table k.text = prepared.store.row? s.layout.table k.text := by
  have hother (k : Key) (hk : k ∉ kept.map (·.2.key)) : ∀ op ∈ s.operations kept,
      op.table = s.layout.table → op.id ≠ k.text := by
    intro op hop _ hid
    obtain ⟨p, hp, rfl⟩ := List.mem_map.1 hop
    exact hk (List.mem_map.2 ⟨p, hp, Key.text_injective hid⟩)
  rcases persist_cases prepared s.layout flushing (s.operations kept) with ⟨e, he⟩ | ⟨t, ht, hb⟩
  · rw [he] at h
    cases h
    exact ⟨nofun, fun _ _ => rfl⟩
  · rw [hb] at h
    cases h
    rw [Store.persist_ok ht]
    refine ⟨fun _ p hp => ?_, fun k hk => Store.row?_foldl_write_of_ne (hother k hk)⟩
    have hop : Operation.storing p.1 s.layout p.2 ∈ s.operations kept := List.mem_map_of_mem hp
    have hids : ((s.operations kept).map (·.id)).Nodup := by
      rw [operations_ids]
      exact hnodup.map fun _ _ => Key.text_injective
    exact Store.row?_foldl_write_of_mem (Store.contains_of_persist ht hop) (operations_tables s kept) hids hop

/-- Writing a batch is asking the gateway once; the counters that say what became of entries stay. -/
theorem writeBatch_answer {above : List Layout} {batch : List Operation} {c d : Scene σ} {r : Except FlushError Unit}
    (h : s.writeBatch above batch c = (r, d)) :
    (∃ answer, c.backend.persist s.layout (above ++ [s.layout]) batch = (answer, d.backend) ∧
      r = answer.mapError (FlushError.mk s.layout)) ∧
      d.own.tally.reconcileFailures = c.own.tally.reconcileFailures ∧ d.own.tally.forwarded = c.own.tally.forwarded ∧
      d.own.tally.forwardFailures = c.own.tally.forwardFailures := by
  unfold writeBatch at h
  rcases hpersist : c.backend.persist s.layout (above ++ [s.layout]) batch with ⟨answer, b⟩
  rw [hpersist] at h
  rcases answer with e | _ <;> cases h <;> exact ⟨⟨_, rfl, rfl⟩, rfl, rfl, rfl⟩

/-- What the stage and the list beside the next one look like when the flush is over. -/
theorem Passed.flushed {n : Nat} {c d : Scene σ} {given : List Indicator} {e e' : Scene (σ × List Indicator)}
    (h : Passed outlet P n ys ((c.recording []).draining s c.own.windows.swapped) e) (hrested : c.own.windows.Rested)
    (hwindows : e'.own.windows = e.own.windows)
    (hcounts : e'.own.tally.reconcileFailures = e.own.tally.reconcileFailures ∧
      e'.own.tally.forwarded = e.own.tally.forwarded ∧ e'.own.tally.forwardFailures = e.own.tally.forwardFailures)
    (hbelow : e'.below = e.below) (hd : d.recording given = e'.flushed) :
    given = handed outlet ys ∧ d.own.tally.reconcileFailures = c.own.tally.reconcileFailures + n ∧
      d.own.tally.forwarded = c.own.tally.forwarded + (handed outlet ys).length ∧
      d.own.tally.forwardFailures = c.own.tally.forwardFailures + (stranded outlet ys).length ∧ d.own.windows = {} := by
  obtain ⟨hfailures, hforwarded, hforwardFailures⟩ := hcounts
  have hown : d.own = e'.flushed.own := congrArg Scene.own hd
  have hgiven : given = e'.below.2 := congrArg (fun c => c.below.2) hd
  refine ⟨?_, ?_, ?_, ?_, ?_⟩
  · rw [hgiven, hbelow, h.given]
    rfl
  · rw [hown]
    exact hfailures.trans h.failures
  · rw [hown]
    exact hforwarded.trans h.forwarded
  · rw [hown]
    exact hforwardFailures.trans h.forwardFailures
  · rw [hown, ← hrested.release_eq]
    exact congrArg WindowPair.release (hwindows.trans h.windows)

/-- If `P` has other tables, entries are reconciled with what was there before the flush. -/
theorem Parted.unhindered {c : Scene σ} (h : Parted s (Aside P (c.drained s)) (c.entries s) lost kept)
    (hP : ∀ l, P l → l.table ≠ s.layout.table) :
    (∀ p ∈ kept, ∃ x ∈ c.own.windows.active.indicators, Reconciled s x { c.backend with faults := {} } p.1 p.2) ∧
      (c.backend.faults.Steady → Parted s (· = c.backend) (c.entries s) lost kept) := by
  have hsame (b : Backend) (hb : Aside P (c.drained s) b) :
      b.store.tables.get? s.layout.table = c.backend.store.tables.get? s.layout.table := hb.work.tables _ hP
  refine ⟨fun p hp => ?_, fun hsteady => h.steady fun b hb =>
    ⟨hsteady, hb.work.faults, hb.work.order, fun _ hname => hname ▸ hsame b hb⟩⟩
  obtain ⟨x, hx, hreconciled⟩ := h.found hsame p hp
  exact ⟨x, (c.entries_perm s).mem_iff.1 hx, hreconciled⟩

section

variable {above : List Layout} {c d : Scene σ} {given : List Indicator} {e e' : Scene (σ × List Indicator)}

/-- If every entry fails, or none waits, the gateway is not called and all rows stay. -/
theorem isolated_unwritten (hout : Outlet.Apart P outlet) (hrested : c.own.windows.Rested)
    (hprepare : s.prepareBatch (outlet.map .recorded) (c.entries s)
      ((c.recording []).draining s c.own.windows.swapped) = (.ok [], e))
    (hd : d.recording given = e.flushed)
    (hrecorded : s.flush (outlet.map .recorded) above (c.recording []) = (.ok (.ok true), d.recording given)) :
    ∃ lost, Isolated s outlet P above c d (.ok true) lost [] := by
  obtain ⟨lost, kept, hparted, hbatch, hpassed⟩ := prepareBatch_parts hout hprepare
  obtain rfl : kept = [] := List.map_eq_nil_iff.1 hbatch.symm
  obtain ⟨rfl, hfailures, hforwarded, hforwardFailures, hwindows⟩ :=
    hpassed.flushed hrested rfl ⟨rfl, rfl, rfl⟩ rfl hd
  have hbackend : d.backend = e.backend := congrArg Scene.backend hd
  have hnone : handed outlet [] = [] := by cases outlet <;> rfl
  obtain ⟨hbelow, hasked⟩ := hpassed.silent hnone
  have hkeys := hparted.keys.trans ((c.entries_perm s).map _)
  refine ⟨lost, hparted, hkeys, fun hP => (hparted.unhindered hP).1, fun hP => (hparted.unhindered hP).2,
    fun _ => ⟨rfl, ?_, hbackend ▸ hasked⟩, fun hne => absurd rfl hne, fun _ => nofun, fun hP k _ => ?_, hrecorded,
    hfailures, hforwarded, hforwardFailures, hwindows⟩
  · have hsaved : d.below = e.below.1 := congrArg (fun c => c.below.1) hd
    rw [hsaved, hbelow]
    rfl
  · rw [hbackend]
    exact row?_aside hasked (fun _ => False.elim) k.text

/-- If an entry is kept, the gateway is called once. -/
theorem isolated_sent (hout : Outlet.Apart P outlet) (hrested : c.own.windows.Rested) {op : Operation}
    {batch : List Operation} {r : Except FlushError Unit}
    (hprepare : s.prepareBatch (outlet.map .recorded) (c.entries s)
      ((c.recording []).draining s c.own.windows.swapped) = (.ok (op :: batch), e))
    (hwrite : s.writeBatch above (op :: batch) e = (r, e')) (hd : d.recording given = e'.flushed)
    (hrecorded : s.flush (outlet.map .recorded) above (c.recording []) =
      (.ok (r.map fun () => true), d.recording given)) :
    ∃ lost kept, Isolated s outlet P above c d (r.map fun () => true) lost kept := by
  obtain ⟨lost, kept, hparted, hbatch, hpassed⟩ := prepareBatch_parts hout hprepare
  obtain ⟨⟨answer, hanswer, rfl⟩, hcounts⟩ := writeBatch_answer hwrite
  obtain ⟨hkept, hbelow⟩ := writeBatch_kept (s := s) above (op :: batch) e
  rw [hwrite] at hkept hbelow
  obtain ⟨rfl, hfailures, hforwarded, hforwardFailures, hwindows⟩ :=
    hpassed.flushed hrested hkept.windows hcounts hbelow hd
  have hbackend : d.backend = e'.backend := congrArg Scene.backend hd
  rw [hbatch, ← hbackend] at hanswer
  have hdistinct := (c.own.windows.active.lists_drain (c.order s.layout)).1
  obtain ⟨hwritten, hother⟩ := persist_operations hanswer (hparted.nodup hdistinct)
  have hne : kept ≠ [] := by
    rintro rfl
    cases hbatch
  have hkeys := hparted.keys.trans ((c.entries_perm s).map _)
  refine ⟨lost, kept, hparted, hkeys, fun hP => (hparted.unhindered hP).1,
    fun hP => (hparted.unhindered hP).2, fun hnone => absurd hnone hne,
    fun _ => ⟨e.backend, answer, hpassed.work, hanswer, rfl⟩, fun hok => hwritten ?_, fun hP k hk => ?_, hrecorded,
    hfailures, hforwarded, hforwardFailures, hwindows⟩
  · cases answer with
    | ok _ => rfl
    | error e => cases hok
  · rw [hother k hk]
    exact row?_aside hpassed.work hP k.text

end

/-- Whatever waits in a stage of a line, whatever the tables hold and whatever the gateway refuses: a flush that no
fault aborts loses the entries that fail and no others. Each of the others gets one operation, an update with the sum
if a row was found and an insertion of the entry as it is if none was, and is given to the next stage once if it has
a window there; the rows of all other keys stay, if no stage below has the same table. The batch is one call to the
gateway, which is left out if all entries fail. -/
theorem failures_isolated {rest : List Stage} {above : List Layout} {c d : Scene (States rest)}
    {r : Except FlushError Bool} (hrested : c.own.windows.Rested)
    (h : s.flush (s.downstream rest above) above c = (.ok r, d)) :
    ∃ lost kept, Isolated s (s.downstream rest above) (Among rest) above c d r lost kept := by
  have hout := downstream_apart s rest above
  obtain ⟨given, hrecorded⟩ := flush_recorded (s := s) (s.downstream rest above) above c []
  rw [h] at hrecorded
  have hcases := flush_cases s ((s.downstream rest above).map .recorded) above (c.recording [])
  rw [hrecorded] at hcases
  generalize hresult : ((Except.ok r : Outcome (Except FlushError Bool)), d.recording given) = result at hcases
  cases hcases with
  | unswapped hcommit => cases (hrested.toIdle.swaps hcommit).1
  | aborted _ _ => cases hresult
  | unwritten hcommit hprepare =>
    obtain ⟨-, rfl⟩ := hrested.toIdle.swaps hcommit
    obtain ⟨hr, hd⟩ := Prod.ext_iff.1 hresult
    obtain rfl : r = .ok true := Except.ok.inj hr
    obtain ⟨lost, hisolated⟩ := isolated_unwritten hout hrested hprepare hd hrecorded
    exact ⟨lost, [], hisolated⟩
  | @sent _ _ _ _ _ _ r' hcommit hprepare hwrite =>
    obtain ⟨-, rfl⟩ := hrested.toIdle.swaps hcommit
    obtain ⟨hr, hd⟩ := Prod.ext_iff.1 hresult
    obtain rfl : r = r'.map fun () => true := Except.ok.inj hr
    exact isolated_sent hout hrested hprepare hwrite hd hrecorded

/-- One call of each of four services waits. -/
def fourCalls : State where
  windows.active.entries := Dict.ofList <| ["checkout", "search", "cart", "login"].map fun service =>
    (⟨service, ⟨202403151427⟩⟩, .count 1)
  windows.active.size := 4

/-- Both tables, with five earlier calls of the checkout; no search is looked up, and no cart prepared. -/
def refusingTwo : Backend where
  store := refusingBatches.store.write (.storing .insert minuteCalls.layout (.count "checkout" ⟨202403151427⟩ 5))
  faults := .refusing "down" ["search"] ["cart"] []

/-- Two entries are lost, and the hour is given the sum of the checkout and the login. -/
theorem failures_isolated_fourCalls :
    ∃ (d : Scene (States [hourCalls])) (lost : List Indicator) (kept : List (WriteKind × Indicator)),
      minuteCalls.flush (minuteCalls.downstream [hourCalls] []) [] ⟨fourCalls, .initial _, refusingTwo⟩ =
        (.ok (.ok true), d) ∧
      lost.length = 2 ∧ (lost.map (·.key) ++ kept.map (·.2.key)).Perm (fourCalls.windows.active.indicators.map (·.key)) ∧
      handed (minuteCalls.downstream [hourCalls] []) (kept.map (·.2)) =
        [.count "checkout" ⟨2024031514⟩ 6, .count "login" ⟨2024031514⟩ 1] := by
  obtain ⟨d, hflush⟩ : ∃ d, minuteCalls.flush (minuteCalls.downstream [hourCalls] []) []
      ⟨fourCalls, .initial _, refusingTwo⟩ = (.ok (.ok true), d) := ⟨_, rfl⟩
  have hrested : fourCalls.windows.Rested := ⟨⟨rfl, rfl, rfl⟩, rfl, rfl, rfl, rfl⟩
  obtain ⟨lost, kept, hisolated⟩ := failures_isolated hrested hflush
  refine ⟨d, lost, kept, hflush, ?_, hisolated.keys, ?_⟩
  · have hcount : (minuteCalls.flush (minuteCalls.downstream [hourCalls] []) []
        ⟨fourCalls, .initial _, refusingTwo⟩).2.own.tally.reconcileFailures = 2 := rfl
    rw [hflush, hisolated.failures] at hcount
    exact (Nat.zero_add _).symm.trans hcount
  · have hgiven : (minuteCalls.flush ((minuteCalls.downstream [hourCalls] []).map .recorded) []
        (Scene.recording ⟨fourCalls, .initial _, refusingTwo⟩ [])).2.below.2 =
        [.count "checkout" ⟨2024031514⟩ 6, .count "login" ⟨2024031514⟩ 1] := rfl
    rwa [hisolated.given] at hgiven

end Stage

end MetricCascade
