/-
Stages are ready between calls. Whatever the gateway refuses, whatever tables are missing and wherever a
fault breaks a call off, no attempt is left alive and no writer registered, nothing waits in the
retired window, and the active window is not over its bound. So no flush is refused, and no batch is
longer than a window may be.
-/
import MetricCascade.Proofs.Stage.Frame
import MetricCascade.Proofs.Window.Gathered

namespace MetricCascade

namespace WindowPair

/-- Nobody uses the pair, nothing waits to be read, and the entries are counted. -/
structure Rested (p : WindowPair) : Prop extends p.Idle where
  activeLeft : p.active.writers = 0
  retiredLeft : p.retired.writers = 0
  emptySize : p.retired.size = 0
  counted : p.active.Counted

theorem rested_initial : Rested {} := ⟨idle_initial, rfl, rfl, rfl, rfl⟩

variable {p : WindowPair}

/-- Merging leaves the pair rested, also if it is broken off, and adds at most one entry. -/
theorem Rested.merge (hp : p.Rested) (x : Indicator) :
    (p.merge x).2.Rested ∧ (p.merge x).2.active.size ≤ p.active.size + 1 := by
  have henter : p.active.enter.Counted := hp.counted
  obtain ⟨hcounted, hsize⟩ := Window.merge_counted henter x
  refine ⟨⟨⟨hp.claims, hp.free, hp.empty⟩, ?_, hp.retiredLeft, hp.emptySize, hcounted⟩, hsize⟩
  show (p.active.enter.merge x).2.writers - 1 = 0
  rw [(Window.merge_kept p.active.enter x).1]
  show p.active.writers + 1 - 1 = 0
  rw [hp.activeLeft]

/-- What was merged is in the active window. -/
theorem merge_active_view (p : WindowPair) (x : Indicator) :
    (p.merge x).2.active.view = Function.update p.active.view x.key (absorb (p.active.view x.key) x.value) :=
  Window.merge_view p.active.enter x

/-- After a swap and a reading, the pair is rested and empty. -/
theorem Rested.release (hp : p.Rested) :
    p.swapped.drain.2.release.Rested ∧ p.swapped.drain.2.release.active.entries = ∅ ∧
      p.swapped.drain.2.release.active.size = 0 := by
  refine ⟨⟨hp.toIdle.release.1, hp.retiredLeft, hp.activeLeft, rfl, ?_⟩, hp.empty, hp.emptySize⟩
  show p.retired.size = p.retired.entries.size
  rw [hp.emptySize, hp.empty]
  rfl

end WindowPair

namespace Backend

/-! ## Batches -/

/-- Every batch that was handed to the store on the way from `b` to `b'` is one of `P`, which sees the
stage, the stages that were flushing, and the operations. -/
def Sent (P : Layout → List Layout → List Operation → Prop) (b b' : Backend) : Prop :=
  ∃ es, b'.journal = es ++ b.journal ∧ ∀ l flushing ops ok, Event.batch l flushing ops ok ∈ es → P l flushing ops

variable {P Q : Layout → List Layout → List Operation → Prop} {b b' b'' : Backend}

theorem Sent.refl (b : Backend) : Sent P b b := ⟨[], rfl, fun _ _ _ _ h => by cases h⟩

theorem Sent.trans (h : Sent P b b') (h' : Sent P b' b'') : Sent P b b'' := by
  obtain ⟨es, he, hes⟩ := h
  obtain ⟨fs, hf, hfs⟩ := h'
  refine ⟨fs ++ es, by rw [hf, he, List.append_assoc], fun l flushing ops ok hmem => ?_⟩
  rcases List.mem_append.1 hmem with hmem | hmem
  · exact hfs l flushing ops ok hmem
  · exact hes l flushing ops ok hmem

theorem Sent.mono (h : Sent P b b') (hPQ : ∀ l flushing ops, P l flushing ops → Q l flushing ops) : Sent Q b b' := by
  obtain ⟨es, he, hes⟩ := h
  exact ⟨es, he, fun l flushing ops ok hmem => hPQ l flushing ops (hes l flushing ops ok hmem)⟩

/-- Recording anything but a batch sends none. -/
theorem sent_record (b : Backend) {e : Event} (h : ∀ l flushing ops ok, e ≠ .batch l flushing ops ok) :
    Sent P b (b.record e) := by
  refine ⟨[e], rfl, fun l flushing ops ok hmem => ?_⟩
  exact absurd (List.mem_singleton.1 hmem).symm (h l flushing ops ok)

theorem sent_called (b : Backend) : Sent P b b.called := ⟨[], rfl, fun _ _ _ _ h => by cases h⟩

theorem sent_persist (b : Backend) {l : Layout} {flushing : List Layout} {batch : List Operation}
    (h : P l flushing batch) : Sent P b (b.persist l flushing batch).2 := by
  have hone (ok : Bool) : ∀ l' flushing' ops ok', Event.batch l' flushing' ops ok' ∈ [Event.batch l flushing batch ok] →
      P l' flushing' ops := by
    intro l' flushing' ops ok' hmem
    cases List.mem_singleton.1 hmem
    exact h
  rcases persist_cases b l flushing batch with ⟨e, he⟩ | ⟨t, -, hb⟩
  · rw [he]
    exact ⟨[_], rfl, hone false⟩
  · rw [hb]
    exact ⟨[_], rfl, hone true⟩

end Backend

namespace Stage

open Backend

variable {σ : Type} {s : Stage} {outlet : Option (Outlet σ)} {I : σ → Prop}
  {P : Layout → List Layout → List Operation → Prop}

theorem ready_sent (s : Stage) (kind : WriteKind) (x : Indicator) (b : Backend) : Sent P b (s.ready kind x b).2 := by
  have hcalled : Sent P b (b.prepare kind s.layout x).2 := sent_called b
  unfold ready
  rcases hprepare : b.prepare kind s.layout x with ⟨e | op, b'⟩ <;> rw [hprepare] at hcalled
  · exact hcalled.trans (sent_record b' fun _ _ _ _ h => by cases h)
  · exact hcalled

theorem reconcile_sent (s : Stage) (x : Indicator) (b : Backend) : Sent P b (s.reconcile x b).2 := by
  have hcalled : Sent P b (b.get s.layout x.key).2 := sent_called b
  unfold reconcile
  rcases hget : b.get s.layout x.key with ⟨e | _ | stored, b'⟩ <;> rw [hget] at hcalled
  · exact hcalled.trans (sent_record b' fun _ _ _ _ h => by cases h)
  · exact hcalled.trans (ready_sent s .insert x b')
  · dsimp only
    cases x.combine stored with
    | error e => exact hcalled.trans (sent_record b' fun _ _ _ _ h => by cases h)
    | ok joined =>
      dsimp only
      cases joined.refresh with
      | error fault => exact hcalled
      | ok fresh => exact hcalled.trans (ready_sent s .update fresh b')

/-- The next stage keeps `I` of what it and the stages below it remember, and sends batches of `P`. -/
def Outlet.Keeps (I : σ → Prop) (P : Layout → List Layout → List Operation → Prop) (outlet : Option (Outlet σ)) : Prop :=
  ∀ next, outlet = some next → ∀ x below b, I below →
    I (next.submit x below b).2.1 ∧ Sent P b (next.submit x below b).2.2

theorem forward_keeps (ho : Outlet.Keeps I P outlet) (x : Indicator) {c : Scene σ} (hI : I c.below) :
    I (s.forward outlet x c).2.below ∧ Sent P c.backend (s.forward outlet x c).2.backend := by
  cases outlet with
  | none => exact ⟨hI, .refl _⟩
  | some next =>
    cases hroll : x.rollup next.layout.level with
    | error e =>
      rw [forward_error hroll]
      exact ⟨hI, sent_record c.backend fun _ _ _ _ h => by cases h⟩
    | ok y =>
      rw [forward_ok hroll]
      exact ho next rfl y c.below c.backend hI

/-- The operation stores one of some entries, with what was found in the table under its key. -/
def Stems (s : Stage) (xs : List Indicator) (op : Operation) : Prop :=
  ∃ x ∈ xs, ∃ b kind y, Reconciled s x b kind y ∧ op = .storing kind s.layout y

theorem Stems.mono {xs ys : List Indicator} {op : Operation} (h : Stems s xs op) (hsub : ∀ x ∈ xs, x ∈ ys) :
    Stems s ys op := by
  obtain ⟨y, hy, hstem⟩ := h
  exact ⟨y, hsub y hy, hstem⟩

/-- A batch stores some of the entries it is prepared from. -/
theorem prepareBatch_keeps (ho : Outlet.Keeps I P outlet) (xs : List Indicator) {c : Scene σ} (hI : I c.below) :
    I (s.prepareBatch outlet xs c).2.below ∧ Sent P c.backend (s.prepareBatch outlet xs c).2.backend ∧
      ∀ batch, (s.prepareBatch outlet xs c).1 = .ok batch → batch.length ≤ xs.length ∧
        ∀ op ∈ batch, Stems s xs op := by
  induction xs generalizing c with
  | nil =>
    refine ⟨hI, .refl _, ?_⟩
    intro batch h
    obtain rfl : [] = batch := Except.ok.inj h
    exact ⟨Nat.le_refl _, fun _ h => by cases h⟩
  | cons x rest ih =>
    have hsent := reconcile_sent (P := P) s x c.backend
    obtain ⟨-, hop⟩ := reconcile_spec s x c.backend
    unfold prepareBatch
    rcases hr : s.reconcile x c.backend with ⟨fault | _ | ⟨op, y⟩, b⟩ <;> rw [hr] at hsent hop
    · exact ⟨hI, hsent, fun _ h => by cases h⟩
    · obtain ⟨hI', hsent', hbatch⟩ := ih (c := { c with backend := b }.count .addReconcileFailure) hI
      refine ⟨hI', hsent.trans hsent', fun batch h => ?_⟩
      obtain ⟨hlength, hstems⟩ := hbatch batch h
      exact ⟨hlength.trans (Nat.le_succ _), fun o ho => (hstems o ho).mono fun _ => List.mem_cons_of_mem _⟩
    · obtain ⟨-, kind, hreconciled, rfl⟩ := hop op y rfl
      obtain ⟨hI', hsent'⟩ := forward_keeps (s := s) ho y (c := { c with backend := b }) hI
      dsimp only
      rcases hf : s.forward outlet y { c with backend := b } with ⟨fault | _, c'⟩ <;> rw [hf] at hI' hsent'
      · exact ⟨hI', hsent.trans hsent', fun _ h => by cases h⟩
      · obtain ⟨hI'', hsent'', hbatch⟩ := ih (c := c') hI'
        refine ⟨hI'', (hsent.trans hsent').trans hsent'', fun batch h => ?_⟩
        dsimp only at h
        cases htail : (s.prepareBatch outlet rest c').1 with
        | error fault => rw [htail] at h; cases h
        | ok tail =>
          rw [htail] at h
          obtain rfl : _ :: tail = batch := Except.ok.inj h
          obtain ⟨hlength, hstems⟩ := hbatch tail htail
          refine ⟨Nat.succ_le_succ hlength, fun o ho => ?_⟩
          rcases List.mem_cons.1 ho with rfl | ho
          · exact ⟨x, List.mem_cons_self .., c.backend, kind, y, hreconciled, rfl⟩
          · exact (hstems o ho).mono fun _ => List.mem_cons_of_mem _

theorem Scene.draining_sent (c : Scene σ) (s : Stage) (p : WindowPair) : Sent P c.backend (c.draining s p).backend :=
  sent_record c.backend fun _ _ _ _ h => by cases h

/-! ## One stage -/

/-- A stage that is ready for its next call. -/
structure State.Ready (s : Stage) (own : State) : Prop where
  rested : own.windows.Rested
  accepting : own.flushing = false
  bounded : own.windows.active.size ≤ s.threshold

theorem State.ready_initial (s : Stage) : State.Ready s {} :=
  ⟨WindowPair.rested_initial, rfl, Nat.zero_le _⟩

/-- The batch of a flush itself: it was led to by `above`, and stores entries that were in the active
window. -/
def Own (s : Stage) (above : List Layout) (w : Window) (l : Layout) (flushing : List Layout)
    (ops : List Operation) : Prop :=
  l = s.layout ∧ flushing = above ++ [s.layout] ∧ ops.length ≤ w.size ∧ ∀ op ∈ ops, Stems s w.indicators op

/-- However a flush of a ready stage goes, it is not refused, it leaves the stage ready with an empty
window, and the batch that it sends is made of what was in the active window. -/
theorem flush_ready (ho : Outlet.Keeps I P outlet) {c : Scene σ} (hown : c.own.Ready s) (hI : I c.below)
    (above : List Layout) :
    (s.flush outlet above c).1 ≠ .ok (.ok false) ∧
      ((s.flush outlet above c).2.own.Ready s ∧ (s.flush outlet above c).2.own.windows.active.entries = ∅ ∧
        (s.flush outlet above c).2.own.windows.active.size = 0) ∧
      I (s.flush outlet above c).2.below ∧
      Sent (fun l flushing ops => P l flushing ops ∨ Own s above c.own.windows.active l flushing ops) c.backend
        (s.flush outlet above c).2.backend := by
  have hidle := hown.rested.toIdle
  obtain ⟨hrested, hempty, hsize⟩ := hown.rested.release
  -- whatever becomes of the batch, the windows are those of the pair after a swap and a reading
  have hflushed {d : Scene σ} (hkept : (c.draining s c.own.windows.swapped).own.Kept d.own) :
      d.flushed.own.Ready s ∧ d.flushed.own.windows.active.entries = ∅ ∧ d.flushed.own.windows.active.size = 0 := by
    have hwindows : d.flushed.own.windows = c.own.windows.swapped.drain.2.release :=
      congrArg WindowPair.release hkept.windows
    refine ⟨⟨hwindows ▸ hrested, rfl, ?_⟩, hwindows ▸ hempty, hwindows ▸ hsize⟩
    rw [hwindows, hsize]
    exact Nat.zero_le _
  have hprepared {p : WindowPair} {a : Attempt} {r : Outcome (List Operation)} {d : Scene σ}
      (hcommit : c.own.windows.begin.2.commit c.own.windows.begin.1 = (true, a, p))
      (hprepare : s.prepareBatch outlet (c.taken s p) (c.draining s p) = (r, d)) :
      (c.draining s c.own.windows.swapped).own.Kept d.own ∧ I d.below ∧ Sent P c.backend d.backend ∧
        ∀ batch, r = .ok batch → Own s above c.own.windows.active s.layout (above ++ [s.layout]) batch := by
    obtain ⟨-, rfl⟩ := hidle.swaps hcommit
    have hkept := prepareBatch_kept (s := s) outlet (c.taken s c.own.windows.swapped) (c.draining s c.own.windows.swapped)
    obtain ⟨hI', hsent, hbatch⟩ := prepareBatch_keeps (s := s) ho (c.taken s c.own.windows.swapped)
      (c := c.draining s c.own.windows.swapped) hI
    rw [hprepare] at hkept hI' hsent hbatch
    refine ⟨hkept, hI', (c.draining_sent s _).trans hsent, fun batch h => ?_⟩
    obtain ⟨hlength, hstems⟩ := hbatch batch h
    have htaken := c.taken_perm s c.own.windows.swapped
    refine ⟨rfl, rfl, ?_, fun op hop => (hstems op hop).mono fun x hx => htaken.mem_iff.1 hx⟩
    rw [hown.rested.counted]
    exact hlength.trans_eq (htaken.length_eq.trans (List.length_map _))
  have hmono {b : Backend} (h : Sent P c.backend b) :
      Sent (fun l flushing ops => P l flushing ops ∨ Own s above c.own.windows.active l flushing ops) c.backend b :=
    h.mono fun _ _ _ => Or.inl
  rcases hflush : s.flush outlet above c with ⟨r, e⟩
  cases hflush ▸ flush_cases s outlet above c with
  | unswapped hcommit =>
    obtain ⟨hswapped, -⟩ := hidle.swaps hcommit
    cases hswapped
  | aborted hcommit hprepare =>
    obtain ⟨hkept, hI', hsent, -⟩ := hprepared hcommit hprepare
    refine ⟨fun h => ?_, hflushed hkept, hI', hmono hsent⟩
    cases h
  | unwritten hcommit hprepare =>
    obtain ⟨hkept, hI', hsent, -⟩ := hprepared hcommit hprepare
    refine ⟨fun h => ?_, hflushed hkept, hI', hmono hsent⟩
    cases h
  | @sent _ _ op batch d d' r hcommit hprepare hwrite =>
    obtain ⟨hkept, hI', hsent, hbatch⟩ := hprepared hcommit hprepare
    obtain ⟨hkept', hbelow⟩ := writeBatch_kept (s := s) above (op :: batch) d
    have hwritten : Sent (fun l flushing ops => P l flushing ops ∨ Own s above c.own.windows.active l flushing ops)
        d.backend (s.writeBatch above (op :: batch) d).2.backend := by
      have hpersist := sent_persist (P := fun l flushing ops => P l flushing ops ∨
        Own s above c.own.windows.active l flushing ops) d.backend (.inr (hbatch _ rfl))
      unfold writeBatch
      rcases hp : d.backend.persist s.layout (above ++ [s.layout]) (op :: batch) with ⟨e | _, b⟩ <;>
        rw [hp] at hpersist <;> exact hpersist
    rw [hwrite] at hkept' hbelow hwritten
    refine ⟨fun h => ?_, hflushed (hkept.trans hkept'), hbelow ▸ hI', (hmono hsent).trans hwritten⟩
    cases r <;> cases h

theorem merge_sent (s : Stage) (x : Indicator) (c : Scene σ) : Sent P c.backend (s.merge x c).2.backend := by
  unfold merge
  rcases c.own.windows.merge x with ⟨fault | e | _, p⟩
  · exact .refl _
  · exact sent_record c.backend fun _ _ _ _ h => by cases h
  · exact .refl _

/-- Merging leaves a stage ready whose window is not full, also if a fault breaks it off. -/
theorem merge_ready {c : Scene σ} (hown : c.own.Ready s) (hroom : c.own.windows.active.size < s.threshold)
    (x : Indicator) :
    (s.merge x c).2.own.Ready s ∧ (s.merge x c).2.below = c.below ∧
      (s.merge x c).2.own.windows.active.view =
        Function.update c.own.windows.active.view x.key (absorb (c.own.windows.active.view x.key) x.value) := by
  obtain ⟨hrested, hsize⟩ := hown.rested.merge x
  have hview := WindowPair.merge_active_view c.own.windows x
  unfold merge
  rcases hmerge : c.own.windows.merge x with ⟨fault | e | _, p⟩ <;> rw [hmerge] at hrested hsize hview <;>
    exact ⟨⟨hrested, hown.accepting, hsize.trans hroom⟩, rfl, hview⟩

/-- An update that finds the window full is not seen by the flush that comes first, and sends nothing after it. -/
theorem submit_full {c : Scene σ} (hfull : s.threshold ≤ c.own.windows.active.size) (above : List Layout)
    (x : Indicator) : Sent P (s.flush outlet above c).2.backend (s.submit outlet above x c).2.backend := by
  unfold submit
  rw [if_pos hfull]
  rcases s.flush outlet above c with ⟨fault | e | swapped, d⟩
  · exact .refl _
  · exact (sent_record (e := .flushFailed e) d.backend fun _ _ _ _ h => by cases h).trans (merge_sent s x _)
  · exact merge_sent s x d

/-- However an update goes, it leaves a ready stage ready. The update that finds the window full is alone
in the window then, since what it found there was flushed before. -/
theorem submit_ready (ho : Outlet.Keeps I P outlet) {c : Scene σ} (hown : c.own.Ready s) (hI : I c.below)
    (above : List Layout) (x : Indicator) :
    (s.submit outlet above x c).2.own.Ready s ∧ I (s.submit outlet above x c).2.below ∧
      Sent (fun l flushing ops => P l flushing ops ∨ Own s above c.own.windows.active l flushing ops) c.backend
        (s.submit outlet above x c).2.backend ∧
      (s.threshold ≤ c.own.windows.active.size → (s.submit outlet above x c).1 = .ok () →
        (s.submit outlet above x c).2.own.windows.active.view = gathered [x]) := by
  have hpos : 0 < s.threshold := Nat.le_max_right _ _
  by_cases hfull : s.threshold ≤ c.own.windows.active.size
  · obtain ⟨-, ⟨hready, hempty, hsize⟩, hI', hsent⟩ := flush_ready ho hown hI above
    -- the update is merged into an empty window
    have hmerged {d : Scene σ} (hd : d.own = (s.flush outlet above c).2.own)
        (hbelow : d.below = (s.flush outlet above c).2.below) :
        (s.merge x d).2.own.Ready s ∧ I (s.merge x d).2.below ∧
          (s.merge x d).2.own.windows.active.view = gathered [x] := by
      obtain ⟨hready', hbelow', hview⟩ := merge_ready (c := d) (hd ▸ hready) (by rw [hd, hsize]; exact hpos) x
      refine ⟨hready', hbelow' ▸ hbelow ▸ hI', hview.trans ?_⟩
      have hnone : d.own.windows.active.view = gathered [] := by
        unfold Window.view
        rw [hd, hempty]
        rfl
      rw [hnone, ← gathered_append, List.nil_append]
    suffices h : (s.submit outlet above x c).2.own.Ready s ∧ I (s.submit outlet above x c).2.below ∧
        ((s.submit outlet above x c).1 = .ok () →
          (s.submit outlet above x c).2.own.windows.active.view = gathered [x]) from
      ⟨h.1, h.2.1, hsent.trans (submit_full hfull above x), fun _ => h.2.2⟩
    unfold submit
    rw [if_pos hfull]
    rcases hf : s.flush outlet above c with ⟨fault | e | swapped, d⟩ <;> rw [hf] at hready hI' hmerged
    · exact ⟨hready, hI', fun h => by cases h⟩
    · obtain ⟨hready', hI'', hview⟩ := hmerged (d := d.record (.flushFailed e)) rfl rfl
      exact ⟨hready', hI'', fun _ => hview⟩
    · obtain ⟨hready', hI'', hview⟩ := hmerged rfl rfl
      exact ⟨hready', hI'', fun _ => hview⟩
  · obtain ⟨hready, hbelow, -⟩ := merge_ready hown (Nat.lt_of_not_le hfull) x
    unfold submit
    rw [if_neg hfull]
    exact ⟨hready, hbelow ▸ hI, merge_sent s x c, fun h => absurd h hfull⟩

/-! ## Lines -/

/-- All stages are ready. -/
def States.Ready : {stages : List Stage} → States stages → Prop
  | [], () => True
  | s :: _, (own, below) => own.Ready s ∧ below.Ready

theorem States.ready_initial : ∀ stages : List Stage, (States.initial stages).Ready
  | [] => trivial
  | s :: rest => ⟨State.ready_initial s, ready_initial rest⟩

/-- The batches that stages send whose flushes were led to by so many others: they are no longer than a
window of theirs may be. -/
def Fitting (stages : List Stage) (above : Nat) (l : Layout) (flushing : List Layout) (ops : List Operation) : Prop :=
  ∃ s ∈ stages, s.layout = l ∧ ops.length ≤ s.threshold ∧ above < flushing.length

theorem Fitting.below {rest : List Stage} {above n : Nat} {l : Layout} {flushing : List Layout} {ops : List Operation}
    (h : Fitting rest n l flushing ops) (hn : above ≤ n) : Fitting (s :: rest) above l flushing ops := by
  obtain ⟨t, ht, hlayout, hlength, hflushing⟩ := h
  exact ⟨t, List.mem_cons_of_mem _ ht, hlayout, hlength, hn.trans_lt hflushing⟩

/-- A batch of the first stage, or of one below it that it led to. -/
theorem fitting_cons {rest : List Stage} {above : List Layout} {own : State} (hown : own.Ready s) {l : Layout}
    {flushing : List Layout} {ops : List Operation}
    (h : Fitting rest (above ++ [s.layout]).length l flushing ops ∨ Own s above own.windows.active l flushing ops) :
    Fitting (s :: rest) above.length l flushing ops := by
  have hlonger : above.length < (above ++ [s.layout]).length := by simp
  rcases h with h | ⟨rfl, rfl, hlength, -⟩
  · exact h.below hlonger.le
  · exact ⟨s, List.mem_cons_self .., rfl, hlength.trans hown.bounded, hlonger⟩

theorem outlet_keeps {rest : List Stage} {n : Nat}
    {f : Nat → Indicator → States rest → Backend → Outcome Unit × States rest × Backend}
    (hf : ∀ i x states b, states.Ready → (f i x states b).2.1.Ready ∧ Sent (Fitting rest n) b (f i x states b).2.2) :
    Outlet.Keeps States.Ready (Fitting rest n) (s.outlet rest f) := by
  intro next hnext x below b hbelow
  obtain ⟨j, t, -, -, rfl⟩ := outlet_eq_some hnext
  exact hf j x below b hbelow

/-- An update leaves all stages ready. -/
theorem submitIn_ready : ∀ (stages : List Stage) (above : List Layout) (i : Nat) (x : Indicator)
    (states : States stages) (b : Backend), states.Ready →
      (submitIn stages above i x states b).2.1.Ready ∧
        Sent (Fitting stages above.length) b (submitIn stages above i x states b).2.2
  | [], _, _, _, (), b, _ => ⟨trivial, .refl b⟩
  | s :: rest, above, 0, x, (own, below), b, h => by
    have hkeeps : Outlet.Keeps States.Ready (Fitting rest (above ++ [s.layout]).length) (s.downstream rest above) :=
      outlet_keeps fun i x states b => submitIn_ready rest (above ++ [s.layout]) i x states b
    obtain ⟨hown, hbelow, hsent, -⟩ := submit_ready hkeeps (c := ⟨own, below, b⟩) h.1 h.2 above x
    exact ⟨⟨hown, hbelow⟩, hsent.mono fun _ _ _ => fitting_cons h.1⟩
  | _ :: rest, above, i + 1, x, (_, below), b, h => by
    obtain ⟨hbelow, hsent⟩ := submitIn_ready rest above i x below b h.2
    exact ⟨⟨h.1, hbelow⟩, hsent.mono fun _ _ _ hfit => hfit.below (Nat.le_refl _)⟩

theorem downstream_keeps (s : Stage) (rest : List Stage) (above : List Layout) :
    Outlet.Keeps States.Ready (Fitting rest (above ++ [s.layout]).length) (s.downstream rest above) :=
  outlet_keeps fun i x states b => submitIn_ready rest (above ++ [s.layout]) i x states b

/-- A flush of the first stage leaves all stages ready, and is not refused. -/
theorem flushHead_ready {rest : List Stage} {states : States (s :: rest)} (h : states.Ready) (b : Backend) :
    (s.flushHead rest states b).1 ≠ .ok (.ok false) ∧
      ((s.flushHead rest states b).2.own.Ready s ∧ (s.flushHead rest states b).2.below.Ready) ∧
      Sent (Fitting (s :: rest) 0) b (s.flushHead rest states b).2.backend := by
  obtain ⟨hswapped, ⟨hown, -⟩, hbelow, hsent⟩ := flush_ready (downstream_keeps s rest [])
    (c := ⟨states.1, states.2, b⟩) h.1 h.2 []
  exact ⟨hswapped, ⟨hown, hbelow⟩, hsent.mono fun _ _ _ => fitting_cons h.1⟩

theorem flushIn_ready : ∀ (stages : List Stage) (i : Nat) (states : States stages) (b : Backend), states.Ready →
    (i < stages.length → (flushIn stages i states b).1 ≠ .ok (.ok false)) ∧
      (flushIn stages i states b).2.1.Ready ∧ Sent (Fitting stages 0) b (flushIn stages i states b).2.2
  | [], _, (), b, _ => ⟨fun h => absurd h (Nat.not_lt_zero _), trivial, .refl b⟩
  | s :: rest, 0, states, b, h => by
    obtain ⟨hswapped, hready, hsent⟩ := flushHead_ready h b
    exact ⟨fun _ => hswapped, hready, hsent⟩
  | _ :: rest, i + 1, (_, below), b, h => by
    obtain ⟨hswapped, hready, hsent⟩ := flushIn_ready rest i below b h.2
    exact ⟨fun hi => hswapped (Nat.lt_of_succ_lt_succ hi), ⟨h.1, hready⟩, hsent.mono fun _ _ _ hfit => hfit.below (Nat.le_refl _)⟩

/-- A flush of all stages leaves all ready, also if it is broken off. -/
theorem flushAllIn_ready : ∀ (stages : List Stage) (states : States stages) (b : Backend), states.Ready →
    (flushAllIn stages states b).2.1.Ready ∧ Sent (Fitting stages 0) b (flushAllIn stages states b).2.2
  | [], (), b, _ => ⟨trivial, .refl b⟩
  | s :: rest, states, b, h => by
    obtain ⟨-, ⟨hown, hbelow⟩, hsent⟩ := flushHead_ready h b
    have hrest := flushAllIn_ready rest
    unfold flushAllIn
    rcases hf : s.flushHead rest states b with ⟨fault | e | _, c⟩ <;> rw [hf] at hown hbelow hsent
    · exact ⟨⟨hown, hbelow⟩, hsent⟩
    · obtain ⟨hready, hsent'⟩ := hrest c.below (c.backend.record (.flushFailed e)) hbelow
      have hreport : Sent (Fitting (s :: rest) 0) c.backend (c.backend.record (.flushFailed e)) :=
        sent_record c.backend fun _ _ _ _ h => by cases h
      exact ⟨⟨hown, hready⟩, (hsent.trans hreport).trans (hsent'.mono fun _ _ _ hfit => hfit.below (Nat.le_refl _))⟩
    · obtain ⟨hready, hsent'⟩ := hrest c.below c.backend hbelow
      exact ⟨⟨hown, hready⟩, hsent.trans (hsent'.mono fun _ _ _ hfit => hfit.below (Nat.le_refl _))⟩

end Stage

end MetricCascade
