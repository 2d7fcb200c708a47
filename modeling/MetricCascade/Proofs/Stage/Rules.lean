/-
Rules for runs in which no call is aborted. What is kept by every entry of a batch, taken or left out, is kept
by the batch; what is kept by every flush and every update of a stage, as far as the next stage is used as
agreed, is kept by a line of such stages and by every run of it. Along the line it is counted how many updates
each stage was given, by calls from outside and by the stages that feed it.
-/
import MetricCascade.Proofs.Stage.Visits
import MetricCascade.Proofs.Window.Merge

namespace MetricCascade

/-- The stage whose window was read out, or whose batch went to the gateway. -/
def Event.worker? : Event → Option Layout
  | .drained stage _ => some stage
  | .batch stage _ _ _ => some stage
  | _ => none

namespace Backend

/-! ## Who worked -/

/-- Only stages of `P` have read out windows and sent batches between `b` and `b'`. -/
def Noted (P : Layout → Prop) (b b' : Backend) : Prop :=
  ∃ es, b'.journal = es ++ b.journal ∧ ∀ e ∈ es, ∀ l, e.worker? = some l → P l

variable {P Q : Layout → Prop} {b b' b'' : Backend}

theorem Noted.refl (b : Backend) : Noted P b b := ⟨[], rfl, fun _ h => by cases h⟩

theorem Noted.trans (h : Noted P b b') (h' : Noted P b' b'') : Noted P b b'' := by
  obtain ⟨es, he, hes⟩ := h
  obtain ⟨fs, hf, hfs⟩ := h'
  refine ⟨fs ++ es, by rw [hf, he, List.append_assoc], fun e hmem => ?_⟩
  exact (List.mem_append.1 hmem).elim (hfs e) (hes e)

theorem Noted.mono (h : Noted P b b') (hPQ : ∀ l, P l → Q l) : Noted Q b b' := by
  obtain ⟨es, he, hes⟩ := h
  exact ⟨es, he, fun e hmem l hl => hPQ l (hes e hmem l hl)⟩

theorem noted_record (b : Backend) {e : Event} (h : ∀ l, e.worker? = some l → P l) : Noted P b (b.record e) := by
  refine ⟨[e], rfl, fun e' hmem => ?_⟩
  rw [List.mem_singleton.1 hmem]
  exact h

/-- Recording neither a reading nor a batch is a report. -/
theorem noted_report (b : Backend) {e : Event} (h : e.worker? = none) : Noted P b (b.record e) :=
  noted_record b fun l hl => by
    rw [h] at hl
    cases hl

theorem noted_called (b : Backend) : Noted P b b.called := ⟨[], rfl, fun _ h => by cases h⟩

theorem noted_persist (b : Backend) {l : Layout} (flushing : List Layout) (batch : List Operation) (hl : P l) :
    Noted P b (b.persist l flushing batch).2 := by
  have hworker {ok : Bool} : ∀ m, (Event.batch l flushing batch ok).worker? = some m → P m := by
    rintro _ ⟨⟩
    exact hl
  rcases persist_cases b l flushing batch with ⟨e, he⟩ | ⟨t, -, hb⟩
  · rw [he]
    exact noted_record b.called hworker
  · rw [hb]
    exact noted_record b.called hworker

/-- What happens between `b` and `b'` is work of stages of `P`. -/
structure Aside (P : Layout → Prop) (b b' : Backend) : Prop where
  work : Extends P b b'
  noted : Noted P b b'

theorem Aside.refl (b : Backend) : Aside P b b := ⟨.refl b, .refl b⟩

theorem Aside.trans (h : Aside P b b') (h' : Aside P b' b'') : Aside P b b'' :=
  ⟨h.work.trans h'.work, h.noted.trans h'.noted⟩

theorem Aside.mono (h : Aside P b b') (hPQ : ∀ l, P l → Q l) : Aside Q b b' :=
  ⟨h.work.mono hPQ, h.noted.mono hPQ⟩

theorem aside_report (b : Backend) {e : Event} (h : e.worker? = none) : Aside P b (b.record e) := by
  have haccepted (l : Layout) : e.accepted l = [] := by
    cases e <;> first | rfl | cases h
  exact ⟨(asked_record b haccepted).extends, noted_report b h⟩

end Backend

namespace Stage

open Backend

variable {σ : Type} {s : Stage} {outlet : Option (Outlet σ)} {above : List Layout} {P : Layout → Prop}

/-! ## Batches and flushes -/

/-- What is kept by every entry that is left out of a batch, and by every entry that is taken and handed on,
holds of the batch in the end. `M` sees the entries still to come, the operations so far, and the scene. -/
theorem prepareBatch_rule {M : List Indicator → List Operation → Scene σ → Prop}
    (left : ∀ x rest ops c b, M (x :: rest) ops c → s.reconcile x c.backend = (.ok none, b) →
      M rest ops ({ c with backend := b }.count .addReconcileFailure))
    (taken : ∀ x rest ops c op y b d, M (x :: rest) ops c → s.reconcile x c.backend = (.ok (some (op, y)), b) →
      s.forward outlet y { c with backend := b } = (.ok (), d) → M rest (ops ++ [op]) d)
    {xs : List Indicator} {batch : List Operation} {c d : Scene σ}
    (h : s.prepareBatch outlet xs c = (.ok batch, d)) (hM : M xs [] c) : M [] batch d := by
  suffices hops : ∀ ops, M xs ops c → M [] (ops ++ batch) d from hops [] hM
  clear hM
  intro ops hM
  induction xs generalizing c ops batch with
  | nil =>
    cases h
    rw [List.append_nil]
    exact hM
  | cons x rest ih =>
    unfold prepareBatch at h
    rcases hreconcile : s.reconcile x c.backend with ⟨fault | _ | ⟨op, y⟩, b⟩ <;> rw [hreconcile] at h <;> dsimp only at h
    · cases h
    · exact ih h ops (left x rest ops c b hM hreconcile)
    · rcases hforward : s.forward outlet y { c with backend := b } with ⟨fault | _, c'⟩ <;> rw [hforward] at h <;>
        dsimp only at h
      · cases h
      · rcases htail : s.prepareBatch outlet rest c' with ⟨fault | tail, d'⟩ <;> rw [htail] at h
        · cases h
        · cases h
          have htaken := ih htail (ops ++ [op]) (taken x rest ops c op y b c' hM hreconcile hforward)
          rwa [List.append_assoc] at htaken

/-- Every operation of a batch is for the own table. -/
theorem prepareBatch_tables {xs : List Indicator} {batch : List Operation} {c d : Scene σ}
    (h : s.prepareBatch outlet xs c = (.ok batch, d)) : ∀ op ∈ batch, op.table = s.layout.table := by
  refine prepareBatch_rule (M := fun _ ops _ => ∀ op ∈ ops, op.table = s.layout.table)
    (fun _ _ _ _ _ hops _ => hops) ?_ h (fun op hop => by cases hop)
  intro x rest ops c op y b d hops hreconcile _ o ho
  rcases List.mem_append.1 ho with ho | ho
  · exact hops o ho
  · obtain ⟨-, hop⟩ := reconcile_spec s x c.backend
    rw [hreconcile] at hop
    obtain ⟨-, kind, -, rfl⟩ := hop op y rfl
    rw [List.mem_singleton.1 ho]
    rfl

/-- A flush of idle windows takes what is in the active one, in some order. What the batch keeps is left at the end if
nothing is to be written, and is given to the gateway's answer if something is. -/
theorem flush_rule {M : List Indicator → List Operation → Scene σ → Prop} {K : Scene σ → Prop} {c e : Scene σ}
    {r : Except FlushError Bool} (hidle : c.own.windows.Idle)
    (start : M (c.taken s c.own.windows.swapped) [] (c.draining s c.own.windows.swapped))
    (left : ∀ x rest ops c b, M (x :: rest) ops c → s.reconcile x c.backend = (.ok none, b) →
      M rest ops ({ c with backend := b }.count .addReconcileFailure))
    (taken : ∀ x rest ops c op y b d, M (x :: rest) ops c → s.reconcile x c.backend = (.ok (some (op, y)), b) →
      s.forward outlet y { c with backend := b } = (.ok (), d) → M rest (ops ++ [op]) d)
    (unwritten : ∀ d, M [] [] d → K d)
    (written : ∀ op ops d, M [] (op :: ops) d → K (s.writeBatch above (op :: ops) d).2)
    (h : s.flush outlet above c = (.ok r, e)) : ∃ d, K d ∧ e = d.flushed := by
  have hprepared {p : WindowPair} {a : Attempt} {batch : List Operation} {d : Scene σ}
      (hcommit : c.own.windows.begin.2.commit c.own.windows.begin.1 = (true, a, p))
      (hprepare : s.prepareBatch outlet (c.taken s p) (c.draining s p) = (.ok batch, d)) : M [] batch d := by
    obtain ⟨-, rfl⟩ := hidle.swaps hcommit
    exact prepareBatch_rule left taken hprepare start
  have hcases := flush_cases s outlet above c
  rw [h] at hcases
  generalize hresult : (Except.ok r, e) = result at hcases
  cases hcases with
  | unswapped hcommit =>
    obtain ⟨hswapped, -⟩ := hidle.swaps hcommit
    cases hswapped
  | aborted _ _ => cases hresult
  | @unwritten _ _ d hcommit hprepare =>
    cases hresult
    exact ⟨d, unwritten d (hprepared hcommit hprepare), rfl⟩
  | @sent _ _ op batch d d' _ hcommit hprepare hwrite =>
    cases hresult
    have hwritten := written op batch d (hprepared hcommit hprepare)
    rw [hwrite] at hwritten
    exact ⟨d', hwritten, rfl⟩

/-- An update keeps what a flush, a report and merging keep. -/
theorem submit_rule {K L : Scene σ → Prop} {x : Indicator} {c d : Scene σ} (hc : K c)
    (flushed : ∀ r d, s.flush outlet above c = (.ok r, d) → K d)
    (reported : ∀ d e, K d → K (d.record (.flushFailed e)))
    (merged : ∀ d d', K d → s.merge x d = (.ok (), d') → L d')
    (h : s.submit outlet above x c = (.ok (), d)) : L d := by
  unfold submit at h
  split at h
  · rcases hflush : s.flush outlet above c with ⟨fault | e | swapped, c'⟩ <;> rw [hflush] at h
    · cases h
    · exact merged _ _ (reported c' e (flushed _ _ hflush)) h
    · exact merged _ _ (flushed _ _ hflush) h
  · exact merged c d hc h

/-! ## Who worked in a call -/

theorem ready_noted (s : Stage) (kind : WriteKind) (x : Indicator) (b : Backend) : Noted P b (s.ready kind x b).2 := by
  have hcalled : Noted P b (b.prepare kind s.layout x).2 := noted_called b
  unfold ready
  rcases hprepare : b.prepare kind s.layout x with ⟨e | op, b'⟩ <;> rw [hprepare] at hcalled
  · exact hcalled.trans (noted_report b' rfl)
  · exact hcalled

/-- No window is read out and no batch sent by reconciling. -/
theorem reconcile_noted (s : Stage) (x : Indicator) (b : Backend) : Noted P b (s.reconcile x b).2 := by
  have hcalled : Noted P b (b.get s.layout x.key).2 := noted_called b
  unfold reconcile
  rcases hget : b.get s.layout x.key with ⟨e | _ | stored, b'⟩ <;> rw [hget] at hcalled
  · exact hcalled.trans (noted_report b' rfl)
  · exact hcalled.trans (ready_noted s .insert x b')
  · dsimp only
    cases x.combine stored with
    | error e => exact hcalled.trans (noted_report b' rfl)
    | ok joined =>
      dsimp only
      cases joined.refresh with
      | error fault => exact hcalled
      | ok fresh => exact hcalled.trans (ready_noted s .update fresh b')

/-- Whatever the next stage takes is work of the stages of `P`. -/
def Outlet.Apart (P : Layout → Prop) (outlet : Option (Outlet σ)) : Prop :=
  ∀ next, outlet = some next → ∀ x below b below' b', next.submit x below b = (.ok (), below', b') → Aside P b b'

theorem forward_noted (hout : Outlet.Apart P outlet) {x : Indicator} {c d : Scene σ}
    (h : s.forward outlet x c = (.ok (), d)) : Noted P c.backend d.backend := by
  cases outlet with
  | none =>
    cases h
    exact .refl _
  | some next =>
    cases hroll : x.rollup next.layout.level with
    | error e =>
      rw [forward_error hroll] at h
      cases h
      exact noted_report c.backend rfl
    | ok y =>
      rw [forward_ok hroll] at h
      rcases hsubmit : next.submit y c.below c.backend with ⟨r, below', b'⟩
      rw [hsubmit] at h
      cases h
      exact (hout next rfl y c.below c.backend below' b' hsubmit).noted

theorem writeBatch_noted (hs : P s.layout) (above : List Layout) (batch : List Operation) (c : Scene σ) :
    Noted P c.backend (s.writeBatch above batch c).2.backend := by
  have hpersist := noted_persist c.backend (above ++ [s.layout]) batch hs
  unfold writeBatch
  rcases hp : c.backend.persist s.layout (above ++ [s.layout]) batch with ⟨e | _, b⟩ <;> rw [hp] at hpersist <;>
    exact hpersist

theorem prepareBatch_noted (hout : Outlet.Apart P outlet) {xs : List Indicator} {batch : List Operation} {c d : Scene σ}
    (h : s.prepareBatch outlet xs c = (.ok batch, d)) : Noted P c.backend d.backend := by
  have hreconciled {x : Indicator} {e : Scene σ} {r : Outcome (Option (Operation × Indicator))} {b : Backend}
      (he : Noted P c.backend e.backend) (hreconcile : s.reconcile x e.backend = (r, b)) : Noted P c.backend b := by
    have hnoted := reconcile_noted (P := P) s x e.backend
    rw [hreconcile] at hnoted
    exact he.trans hnoted
  exact prepareBatch_rule (M := fun _ _ e => Noted P c.backend e.backend)
    (fun _ _ _ _ _ hM hreconcile => hreconciled hM hreconcile)
    (fun _ _ _ _ _ _ _ _ hM hreconcile hforward => (hreconciled hM hreconcile).trans (forward_noted hout hforward))
    h (.refl _)

/-- A stage that reconciles an entry works for itself. -/
theorem reconcile_aside {x : Indicator} {b b' : Backend} {r : Outcome (Option (Operation × Indicator))}
    (h : s.reconcile x b = (r, b')) : Aside P b b' := by
  have hasked := (reconcile_spec s x b).1
  have hnoted := reconcile_noted (P := P) s x b
  rw [h] at hasked hnoted
  exact ⟨hasked.extends, hnoted⟩

theorem Scene.draining_aside (c : Scene σ) (s : Stage) (p : WindowPair) :
    Aside (· = s.layout) c.backend (c.draining s p).backend := by
  refine ⟨(c.draining_asked s p).extends, noted_record _ ?_⟩
  rintro _ ⟨⟩
  rfl

theorem writeBatch_aside (above : List Layout) {batch : List Operation}
    (hbatch : ∀ op ∈ batch, op.table = s.layout.table) (c : Scene σ) :
    Aside (· = s.layout) c.backend (s.writeBatch above batch c).2.backend :=
  ⟨writeBatch_extends (P := (· = s.layout)) rfl above hbatch c, writeBatch_noted (P := (· = s.layout)) rfl above batch c⟩

theorem flush_noted (hs : P s.layout) (hout : Outlet.Apart P outlet) {c d : Scene σ} {r : Except FlushError Bool}
    (h : s.flush outlet above c = (.ok r, d)) : Noted P c.backend d.backend := by
  have hprepared {p : WindowPair} {batch : List Operation} {d : Scene σ}
      (hprepare : s.prepareBatch outlet (c.taken s p) (c.draining s p) = (.ok batch, d)) : Noted P c.backend d.backend := by
    have hdrained : Noted P c.backend (c.draining s p).backend := by
      apply noted_record
      rintro _ ⟨⟩
      exact hs
    exact hdrained.trans (prepareBatch_noted hout hprepare)
  have hcases := flush_cases s outlet above c
  rw [h] at hcases
  generalize hresult : (Except.ok r, d) = result at hcases
  cases hcases with
  | unswapped _ =>
    cases hresult
    exact .refl _
  | aborted _ _ => cases hresult
  | @unwritten p _ d _ hprepare =>
    cases hresult
    have hnoted : Noted P c.backend d.backend := hprepared hprepare
    exact hnoted
  | @sent _ _ op batch d _ _ _ hprepare hwrite =>
    cases hresult
    have hwritten := writeBatch_noted hs above (op :: batch) d
    rw [hwrite] at hwritten
    exact (hprepared hprepare).trans hwritten

theorem merge_noted (s : Stage) (x : Indicator) (c : Scene σ) : Noted P c.backend (s.merge x c).2.backend := by
  unfold merge
  rcases c.own.windows.merge x with ⟨fault | e | _, p⟩
  · exact .refl _
  · exact noted_report c.backend rfl
  · exact .refl _

theorem submit_noted (hs : P s.layout) (hout : Outlet.Apart P outlet) {x : Indicator} {c d : Scene σ}
    (h : s.submit outlet above x c = (.ok (), d)) : Noted P c.backend d.backend :=
  submit_rule (K := fun e => Noted P c.backend e.backend) (L := fun e => Noted P c.backend e.backend) (.refl _)
    (fun _ _ hflush => flush_noted hs hout hflush) (fun e _ he => he.trans (noted_report e.backend rfl))
    (fun e e' he hmerge => by
      have hmerged := merge_noted (P := P) s x e
      rw [hmerge] at hmerged
      exact he.trans hmerged) h

/-- The stages below are all that works when a stage hands on. -/
theorem outlet_apart {rest : List Stage}
    {f : Nat → Indicator → States rest → Backend → Outcome Unit × States rest × Backend}
    (hf : ∀ i x states b states' b', f i x states b = (.ok (), states', b') → Aside P b b') :
    Outlet.Apart P (s.outlet rest f) := by
  intro next hnext x below b below' b' h
  obtain ⟨j, t, -, -, rfl⟩ := outlet_eq_some hnext
  exact hf j x below b below' b' h

/-- An update is work of the stages of its line. -/
theorem submitIn_aside : ∀ (stages : List Stage) (above : List Layout) (i : Nat) (x : Indicator)
    (states : States stages) (b : Backend) (states' : States stages) (b' : Backend),
    submitIn stages above i x states b = (.ok (), states', b') → Aside (Among stages) b b'
  | [], _, _, _, (), b, _, _, h => by
    cases h
    exact .refl b
  | s :: rest, above, 0, x, states, b, states', b', h => by
    have hwork := submitIn_extends (s :: rest) above 0 x states b
    have hout : Outlet.Apart (Among (s :: rest)) (s.downstream rest above) :=
      outlet_apart fun i x states b states' b' h => (submitIn_aside rest _ i x states b states' b' h).mono fun _ => Among.tail
    rw [h] at hwork
    rw [submitIn_head] at h
    rcases hsubmit : s.submit (s.downstream rest above) above x ⟨states.1, states.2, b⟩ with ⟨r, d⟩
    rw [hsubmit] at h
    cases h
    exact ⟨hwork, submit_noted (Among.head s rest) hout hsubmit⟩
  | s :: rest, above, i + 1, x, states, b, states', b', h => by
    rw [submitIn_tail] at h
    rcases hsubmit : submitIn rest above i x states.2 b with ⟨r, below', b₂⟩
    rw [hsubmit] at h
    cases h
    exact (submitIn_aside rest above i x states.2 b _ _ hsubmit).mono fun _ => Among.tail

theorem downstream_apart (s : Stage) (rest : List Stage) (above : List Layout) :
    Outlet.Apart (Among rest) (s.downstream rest above) :=
  outlet_apart fun i x states b states' b' => submitIn_aside rest (above ++ [s.layout]) i x states b states' b'

theorem flushHead_aside {rest : List Stage} {states : States (s :: rest)} {b : Backend} {r : Except FlushError Bool}
    {d : Scene (States rest)} (h : s.flushHead rest states b = (.ok r, d)) :
    Aside (Among (s :: rest)) b d.backend := by
  have hwork := flushHead_extends s rest states b
  rw [h] at hwork
  have hout : Outlet.Apart (Among (s :: rest)) (s.downstream rest []) := fun next hnext x below b below' b' h =>
    (downstream_apart s rest [] next hnext x below b below' b' h).mono fun _ => Among.tail
  exact ⟨hwork, flush_noted (Among.head s rest) hout h⟩

/-- A flush is work of the stages of its line. -/
theorem flushIn_aside : ∀ (stages : List Stage) (i : Nat) (states : States stages) (b : Backend)
    {r : Except FlushError Bool} {states' : States stages} {b' : Backend},
    flushIn stages i states b = (.ok r, states', b') → Aside (Among stages) b b'
  | [], _, (), b, _, _, _, h => by
    cases h
    exact .refl b
  | s :: rest, 0, states, b, r, _, _, h => by
    rw [flushIn_head] at h
    rcases hflush : s.flushHead rest states b with ⟨r', d⟩
    rw [hflush] at h
    cases h
    exact flushHead_aside hflush
  | s :: rest, i + 1, states, b, _, _, _, h => by
    rw [flushIn_tail] at h
    rcases hflush : flushIn rest i states.2 b with ⟨r', below', b''⟩
    rw [hflush] at h
    cases h
    exact (flushIn_aside rest i states.2 b hflush).mono fun _ => Among.tail

theorem flushAllIn_aside : ∀ (stages : List Stage) (states : States stages) (b : Backend)
    {r : Except FlushError Unit} {states' : States stages} {b' : Backend},
    flushAllIn stages states b = (.ok r, states', b') → Aside (Among stages) b b'
  | [], (), b, _, _, _, h => by
    cases h
    exact .refl b
  | s :: rest, states, b, _, _, _, h => by
    rw [flushAllIn_cons] at h
    rcases hflush : s.flushHead rest states b with ⟨fault | e | swapped, d⟩ <;> rw [hflush] at h <;> dsimp only at h
    · cases h
    · rcases hall : flushAllIn rest d.below (d.backend.record (.flushFailed e)) with ⟨fault | r', below', b''⟩ <;>
        rw [hall] at h <;> cases h
      exact ((flushHead_aside hflush).trans (aside_report d.backend rfl)).trans
        ((flushAllIn_aside rest d.below _ hall).mono fun _ => Among.tail)
    · rcases hall : flushAllIn rest d.below d.backend with ⟨r', below', b''⟩
      rw [hall] at h
      cases h
      exact (flushHead_aside hflush).trans ((flushAllIn_aside rest d.below _ hall).mono fun _ => Among.tail)

end Stage

end MetricCascade
