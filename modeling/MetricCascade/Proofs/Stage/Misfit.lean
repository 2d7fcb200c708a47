/-
Updates of another measure than the stage's. They take no part in what is written, but the first one under
a key takes the place in the window, and then well-formed updates of that key are refused until the
next flush. So leaving misfits out of a run makes a difference to the table exactly if updates were
refused that add up to something.
-/
import MetricCascade.Proofs.Stage.Lone
import MetricCascade.Proofs.Window.Gathered

namespace MetricCascade

open Indicator

namespace Window

variable {w w' : Window} {m : Measure} {x : Indicator} {φ : Key → Form}

/-- An update of another measure changes nothing about the entries of this one. -/
theorem fitView_merge_of_ne (w : Window) (hx : x.measure ≠ m) : (w.merge x).2.fitView m = w.fitView m := by
  funext k
  unfold fitView
  rw [merge_view]
  by_cases hk : k = x.key
  · subst hk
    rw [Function.update_self]
    cases hold : w.view x.key with
    | none =>
      cases hfresh : x.value.refresh with
      | error fault => rw [absorb, hfresh]; rfl
      | ok fresh =>
        have hne : fresh.measure ≠ m := (Aggregate.refresh_measure hfresh).trans_ne hx
        rw [absorb, hfresh, Except.toOption, Option.filter_some, decide_eq_false hne]
        rfl
    | some a =>
      rw [absorb]
      by_cases ha : a.measure = m
      · have hne : x.value.measure ≠ a.measure := fun heq => hx (heq.trans ha)
        rw [Aggregate.join_of_ne hne]
      · have hjoin : (a.join x.value).measure ≠ m := (Aggregate.join_measure a x.value).trans_ne ha
        rw [Option.filter_some, Option.filter_some, decide_eq_false ha, decide_eq_false hjoin]
        rfl
  · rw [Function.update_of_ne hk]

/-- Merging into an entry of the measure, or where there is none, merges into the entries of the measure. -/
theorem fitView_mergeInto (h : w'.view = mergeInto w.view x) (hw : ∀ a, w.view x.key = some a → a.measure = m)
    (hx : ∀ a, mergeInto w.view x x.key = some a → a.measure = m) :
    w'.fitView m = mergeInto (w.fitView m) x := by
  funext k
  by_cases hk : k = x.key
  · subst hk
    have hsame : w.fitView m x.key = w.view x.key := by
      unfold fitView
      cases ha : w.view x.key with
      | none => rfl
      | some a => rw [Option.filter_some, decide_eq_true (hw a ha)]; rfl
    have hself : mergeInto (w.fitView m) x x.key = mergeInto w.view x x.key := by
      unfold mergeInto
      rw [Function.update_self, Function.update_self, hsame]
    rw [hself]
    unfold fitView
    rw [h]
    cases ha : mergeInto w.view x x.key with
    | none => rfl
    | some a => rw [Option.filter_some, decide_eq_true (hx a ha)]; rfl
  · rw [mergeInto_of_ne hk]
    unfold fitView
    rw [h, mergeInto_of_ne hk]

/-- An update of the measure is refused if an entry of another measure is in its place. Otherwise it is
merged. -/
theorem merge_fit (hw : ∀ a, w.fitView m x.key = some a → a.Current (φ x.key)) (hm : (φ x.key).1 = m)
    (hx : x.value.Proper) (hf : x.value.form = φ x.key) :
    ((∃ a, w.view x.key = some a ∧ a.measure ≠ m) ∧ ∃ e, w.merge x = (.ok (.error e), w)) ∨
      ((∀ a, w.view x.key = some a → a.measure = m) ∧
        ∃ w', w.merge x = (.ok (.ok ()), w') ∧ w'.fitView m = mergeInto (w.fitView m) x) := by
  by_cases hblocked : ∃ a, w.view x.key = some a ∧ a.measure ≠ m
  · refine .inl ⟨hblocked, ?_⟩
    obtain ⟨a, ha, hne⟩ := hblocked
    have hxm : x.value.measure = m := (congrArg Prod.fst hf).trans hm
    obtain ⟨e, he⟩ := Aggregate.combine_of_ne (hxm.trans_ne (Ne.symm hne))
    have hold : w.entries.get? x.key = some a := ha
    unfold merge
    rw [hold]
    simp only [he]
    exact ⟨_, rfl⟩
  · have hfree : ∀ a, w.view x.key = some a → a.measure = m := by
      intro a ha
      by_contra hne
      exact hblocked ⟨a, ha, hne⟩
    have hcurrent : ∀ a, w.view x.key = some a → a.Current (φ x.key) :=
      fun a ha => hw a (fitView_eq_some.2 ⟨ha, hfree a ha⟩)
    obtain ⟨w', hmerge, hview, -, -⟩ := merge_ok hcurrent hx hf
    refine .inr ⟨hfree, w', hmerge, fitView_mergeInto hview hfree fun a ha => ?_⟩
    obtain ⟨b, hb, hcur, -⟩ := mergeInto_self hcurrent hx hf
    rw [hb] at ha
    exact Option.some.inj ha ▸ (congrArg Prod.fst hcur.form).trans hm

end Window

namespace Stage

open Backend

/-! ## One stage -/

/-- Merging an update answers that it does not fit. -/
def State.rejects (own : State) (x : Indicator) : Bool :=
  match (own.windows.merge x).1 with
  | .ok (.error _) => true
  | _ => false

/-- The update is refused: the window is not flushed first, and its entry does not fit. -/
def refuses (s : Stage) (own : State) (x : Indicator) : Bool :=
  own.windows.active.size < s.threshold && own.rejects x

variable {σ : Type} {s : Stage} {φ : Key → Form} {H W : List Indicator} {own : State} {b : Backend}
  {x : Indicator}

theorem Sifting.asked {b' : Backend} (h : Sifting s φ H W own b) (hb : Asked b b') : Sifting s φ H W own b' :=
  h.extends (P := fun _ => False) hb.extends fun _ => False.elim

/-- A well-formed update is rejected if the entry of its key is of another measure. -/
theorem Sifting.rejects_iff (h : Sifting s φ H W own b) (hm : ∀ k, (φ k).1 = s.layout.measure)
    (hx : x.value.Proper) (hf : x.value.form = φ x.key) :
    own.rejects x = true ↔ ∃ a, own.windows.active.view x.key = some a ∧ a.measure ≠ s.layout.measure := by
  have hmerge := Window.merge_fit (w := own.windows.active.enter) (fun a => h.balanced.waiting x.key a) (hm x.key) hx hf
  have hrejects : own.rejects x = match (own.windows.active.enter.merge x).1 with
    | .ok (.error _) => true
    | _ => false := rfl
  rw [hrejects]
  rcases hmerge with ⟨hblocked, e, he⟩ | ⟨hfree, w', hok, -⟩
  · rw [he]
    exact iff_of_true rfl hblocked
  · rw [hok]
    refine iff_of_false Bool.false_ne_true ?_
    rintro ⟨a, ha, hne⟩
    exact hne (hfree a ha)

/-- Merging asks and reports, and leaves the stages below alone. -/
theorem merge_aside (s : Stage) (x : Indicator) (c : Scene σ) :
    (s.merge x c).2.below = c.below ∧ Asked c.backend (s.merge x c).2.backend := by
  unfold merge
  rcases c.own.windows.merge x with ⟨fault | e | _, p⟩
  · exact ⟨rfl, .refl _⟩
  · exact ⟨rfl, asked_record c.backend fun _ => rfl⟩
  · exact ⟨rfl, .refl _⟩

/-- Only the active window changes when an update is merged. -/
theorem merge_windows (s : Stage) (x : Indicator) (c : Scene σ) :
    (s.merge x c).2.own.windows =
      { c.own.windows with active := (c.own.windows.active.enter.merge x).2.leave } := by
  have hmerge : (c.own.windows.merge x).2 =
    { c.own.windows with active := (c.own.windows.active.enter.merge x).2.leave } := rfl
  unfold merge
  rcases hresult : c.own.windows.merge x with ⟨fault | e | _, p⟩ <;> rw [hresult] at hmerge <;> exact hmerge

/-- An update is taken into the account if it is of the stage's measure and not rejected. -/
theorem Sifting.merge {c : Scene σ} (h : Sifting s φ H W c.own c.backend) (hm : ∀ k, (φ k).1 = s.layout.measure)
    (hx : x.measure = s.layout.measure → x.value.Proper ∧ x.value.form = φ x.key) :
    Sifting s φ (H ++ if x.measure = s.layout.measure ∧ c.own.rejects x = false then [x] else []) W
      (s.merge x c).2.own (s.merge x c).2.backend := by
  have hwindows := merge_windows s x c
  suffices hbalanced : Balanced φ (Store.overlay (fun _ => none) W)
      ((c.own.windows.active.enter.merge x).2.fitView s.layout.measure)
      (H ++ if x.measure = s.layout.measure ∧ c.own.rejects x = false then [x] else []) by
    have hasked := h.asked (merge_aside s x c).2
    refine ⟨hwindows ▸ ⟨h.idle.claims, h.idle.free, h.idle.empty⟩, hasked.faultless, hasked.shows, hasked.wrote,
      h.fits, ?_⟩
    rw [hwindows]
    exact hbalanced
  by_cases hfit : x.measure = s.layout.measure
  · obtain ⟨hproper, hform⟩ := hx hfit
    have hrejects := h.rejects_iff hm hproper hform
    rcases Window.merge_fit (w := c.own.windows.active.enter) (fun a => h.balanced.waiting x.key a) (hm x.key) hproper hform
      with ⟨hblocked, e, he⟩ | ⟨hfree, w', hok, hview⟩
    · rw [if_neg (by rw [hrejects.2 hblocked]; simp), List.append_nil, he]
      exact h.balanced
    · have hno : c.own.rejects x = false := by
        rw [← Bool.not_eq_true, hrejects]
        rintro ⟨a, ha, hne⟩
        exact hne (hfree a ha)
      rw [if_pos ⟨hfit, hno⟩, hok, hview]
      exact h.balanced.merge hproper hform
  · rw [if_neg (fun hno => hfit hno.1), List.append_nil, Window.fitView_merge_of_ne c.own.windows.active.enter hfit]
    exact h.balanced

/-- The update is one that the stage takes: it is of the stage's measure, and not refused. -/
def takes (s : Stage) (own : State) (x : Indicator) : Bool := x.measure = s.layout.measure && !s.refuses own x

variable {outlet : Option (Outlet σ)} {A : Indicator → Prop} {J : List Indicator → σ → Backend → Prop}
  {G : Backend → Prop}

/-- An update is taken into the account if it is of the stage's measure and not refused, after a flush if the
window is full. -/
theorem submit_sifts (ho : Outlet.Serves outlet s.layout A J G) (hm : ∀ k, (φ k).1 = s.layout.measure)
    {below : σ} (h : Sifting s φ H W own b)
    (hx : x.measure = s.layout.measure → x.value.Proper ∧ x.value.form = φ x.key)
    (hA : ∀ y, Total φ H y → ∀ z ∈ handed outlet [y], A z) (hJ : J (handed outlet W) below b)
    (above : List Layout) (hG : G (s.submit outlet above x ⟨own, below, b⟩).2.backend) :
    ∃ r d ys, s.submit outlet above x ⟨own, below, b⟩ = (r, d) ∧ (∀ y ∈ ys, Total φ H y) ∧
      J (handed outlet (W ++ ys)) d.below d.backend ∧
      ((∀ y ∈ ys, y.Fits) → Sifting s φ (H ++ if s.takes own x then [x] else []) (W ++ ys) d.own d.backend) := by
  by_cases hfull : s.threshold ≤ own.windows.active.size
  · obtain ⟨c, ys, hflush, -, hview, htotal, hJ', -, hsift⟩ := flush_sifts ho hm h hA hJ above (flush_back ho hfull hG)
    have hsubmit : s.submit outlet above x ⟨own, below, b⟩ = s.merge x c := by
      unfold submit
      rw [if_pos hfull, hflush]
    obtain ⟨hbelow, hasked⟩ := merge_aside s x c
    rw [hsubmit]
    refine ⟨(s.merge x c).1, (s.merge x c).2, ys, rfl, htotal, ?_, fun hfits => ?_⟩
    · rw [hbelow]
      exact ho.aside hasked.extends hJ'
    · -- nothing is in the way of the update after the flush
      have hmerged := (hsift hfits).merge hm hx
      have htakes : s.takes own x = true ↔ x.measure = s.layout.measure ∧ c.own.rejects x = false := by
        have hnot : s.refuses own x = false := by
          unfold refuses
          rw [decide_eq_false (Nat.not_lt.2 hfull), Bool.false_and]
        unfold takes
        rw [hnot, Bool.not_false, Bool.and_true, decide_eq_true_eq]
        refine ⟨fun hfit => ⟨hfit, ?_⟩, fun hboth => hboth.1⟩
        rw [← Bool.not_eq_true, (hsift hfits).rejects_iff hm (hx hfit).1 (hx hfit).2, hview]
        rintro ⟨a, ha, -⟩
        cases ha
      simp only [htakes]
      exact hmerged
  · have hsubmit : s.submit outlet above x ⟨own, below, b⟩ = s.merge x ⟨own, below, b⟩ := by
      unfold submit
      rw [if_neg hfull]
    obtain ⟨hbelow, hasked⟩ := merge_aside s x ⟨own, below, b⟩
    rw [hsubmit]
    refine ⟨(s.merge x ⟨own, below, b⟩).1, (s.merge x ⟨own, below, b⟩).2, [], rfl,
      fun _ hy => (List.not_mem_nil hy).elim, ?_, fun _ => ?_⟩
    · rw [List.append_nil, hbelow]
      exact ho.aside hasked.extends hJ
    · have hmerged := Sifting.merge (c := ⟨own, below, b⟩) h hm hx
      have htakes : s.takes own x = true ↔ x.measure = s.layout.measure ∧ own.rejects x = false := by
        unfold takes refuses
        rw [decide_eq_true (Nat.lt_of_not_le hfull), Bool.true_and, Bool.and_eq_true, decide_eq_true_eq,
          Bool.not_eq_true']
      simp only [htakes, List.append_nil]
      exact hmerged

/-! ## The first stage of a line -/

theorem Sifted.submit {rest : List Stage} {states : States (s :: rest)} (h : Sifted s rest φ H W states b)
    (hown : ¬ Tables rest s.layout.table) (hm : ∀ k, (φ k).1 = s.layout.measure)
    (hx : x.measure = s.layout.measure → x.value.Proper ∧ x.value.form = φ x.key) :
    ∃ r states' b' ys, submitIn (s :: rest) [] 0 x states b = (r, states', b') ∧ (∀ y ∈ ys, Total φ H y) ∧
      ((∀ y ∈ ys, y.Fits) →
        Sifted s rest φ (H ++ if s.takes states.1 x then [x] else []) (W ++ ys) states' b') := by
  obtain ⟨r, d, ys, hsubmit, htotal, hJ, hsift⟩ := submit_sifts (downstream_serves hown []) hm h.sifting hx
    (fun y hy z hz => handed_sane hy.1.proper hz) ⟨h.below, h.store⟩ [] trivial
  rw [submitIn_head, hsubmit]
  exact ⟨r, (d.own, d.below), d.backend, ys, rfl, htotal, fun hfits => ⟨hsift hfits, hJ.1, hJ.2⟩⟩

/-- Legible tables with the same rows show the same. -/
theorem Legible.eq_of_rows {v v' : View} {b' : Backend} (h : Legible s φ v b) (h' : Legible s φ v' b')
    (hrows : ∀ id, b.store.row? s.layout.table id = b'.store.row? s.layout.table id) : v = v' := by
  funext k
  have hread {v : View} {b : Backend} (h : Legible s φ v b) :
      (b.store.row? s.layout.table k.text).bind (·.indicator?) = (v k).map (Indicator.mk k) := by
    cases hv : v k with
    | none => rw [h.shows.row_none hv]; rfl
    | some a =>
      rw [h.shows.row_some hv, Option.bind_some]
      exact Row.indicator?_ofIndicator.2 ⟨h.fits k a hv, rfl⟩
  have heq := (hread h).symm.trans ((congrArg (·.bind (·.indicator?)) (hrows k.text)).trans (hread h'))
  exact Option.map_injective (fun _ _ hmk => (Indicator.mk.inj hmk).2) heq

end Stage

/-! ## Runs -/

/-- The first stage of a line refuses an update. -/
def Line.refuses (l : Line) (x : Indicator) : Bool :=
  match l with
  | ⟨[], _⟩ => false
  | ⟨s :: _, states⟩ => s.refuses states.1 x

namespace Call

/-- The call is no update of another measure. -/
def fits (m : Measure) : Call → Bool
  | submit x => x.measure = m
  | flush => true
  | flushAll => true

theorem submitted_fits (m : Measure) :
    ∀ calls : List Call, submitted (calls.filter (fits m)) = (submitted calls).filter fun x => x.measure = m
  | [] => rfl
  | submit x :: rest => by
    by_cases hx : x.measure = m
    · rw [List.filter_cons_of_pos (by simpa [fits] using hx), submitted, submitted, submitted_fits m rest,
        List.filter_cons_of_pos (by simpa using hx)]
    · rw [List.filter_cons_of_neg (by simpa [fits] using hx), submitted, submitted_fits m rest,
        List.filter_cons_of_neg (by simpa using hx)]
  | flush :: rest => submitted_fits m rest
  | flushAll :: rest => submitted_fits m rest

/-- The updates among some calls that pass a test of the line as it is when they are submitted. -/
def passing (p : Line → Indicator → Bool) : Line × Backend → List Call → List Indicator
  | _, [] => []
  | c, submit x :: rest => (if p c.1 x then [x] else []) ++ passing p (perform c (submit x)) rest
  | c, flush :: rest => passing p (perform c flush) rest
  | c, flushAll :: rest => passing p (perform c flushAll) rest

theorem passing_append (p : Line → Indicator → Bool) (more : List Call) :
    ∀ (calls : List Call) (c : Line × Backend),
      passing p c (calls ++ more) = passing p c calls ++ passing p (calls.foldl perform c) more
  | [], _ => rfl
  | submit x :: rest, c => by
    rw [List.cons_append, passing, passing, passing_append p more rest, List.append_assoc]
    rfl
  | flush :: rest, c => passing_append p more rest (perform c flush)
  | flushAll :: rest, c => passing_append p more rest (perform c flushAll)

/-- The updates of a measure are those that pass a test besides, and those that do not. -/
theorem passing_perm (p : Line → Indicator → Bool) (m : Measure) :
    ∀ (calls : List Call) (c : Line × Backend),
      (passing (fun l x => x.measure = m && !p l x) c calls ++ passing (fun l x => x.measure = m && p l x) c calls).Perm
        ((submitted calls).filter fun x => x.measure = m)
  | [], _ => .refl _
  | submit x :: rest, c => by
    have ih := passing_perm p m rest (perform c (submit x))
    rw [passing, passing, submitted]
    by_cases hx : x.measure = m
    · rw [List.filter_cons_of_pos (by simpa using hx)]
      cases hp : p c.1 x with
      | true => simpa [hx, hp] using (List.perm_middle.trans (ih.cons x))
      | false => simpa [hx, hp] using ih.cons x
    · rw [List.filter_cons_of_neg (by simpa using hx)]
      simpa [hx] using ih
  | flush :: rest, c => passing_perm p m rest (perform c flush)
  | flushAll :: rest, c => passing_perm p m rest (perform c flushAll)

/-- What passes a test was submitted, in the same order. -/
theorem passing_sublist {p : Line → Indicator → Bool} {m : Measure} (hp : ∀ l x, p l x = true → x.measure = m) :
    ∀ (calls : List Call) (c : Line × Backend),
      (passing p c calls).Sublist ((submitted calls).filter fun x => x.measure = m)
  | [], _ => .refl _
  | submit x :: rest, c => by
    have ih := passing_sublist hp rest (perform c (submit x))
    rw [passing, submitted]
    cases hpx : p c.1 x with
    | true =>
      rw [List.filter_cons_of_pos (by simpa using hp _ _ hpx)]
      exact ih.cons_cons x
    | false =>
      refine ih.trans ?_
      exact (List.sublist_cons_self x _).filter _
  | flush :: rest, c => passing_sublist hp rest (perform c flush)
  | flushAll :: rest, c => passing_sublist hp rest (perform c flushAll)

/-- The updates of a measure that the first stage of a line takes in a run, and those that it refuses. -/
def taken (m : Measure) (stages : List Stage) (st : Store) (calls : List Call)
    (order : Layout → Nat → DrainOrder := fun _ _ => .insertion) : List Indicator :=
  passing (fun l x => x.measure = m && !l.refuses x) (.ofStages stages, { store := st, order := order }) calls

def refused (m : Measure) (stages : List Stage) (st : Store) (calls : List Call)
    (order : Layout → Nat → DrainOrder := fun _ _ => .insertion) : List Indicator :=
  passing (fun l x => x.measure = m && l.refuses x) (.ofStages stages, { store := st, order := order }) calls

end Call

open Call Stage

/-- A run of a line whose first stage has its table to itself, as a lone run, but with updates of any measure:
nothing is asked of those that are not of the stage's measure. The sums of the others keep within 64 bits,
whichever of them are taken. -/
structure MixedRun (s : Stage) (rest : List Stage) (st : Store) (calls : List Call) : Prop where
  installed : ∃ t, st.tables.get? s.layout.table = some t ∧ t.rows = ∅
  own : ¬ Tables rest s.layout.table
  sane : st.SaneOn (Tables rest)
  observed : ∀ x ∈ submitted calls, x.measure = s.layout.measure → x.Observed
  shapes : ∀ x ∈ submitted calls, ∀ y ∈ submitted calls, x.measure = s.layout.measure → y.measure = s.layout.measure →
    x.key = y.key → x.value.shape = y.value.shape
  bounded : ∀ xs : List Indicator, xs.Sublist ((submitted calls).filter fun x => x.measure = s.layout.measure) →
    ∀ k, (rawSum (under k xs)).InRange

variable {s : Stage} {rest : List Stage} {st : Store} {calls : List Call} {order : Layout → Nat → DrainOrder}

/-- Without misfits, a mixed run is a lone run. -/
theorem MixedRun.loneRun (h : MixedRun s rest st calls) :
    LoneRun s rest st (calls.filter (fits s.layout.measure)) := by
  have hmem {x : Indicator} (hx : x ∈ submitted (calls.filter (fits s.layout.measure))) :
      x ∈ submitted calls ∧ x.measure = s.layout.measure := by
    rw [submitted_fits, List.mem_filter, decide_eq_true_eq] at hx
    exact hx
  refine ⟨h.installed, h.own, h.sane, fun x hx => ⟨h.observed x (hmem hx).1 (hmem hx).2, (hmem hx).2⟩,
    fun x hx y hy => h.shapes x (hmem hx).1 y (hmem hy).1 (hmem hx).2 (hmem hy).2, ?_⟩
  rintro pre ⟨more, hmore⟩ k
  apply h.bounded
  rw [← submitted_fits, ← hmore, submitted_append]
  exact List.sublist_append_left _ _

theorem taken_sublist (m : Measure) (stages : List Stage) (st : Store) (order : Layout → Nat → DrainOrder)
    {pre : List Call} (hpre : pre <+: calls) :
    (taken m stages st pre order).Sublist ((submitted calls).filter fun x => x.measure = m) := by
  refine (passing_sublist (m := m) (fun l x hx => ?_) pre _).trans ?_
  · rw [Bool.and_eq_true, decide_eq_true_eq] at hx
    exact hx.1
  · obtain ⟨more, rfl⟩ := hpre
    rw [submitted_append]
    exact (List.sublist_append_left _ _).filter _

/-- What is written is a total of what was taken so far, which keeps within 64 bits. -/
theorem MixedRun.total_fits (h : MixedRun s rest st calls) {φ : Key → Form} {pre : List Call} (hpre : pre <+: calls)
    {y : Indicator} (hy : Total φ (taken s.layout.measure (s :: rest) st pre order) y) : y.Fits := by
  have htaken := taken_sublist s.layout.measure (s :: rest) st order hpre
  refine hy.fits (h.bounded _ htaken y.key) fun x hx => ?_
  obtain ⟨hx, hfit⟩ := List.mem_filter.1 (htaken.subset hx)
  exact (h.observed x hx (of_decide_eq_true hfit)).bucket

/-- After every call the first stage has kept account of all updates that it has taken. -/
theorem MixedRun.sifted (h : MixedRun s rest st calls) {φ : Key → Form} (hm : ∀ k, (φ k).1 = s.layout.measure)
    (hφ : ∀ x ∈ submitted calls, x.measure = s.layout.measure → x.value.form = φ x.key) :
    ∀ pre, pre <+: calls → ∃ (states : States (s :: rest)) (b : Backend) (W : List Indicator),
      run (s :: rest) st pre order = (⟨s :: rest, states⟩, b) ∧
        Sifted s rest φ (taken s.layout.measure (s :: rest) st pre order) W states b := by
  intro pre
  induction pre using List.reverseRecOn with
  | nil =>
    intro _
    obtain ⟨t, ht, hrows⟩ := h.installed
    have hlone : Lone s rest φ [] [] (.initial (s :: rest)) { store := st, order := order } :=
      ⟨keeping_initial ht hrows, States.sane_initial rest, h.sane⟩
    exact ⟨.initial (s :: rest), { store := st, order := order }, [], rfl, hlone.sifted hm⟩
  | append_singleton pre call ih =>
    intro hpre
    have hprefix : pre <+: calls := (List.prefix_append pre [call]).trans hpre
    obtain ⟨states, b, W, hrun, hsifted⟩ := ih hprefix
    have htaken : taken s.layout.measure (s :: rest) st (pre ++ [call]) order =
        taken s.layout.measure (s :: rest) st pre order ++
          passing (fun l x => x.measure = s.layout.measure && !l.refuses x) (⟨s :: rest, states⟩, b) [call] := by
      rw [← hrun]
      exact passing_append _ [call] pre _
    rw [run_append, hrun, htaken]
    cases call with
    | submit x =>
      have hx : x ∈ submitted calls := mem_submitted_mono hpre (by simp [submitted_append, submitted])
      obtain ⟨r, states', b', ys, hsubmit, htotal, hsifted'⟩ :=
        hsifted.submit (x := x) h.own hm fun hfit => ⟨(h.observed x hx hfit).proper, hφ x hx hfit⟩
      refine ⟨states', b', W ++ ys, ?_, ?_⟩
      · simp only [perform, Line.submit, Line.submitAt, hsubmit]
      · rw [passing, passing, List.append_nil]
        exact hsifted' fun y hy => h.total_fits hprefix (htotal y hy)
    | flush =>
      obtain ⟨d, ys, hflush, -, htotal, hsifted'⟩ := hsifted.flush h.own hm
      have hsifted' := hsifted' fun y hy => h.total_fits hprefix (htotal y hy)
      refine ⟨(d.own, d.below), d.backend, W ++ ys, ?_, by simpa [passing] using hsifted'⟩
      simp only [perform, Line.flushAt, flushIn_head, hflush]
    | flushAll =>
      obtain ⟨r, states', b', ys, hall, -, htotal, hsifted'⟩ := hsifted.flushAll h.own hm
      have hsifted' := hsifted' fun y hy => h.total_fits hprefix (htotal y hy)
      refine ⟨states', b', W ++ ys, ?_, by simpa [passing] using hsifted'⟩
      simp only [perform, Line.flush, hall]

/-- What a last flush leaves in the table is the combination of everything taken under each key. -/
theorem MixedRun.flushed (h : MixedRun s rest st calls) {φ : Key → Form} (hm : ∀ k, (φ k).1 = s.layout.measure)
    (hφ : ∀ x ∈ submitted calls, x.measure = s.layout.measure → x.value.form = φ x.key) :
    ∃ v, Legible s φ v (run (s :: rest) st (calls ++ [.flush]) order).2 ∧
      Balanced φ v (fun _ => none) (taken s.layout.measure (s :: rest) st calls order) := by
  obtain ⟨states, b, W, hrun, hsifted⟩ := h.sifted hm hφ calls (List.prefix_refl _)
  obtain ⟨d, ys, hflush, hview, htotal, hsifted'⟩ := hsifted.flush h.own hm
  have hlone := (hsifted' fun y hy => h.total_fits (List.prefix_refl _) (htotal y hy)).lone hview
  have hrun' : run (s :: rest) st (calls ++ [.flush]) order = (⟨s :: rest, (d.own, d.below)⟩, d.backend) := by
    rw [run_append, hrun]
    simp only [perform, Line.flushAt, flushIn_head, hflush]
  rw [hrun']
  exact ⟨_, hlone.keeping.legible, hview ▸ hlone.keeping.balanced⟩

/-! ## The difference that misfits make -/

/-- Lists of which one is the other and some more combine to the same if what is more adds up to nothing. -/
theorem combineAll_more_iff {k : Key} {f : Form} {xs ys zs : List Indicator} (hperm : (xs ++ ys).Perm zs)
    (hzs : ∀ z ∈ zs, z.key = k ∧ z.value.Proper ∧ z.value.form = f) :
    combineAll xs = combineAll zs ↔ rawSum ys = 0 ∧ (xs = [] → ys = []) := by
  have hxs : ∀ x ∈ xs, x.key = k ∧ x.value.Proper ∧ x.value.form = f :=
    fun x hx => hzs x (hperm.subset (List.mem_append_left _ hx))
  have hsum : rawSum zs = rawSum xs + rawSum ys := by rw [← rawSum_perm hperm, rawSum_append]
  by_cases hnil : xs = []
  · subst hnil
    obtain rfl | hne := eq_or_ne ys []
    · obtain rfl : zs = [] := hperm.symm.eq_nil
      simp
    · have hzne : zs ≠ [] := by
        rintro rfl
        exact hne hperm.eq_nil
      obtain ⟨a, ha, -, -⟩ := combineAll_current hzne hzs
      rw [ha]
      refine iff_of_false (fun h => by cases h) fun h => hne (h.2 rfl)
  · have hzne : zs ≠ [] := by
      rintro rfl
      exact hnil (List.append_eq_nil_iff.1 hperm.eq_nil).1
    rw [combineAll_eq_iff (iff_of_false hnil hzne) hxs hzs, hsum]
    simp [hnil]

/-- One form for each key is that of all updates of the measure. -/
theorem MixedRun.exists_forms (h : MixedRun s rest st calls) :
    ∃ φ : Key → Form, (∀ k, (φ k).1 = s.layout.measure) ∧
      ∀ x ∈ submitted calls, x.measure = s.layout.measure → x.value.Proper ∧ x.value.form = φ x.key := by
  have hlone := h.loneRun
  refine ⟨formsOf id s.layout.measure (submitted (calls.filter (fits s.layout.measure))), fun _ => rfl,
    fun x hx hfit => ⟨(h.observed x hx hfit).proper, ?_⟩⟩
  apply form_eq_formsOf (fun x hx => (hlone.observed x hx).2) hlone.shapes
  rw [submitted_fits, List.mem_filter, decide_eq_true_eq]
  exact ⟨hx, hfit⟩

/-- A well-formed update is refused exactly if the window is not full and the entry of its key is a misfit. -/
theorem MixedRun.refuses_iff (h : MixedRun s rest st calls) {pre : List Call} {x : Indicator}
    (hpre : pre ++ [.submit x] <+: calls) (hx : x.measure = s.layout.measure) :
    ∃ (states : States (s :: rest)) (b : Backend), run (s :: rest) st pre order = (⟨s :: rest, states⟩, b) ∧
      (s.refuses states.1 x = true ↔ states.1.windows.active.size < s.threshold ∧
        ∃ a, states.1.windows.active.view x.key = some a ∧ a.measure ≠ s.layout.measure) := by
  obtain ⟨φ, hm, hfit⟩ := h.exists_forms
  obtain ⟨states, b, W, hrun, hsifted⟩ :=
    h.sifted hm (fun x hx hxm => (hfit x hx hxm).2) pre ((List.prefix_append pre _).trans hpre)
  have hmem : x ∈ submitted calls := mem_submitted_mono hpre (by simp [submitted_append, submitted])
  refine ⟨states, b, hrun, ?_⟩
  unfold refuses
  rw [Bool.and_eq_true, decide_eq_true_eq, hsifted.sifting.rejects_iff hm (hfit x hmem hx).1 (hfit x hmem hx).2]

/-- What is taken and what is refused is all that is left of a run without its misfits. -/
theorem taken_refused_perm (s : Stage) (rest : List Stage) (st : Store) (calls : List Call)
    (order : Layout → Nat → DrainOrder) :
    (taken s.layout.measure (s :: rest) st calls order ++ refused s.layout.measure (s :: rest) st calls order).Perm
      (submitted (calls.filter (fits s.layout.measure))) := by
  rw [submitted_fits]
  exact passing_perm Line.refuses s.layout.measure calls (.ofStages (s :: rest), { store := st, order := order })

/-- The table holds, after a last flush, what was taken. -/
theorem MixedRun.stored (h : MixedRun s rest st calls) (k : Key) :
    (run (s :: rest) st (calls ++ [.flush]) order).2.store.get s.layout k =
      .ok (combineAll (under k (taken s.layout.measure (s :: rest) st calls order))) := by
  obtain ⟨φ, hm, hfit⟩ := h.exists_forms
  obtain ⟨v, hlegible, hbalanced⟩ := h.flushed hm fun x hx hxm => (hfit x hx hxm).2
  rw [hlegible.get hm, hbalanced.stored_eq fun x hx => ?_]
  have hmem := (taken_sublist s.layout.measure (s :: rest) st order (List.prefix_refl calls)).subset hx
  rw [List.mem_filter, decide_eq_true_eq] at hmem
  exact hfit x hmem.1 hmem.2

/-- Two runs without and with the misfits end in the same rows if they end in the same combinations. -/
theorem MixedRun.rows_iff (h : MixedRun s rest st calls) (order' : Layout → Nat → DrainOrder) :
    (∀ id, (run (s :: rest) st (calls ++ [.flush]) order).2.store.row? s.layout.table id =
        (run (s :: rest) st (calls.filter (fits s.layout.measure) ++ [.flush]) order').2.store.row? s.layout.table id) ↔
      ∀ k, combineAll (under k (taken s.layout.measure (s :: rest) st calls order)) =
        combineAll (under k (submitted (calls.filter (fits s.layout.measure)))) := by
  have hlone := h.loneRun
  obtain ⟨φ, hm, hfit⟩ := h.exists_forms
  have hfit' : ∀ x ∈ submitted (calls.filter (fits s.layout.measure)), x.value.Proper ∧ x.value.form = φ x.key := by
    intro x hx
    rw [submitted_fits, List.mem_filter, decide_eq_true_eq] at hx
    exact hfit x hx.1 hx.2
  have htaken : ∀ x ∈ taken s.layout.measure (s :: rest) st calls order, x.value.Proper ∧ x.value.form = φ x.key :=
    fun x hx => hfit' x ((taken_refused_perm s rest st calls order).subset (List.mem_append_left _ hx))
  -- the tables of both runs are balanced, each with the updates that it took
  obtain ⟨v, hlegible, hbalanced⟩ := h.flushed hm fun x hx hxm => (hfit x hx hxm).2
  obtain ⟨states', b', W', hrun', -⟩ :=
    @LoneRun.lone s rest st _ order' hlone φ hm (fun x hx => (hfit' x hx).2) _ (List.prefix_refl _)
  obtain ⟨d', v', -, hrunFlushed, -, hlegible', hbalanced'⟩ := hlone.flushed hm (fun x hx => (hfit' x hx).2) hrun'
  have hviews : (∀ id, (run (s :: rest) st (calls ++ [.flush]) order).2.store.row? s.layout.table id =
      d'.backend.store.row? s.layout.table id) ↔ v = v' := by
    refine ⟨hlegible.eq_of_rows hlegible', ?_⟩
    rintro rfl
    exact hlegible.shows.row_congr hlegible'.shows
  rw [hrunFlushed, hviews, funext_iff]
  refine forall_congr' fun k => ?_
  rw [← hbalanced.stored_eq htaken, ← hbalanced'.stored_eq hfit']
  exact (Option.map_injective fun _ _ hmk => (Indicator.mk.inj hmk).2).eq_iff.symm

/-- In a run with updates of any measure, a well-formed update is refused if the window is not full and the
entry of its key is of another measure. The table holds, after a last flush, the well-formed updates that were
not refused. It is what it would be without the misfits exactly if, under each key, those refused add up to
nothing, and are none where none was taken. In either run the windows may be drained in any order. -/
theorem table_without_misfits_iff (h : MixedRun s rest st calls) :
    (∀ pre x, pre ++ [.submit x] <+: calls → x.measure = s.layout.measure →
      ∃ (states : States (s :: rest)) (b : Backend), run (s :: rest) st pre order = (⟨s :: rest, states⟩, b) ∧
        (s.refuses states.1 x = true ↔ states.1.windows.active.size < s.threshold ∧
          ∃ a, states.1.windows.active.view x.key = some a ∧ a.measure ≠ s.layout.measure)) ∧
    (∀ k, (run (s :: rest) st (calls ++ [.flush]) order).2.store.get s.layout k =
      .ok (combineAll (under k (taken s.layout.measure (s :: rest) st calls order)))) ∧
    ∀ order' : Layout → Nat → DrainOrder,
      (∀ id, (run (s :: rest) st (calls ++ [.flush]) order).2.store.row? s.layout.table id =
        (run (s :: rest) st (calls.filter (fits s.layout.measure) ++ [.flush]) order').2.store.row? s.layout.table id) ↔
      ∀ k, rawSum (under k (refused s.layout.measure (s :: rest) st calls order)) = 0 ∧
        (under k (taken s.layout.measure (s :: rest) st calls order) = [] →
          under k (refused s.layout.measure (s :: rest) st calls order) = []) := by
  refine ⟨fun pre x hpre hx => h.refuses_iff hpre hx, h.stored, fun order' => ?_⟩
  rw [h.rows_iff]
  refine forall_congr' fun k => ?_
  have hunder : (under k (taken s.layout.measure (s :: rest) st calls order) ++
      under k (refused s.layout.measure (s :: rest) st calls order)).Perm
        (under k (submitted (calls.filter (fits s.layout.measure)))) := by
    rw [← under_append]
    exact (taken_refused_perm s rest st calls order).filter _
  obtain ⟨φ, -, hfit⟩ := h.exists_forms
  have hkey : ∀ z ∈ under k (submitted (calls.filter (fits s.layout.measure))),
      z.key = k ∧ z.value.Proper ∧ z.value.form = φ k := by
    intro z hz
    obtain ⟨hmem, rfl⟩ := mem_under.1 hz
    rw [submitted_fits, List.mem_filter, decide_eq_true_eq] at hmem
    exact ⟨rfl, hfit z hmem.1 hmem.2⟩
  exact combineAll_more_iff hunder hkey

/-- Calls are counted by the minute, and nothing is handed on. -/
def loneCounts : Stage := ⟨⟨"calls", .count, .minute⟩, 10, none⟩

/-- A share comes before a count of the same minute. -/
def shareFirst : List Call :=
  [.submit (.share "checkout" ⟨202403151427⟩ true), .submit (.count "checkout" ⟨202403151427⟩ 1)]

def countTable : Store := ({} : Store).createTable loneCounts.layout

/-- The share is not written, and neither is the count, which would be without the share. -/
theorem count_refused_after_share :
    taken .count [loneCounts] countTable shareFirst = [] ∧
      refused .count [loneCounts] countTable shareFirst = [.count "checkout" ⟨202403151427⟩ 1] ∧
      (run [loneCounts] countTable (shareFirst ++ [.flush])).2.store.get loneCounts.layout
        ⟨"checkout", ⟨202403151427⟩⟩ = .ok none ∧
      (run [loneCounts] countTable (shareFirst.filter (fits .count) ++ [.flush])).2.store.get loneCounts.layout
        ⟨"checkout", ⟨202403151427⟩⟩ = .ok (some (.count "checkout" ⟨202403151427⟩ 1)) := by
  decide +kernel

theorem mixedRun_shareFirst : MixedRun loneCounts [] countTable shareFirst where
  installed := ⟨_, rfl, rfl⟩
  own := by
    rintro ⟨t, ht, -⟩
    cases ht
  sane := by
    rintro name ⟨t, ht, -⟩
    cases ht
  observed x hx hfit := by
    have hcode : IsInt64 202403151427 := by decide
    simp only [shareFirst, submitted, List.mem_cons, List.not_mem_nil, or_false] at hx
    rcases hx with rfl | rfl
    · cases hfit
    · exact .count hcode (by decide)
  shapes x hx y hy hfitx hfity _ := by
    simp only [shareFirst, submitted, List.mem_cons, List.not_mem_nil, or_false] at hx hy
    obtain rfl | rfl := hx
    · cases hfitx
    · obtain rfl | rfl := hy
      · cases hfity
      · rfl
  bounded xs hxs k := by
    have hzero : IsInt64 0 := by decide
    have hcount {n : Int} (hn : IsInt64 n) : Raw.InRange (n, 0, 0) := ⟨hn, hzero, fun _ => hzero⟩
    have h0 : Raw.InRange 0 := hcount hzero
    have h1 : Raw.InRange (1, 0, 0) := hcount (by decide)
    have hxs : xs.Sublist [.count "checkout" ⟨202403151427⟩ 1] := hxs
    rcases List.sublist_singleton.1 hxs with rfl | rfl
    · exact h0
    · by_cases hk : (⟨"checkout", ⟨202403151427⟩⟩ : Key) = k
      · simpa [under, count, hk, Aggregate.raw]
      · simpa [under, count, hk]

/-- With the share the table is not what it would be without it, since the count that was refused is not zero. -/
theorem table_without_misfits_iff_shareFirst :
    ¬ ∀ id, (run [loneCounts] countTable (shareFirst ++ [.flush])).2.store.row? loneCounts.layout.table id =
      (run [loneCounts] countTable (shareFirst.filter (fits .count) ++ [.flush])).2.store.row?
        loneCounts.layout.table id := by
  intro hsame
  have hnothing := ((((table_without_misfits_iff mixedRun_shareFirst).2.2 _).1 hsame) ⟨"checkout", ⟨202403151427⟩⟩).1
  have hone : (rawSum (under ⟨"checkout", ⟨202403151427⟩⟩ (refused .count [loneCounts] countTable shareFirst))).1 = 1 := by
    decide +kernel
  have hzero := congrArg Prod.fst hnothing
  rw [show loneCounts.layout.measure = .count from rfl] at hzero
  rw [hone] at hzero
  cases hzero

end MetricCascade
