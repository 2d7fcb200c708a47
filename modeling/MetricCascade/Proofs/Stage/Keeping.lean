/-
A stage that keeps account: of what it was given, what it has written, and what still waits. The
account is kept by every update and every flush as long as the rows written have the widths of
their columns, and it goes on with the next stage receiving every row that was written.
-/
import MetricCascade.Proofs.Stage.Flush

namespace MetricCascade

open Indicator

namespace Store

/-- Whatever an overlay of nothing holds was laid there. -/
theorem mem_of_overlay {xs : List Indicator} {k : Key} {a : Aggregate}
    (h : overlay (fun _ => none) xs k = some a) : (⟨k, a⟩ : Indicator) ∈ xs := by
  induction xs using List.reverseRecOn with
  | nil => cases h
  | append_singleton xs x ih =>
    rw [overlay_append] at h
    by_cases hk : k = x.key
    · have hself : overlay (overlay (fun _ => none) xs) [x] x.key = some x.value := Function.update_self ..
      subst hk
      rw [hself] at h
      obtain rfl : x.value = a := Option.some.inj h
      exact List.mem_append_right _ (List.mem_singleton.2 rfl)
    · have hother : overlay (overlay (fun _ => none) xs) [x] k = overlay (fun _ => none) xs k :=
        overlay_of_notMem fun y hy => List.mem_singleton.1 hy ▸ Ne.symm hk
      rw [hother] at h
      exact List.mem_append_left _ (ih h)

end Store

namespace Stage

open Backend Store

/-- The journal says that the stage has written `W`. -/
def Wrote (s : Stage) (W : List Indicator) (b : Backend) : Prop :=
  List.Forall₂ (fun op y => ∃ kind, op = .storing kind s.layout y) (b.written s.layout) W

/-- A stage over a gateway that refuses nothing, which has been given `H` and has written `W` since its
table was empty. -/
structure Keeping (s : Stage) (φ : Key → Form) (H W : List Indicator) (own : State) (b : Backend) : Prop where
  idle : own.windows.Idle
  faultless : b.faults = {}
  shows : b.store.Shows s.layout (overlay (fun _ => none) W)
  wrote : s.Wrote W b
  fits : ∀ y ∈ W, y.Fits
  balanced : Balanced φ (overlay (fun _ => none) W) own.windows.active.view H

/-- A stage that keeps account of what it has taken of its own measure, while entries of other measures
may wait in its window as well. -/
structure Sifting (s : Stage) (φ : Key → Form) (H W : List Indicator) (own : State) (b : Backend) : Prop where
  idle : own.windows.Idle
  faultless : b.faults = {}
  shows : b.store.Shows s.layout (overlay (fun _ => none) W)
  wrote : s.Wrote W b
  fits : ∀ y ∈ W, y.Fits
  balanced : Balanced φ (overlay (fun _ => none) W) (own.windows.active.fitView s.layout.measure) H

variable {σ : Type} {s : Stage} {φ : Key → Form} {H W : List Indicator} {own : State} {b : Backend}

/-- Work of stages with other tables writes nothing in this stage's name. -/
theorem Wrote.extends {P : Layout → Prop} {b' : Backend} (h : s.Wrote W b) (hb : Extends P b b')
    (hP : ∀ m, P m → m.table ≠ s.layout.table) : s.Wrote W b' := by
  unfold Wrote
  rw [hb.written fun hs => hP _ hs rfl]
  exact h

theorem Keeping.legible (h : Keeping s φ H W own b) : Legible s φ (overlay (fun _ => none) W) b :=
  ⟨h.faultless, h.shows, fun _ _ ha => h.fits _ (mem_of_overlay ha), h.balanced.stored⟩

theorem Sifting.legible (h : Sifting s φ H W own b) : Legible s φ (overlay (fun _ => none) W) b :=
  ⟨h.faultless, h.shows, fun _ _ ha => h.fits _ (mem_of_overlay ha), h.balanced.stored⟩

/-- Where all entries are of the stage's measure, nothing is left out of the account. -/
theorem Sifting.keeping (h : Sifting s φ H W own b)
    (hw : own.windows.active.fitView s.layout.measure = own.windows.active.view) : Keeping s φ H W own b :=
  ⟨h.idle, h.faultless, h.shows, h.wrote, h.fits, hw ▸ h.balanced⟩

theorem Keeping.sifting (h : Keeping s φ H W own b) (hm : ∀ k, (φ k).1 = s.layout.measure) :
    Sifting s φ H W own b := by
  have hw : own.windows.active.fitView s.layout.measure = own.windows.active.view :=
    Window.fitView_eq fun k a ha => (measure_eq (h.balanced.waiting k a ha)).trans (hm k)
  exact ⟨h.idle, h.faultless, h.shows, h.wrote, h.fits, hw ▸ h.balanced⟩

/-- A stage that has done nothing yet over an empty table keeps account. -/
theorem keeping_initial {st : Store} {order : Layout → Nat → DrainOrder} {t : Table}
    (h : st.tables.get? s.layout.table = some t) (ht : t.rows = ∅) :
    Keeping s φ [] [] {} { store := st, order := order } :=
  ⟨WindowPair.idle_initial, rfl, shows_empty h ht, .nil, fun _ h => (List.not_mem_nil h).elim, .initial φ⟩

/-- Work of stages with other tables makes no difference to the account. -/
theorem Sifting.extends {P : Layout → Prop} {b' : Backend} (h : Sifting s φ H W own b) (hb : Extends P b b')
    (hP : ∀ m, P m → m.table ≠ s.layout.table) : Sifting s φ H W own b' where
  idle := h.idle
  faultless := hb.faults.trans h.faultless
  shows := hb.shows hP h.shows
  wrote := h.wrote.extends hb hP
  fits := h.fits
  balanced := h.balanced

theorem Keeping.extends {P : Layout → Prop} {b' : Backend} (h : Keeping s φ H W own b) (hb : Extends P b b')
    (hP : ∀ m, P m → m.table ≠ s.layout.table) : Keeping s φ H W own b' where
  idle := h.idle
  faultless := hb.faults.trans h.faultless
  shows := hb.shows hP h.shows
  wrote := h.wrote.extends hb hP
  fits := h.fits
  balanced := h.balanced

/-- An indicator as a flush writes it: everything that was given under its key. -/
def Total (φ : Key → Form) (H : List Indicator) (y : Indicator) : Prop :=
  y.value.Current (φ y.key) ∧ y.value.raw = rawSum (under y.key H) ∧ under y.key H ≠ []

/-- The settled entries of a stage that keeps account hold everything that was given under their keys. -/
theorem Sifting.total (h : Sifting s φ H W own b) {order : DrainOrder} {y : Indicator}
    (hy : y ∈ (own.windows.active.fitting order s.layout.measure).map (settle (overlay (fun _ => none) W))) :
    Total φ H y := by
  obtain ⟨x, hx, rfl⟩ := List.mem_map.1 hy
  have hw := ((own.windows.active.lists_fitting order s.layout.measure).2 x).1 hx
  obtain ⟨hcur, hraw⟩ := settle_current h.balanced.stored (h.balanced.waiting _ _ hw)
  unfold Total
  rw [settle_key]
  refine ⟨hcur, ?_, fun hnone => ?_⟩
  · rw [hraw, ← h.balanced.content, hw, weight_some, add_comm]
  · rw [((h.balanced.present x.key).2 hnone).2] at hw
    cases hw

variable {outlet : Option (Outlet σ)} {A : Indicator → Prop} {J : List Indicator → σ → Backend → Prop}
  {G : Backend → Prop}

/-- A flush of a stage that keeps account writes totals, leaves nothing waiting, and keeps the account.
Entries of other measures are dropped. -/
theorem flush_sifts (ho : Outlet.Serves outlet s.layout A J G) (hm : ∀ k, (φ k).1 = s.layout.measure)
    {below : σ} (h : Sifting s φ H W own b)
    (hA : ∀ y, Total φ H y → ∀ z ∈ handed outlet [y], A z) (hJ : J (handed outlet W) below b)
    (above : List Layout) (hG : G (s.flush outlet above ⟨own, below, b⟩).2.backend) :
    ∃ d ys, s.flush outlet above ⟨own, below, b⟩ = (.ok (.ok true), d) ∧ d.own.windows.Idle ∧
      d.own.windows.active.view = (fun _ => none) ∧ (∀ y ∈ ys, Total φ H y) ∧
      J (handed outlet (W ++ ys)) d.below d.backend ∧ s.Wrote (W ++ ys) d.backend ∧
      ((∀ y ∈ ys, y.Fits) → Sifting s φ H (W ++ ys) d.own d.backend) := by
  have htotal := fun y => @Sifting.total s φ H W own b h (Scene.order ⟨own, below, b⟩ s.layout) y
  have hlists := own.windows.active.lists_fitting (Scene.order ⟨own, below, b⟩ s.layout) s.layout.measure
  generalize hfit : own.windows.active.fitting (Scene.order ⟨own, below, b⟩ s.layout) s.layout.measure = xs
    at htotal hlists
  obtain ⟨d, hd, hidle, hview, hshows, hwritten, hJ'⟩ := flush_settles ho hm (c := ⟨own, below, b⟩) h.idle h.legible
    hfit.symm (fun x hx => h.balanced.waiting _ _ ((hlists.2 x).1 hx))
    (fun x hx => hA _ (htotal _ (List.mem_map_of_mem hx))) hJ above hG
  have hfaults := (flush_extends (P := fun _ => True) (s := s) trivial
    (fun next hnext x below b => (ho.within next hnext x below b).mono fun _ _ => trivial) above ⟨own, below, b⟩).faults
  rw [hd] at hfaults
  have hwrote : s.Wrote (W ++ xs.map (settle (overlay (fun _ => none) W))) d.backend := by
    unfold Wrote
    rw [hwritten]
    exact List.rel_append h.wrote (List.forall₂_map_left_iff.2 (List.forall₂_same.2 fun y _ => ⟨_, rfl⟩))
  refine ⟨d, xs.map (settle (overlay (fun _ => none) W)), hd, hidle, hview, htotal,
    by rw [handed_append]; exact hJ', hwrote, ?_⟩
  intro hfits
  -- what was written last lies on top: the settled entries take the place of their rows
  have hoverlay : overlay (fun _ => none) (W ++ xs.map (settle (overlay (fun _ => none) W))) =
      settled (overlay (fun _ => none) W) (own.windows.active.fitView s.layout.measure) := by
    rw [overlay_append, overlay_settle _ hlists]
  have hnone : d.own.windows.active.fitView s.layout.measure = fun _ => none := by
    unfold Window.fitView
    rw [hview]
    rfl
  refine ⟨hidle, hfaults.trans h.faultless, hoverlay ▸ hshows, hwrote, fun y hy => ?_, ?_⟩
  · exact (List.mem_append.1 hy).elim (h.fits y) (hfits y)
  · rw [hoverlay, hnone]
    exact h.balanced.settle

theorem flush_keeps (ho : Outlet.Serves outlet s.layout A J G) (hm : ∀ k, (φ k).1 = s.layout.measure)
    {below : σ} (h : Keeping s φ H W own b)
    (hA : ∀ y, Total φ H y → ∀ z ∈ handed outlet [y], A z) (hJ : J (handed outlet W) below b)
    (above : List Layout) (hG : G (s.flush outlet above ⟨own, below, b⟩).2.backend) :
    ∃ d ys, s.flush outlet above ⟨own, below, b⟩ = (.ok (.ok true), d) ∧ d.own.windows.Idle ∧
      d.own.windows.active.view = (fun _ => none) ∧ (∀ y ∈ ys, Total φ H y) ∧
      J (handed outlet (W ++ ys)) d.below d.backend ∧ s.Wrote (W ++ ys) d.backend ∧
      ((∀ y ∈ ys, y.Fits) → Keeping s φ H (W ++ ys) d.own d.backend) := by
  obtain ⟨d, ys, hd, hidle, hview, htotal, hJ', hwrote, hsift⟩ := flush_sifts ho hm (h.sifting hm) hA hJ above hG
  refine ⟨d, ys, hd, hidle, hview, htotal, hJ', hwrote, fun hfits => (hsift hfits).keeping ?_⟩
  apply Window.fitView_eq
  intro k a ha
  rw [hview] at ha
  cases ha

/-- What holds of all that a submission does holds of the flush that comes first. -/
theorem flush_back (ho : Outlet.Serves outlet s.layout A J G) {above : List Layout} {x : Indicator} {c : Scene σ}
    (hfull : s.threshold ≤ c.own.windows.active.size) (hG : G (s.submit outlet above x c).2.backend) :
    G (s.flush outlet above c).2.backend := by
  unfold submit at hG
  rw [if_pos hfull] at hG
  rcases hflush : s.flush outlet above c with ⟨fault | e | _, d⟩ <;> rw [hflush] at hG
  · exact hG
  · exact ho.back ((asked_record d.backend fun _ => rfl).extends (P := fun _ => False))
      (ho.back (merge_extends (P := fun _ => False) x (d.record (.flushFailed e))) hG)
  · exact ho.back (merge_extends (P := fun _ => False) x d) hG

/-- An update of the right form is merged by a stage that is idle. -/
theorem merge_keeps {x : Indicator} {c : Scene σ} (hidle : c.own.windows.Idle)
    (hw : ∀ k a, c.own.windows.active.view k = some a → a.Current (φ k)) (hx : x.value.Proper)
    (hf : x.value.form = φ x.key) :
    ∃ d, s.merge x c = (.ok (), d) ∧ d.below = c.below ∧ d.backend = c.backend ∧ d.own.windows.Idle ∧
      d.own.windows.active.view = mergeInto c.own.windows.active.view x := by
  obtain ⟨p, hmerge, hidle', hview⟩ := WindowPair.merge_ok hidle (hw x.key) hx hf
  unfold merge
  rw [hmerge]
  exact ⟨_, rfl, rfl, rfl, hidle', hview⟩

theorem Keeping.merge {x : Indicator} {own' : State} (h : Keeping s φ H W own b) (hidle : own'.windows.Idle)
    (hview : own'.windows.active.view = mergeInto own.windows.active.view x) (hx : x.value.Proper)
    (hf : x.value.form = φ x.key) : Keeping s φ (H ++ [x]) W own' b :=
  ⟨hidle, h.faultless, h.shows, h.wrote, h.fits, hview ▸ h.balanced.merge hx hf⟩

/-- An update is taken into the account, after a flush if the window is full. -/
theorem submit_keeps (ho : Outlet.Serves outlet s.layout A J G) (hm : ∀ k, (φ k).1 = s.layout.measure)
    {below : σ} {x : Indicator} (h : Keeping s φ H W own b) (hx : x.value.Proper) (hf : x.value.form = φ x.key)
    (hA : ∀ y, Total φ H y → ∀ z ∈ handed outlet [y], A z) (hJ : J (handed outlet W) below b)
    (above : List Layout) (hG : G (s.submit outlet above x ⟨own, below, b⟩).2.backend) :
    ∃ d ys, s.submit outlet above x ⟨own, below, b⟩ = (.ok (), d) ∧ (∀ y ∈ ys, Total φ H y) ∧
      J (handed outlet (W ++ ys)) d.below d.backend ∧ s.Wrote (W ++ ys) d.backend ∧
      ((∀ y ∈ ys, y.Fits) → Keeping s φ (H ++ [x]) (W ++ ys) d.own d.backend) := by
  have hback := fun hfull => flush_back ho (c := ⟨own, below, b⟩) hfull hG
  unfold submit
  split
  · rename_i hfull
    obtain ⟨c, ys, hflush, hidle, hview, htotal, hJ', hwrote, hkeep⟩ := flush_keeps ho hm h hA hJ above (hback hfull)
    rw [hflush]
    have hnone : ∀ k a, c.own.windows.active.view k = some a → a.Current (φ k) := by
      intro k a ha
      rw [hview] at ha
      cases ha
    obtain ⟨d, hmerge, hbelow, hbackend, hidle', hview'⟩ := merge_keeps (s := s) hidle hnone hx hf
    refine ⟨d, ys, hmerge, htotal, by rw [hbelow, hbackend]; exact hJ', hbackend ▸ hwrote, ?_⟩
    intro hfits
    rw [hbackend]
    exact (hkeep hfits).merge hidle' hview' hx hf
  · obtain ⟨d, hmerge, hbelow, hbackend, hidle', hview'⟩ := merge_keeps (s := s) (c := ⟨own, below, b⟩) h.idle
      h.balanced.waiting hx hf
    refine ⟨d, [], hmerge, fun y hy => (List.not_mem_nil hy).elim, ?_, ?_, fun _ => ?_⟩
    · rw [List.append_nil, hbelow, hbackend]
      exact hJ
    · rw [List.append_nil, hbackend]
      exact h.wrote
    · rw [List.append_nil, hbackend]
      exact h.merge hidle' hview' hx hf

end Stage

end MetricCascade
