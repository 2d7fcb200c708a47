/-
Stages that feed one another. Each keeps account of all that the one above it has written, rolled up
to its own level, and the account is kept by every update and every flush as long as what is written
can be read back.
-/
import MetricCascade.Proofs.Stage.Keeping

namespace MetricCascade

open Indicator

namespace Stage

open Backend Store

/-! ## Rows that can be read back -/

/-- Every row that some stages have written can be read back: no number in it has left its width. -/
def Readable (stages : List Stage) (b : Backend) : Prop :=
  ∀ s ∈ stages, ∀ op ∈ b.written s.layout, op.row.indicator?.isSome = true

variable {s : Stage} {rest stages : List Stage} {b b' : Backend}

theorem Readable.back {P : Layout → Prop} (hb : Extends P b b') (h : Readable stages b') : Readable stages b :=
  fun s hs op hop => h s hs op ((hb.written_prefix s.layout).subset hop)

theorem Readable.tail (h : Readable (s :: rest) b) : Readable rest b :=
  fun t ht => h t (List.mem_cons_of_mem _ ht)

/-- What was written and can be read back has numbers of their widths. -/
theorem Readable.fits {W : List Indicator} (h : Readable (s :: rest) b) (hW : s.Wrote W b) : ∀ y ∈ W, y.Fits := by
  intro y hy
  obtain ⟨i, hi⟩ := List.get_of_mem hy
  obtain ⟨hlength, hops⟩ := List.forall₂_iff_get.1 hW
  have hlt : i.val < (b.written s.layout).length := by
    rw [hlength]
    exact i.2
  obtain ⟨kind, hop⟩ := hops i hlt i.2
  have hread := h s (List.mem_cons_self ..) _ (List.get_mem _ ⟨i, hlt⟩)
  rw [hop] at hread
  obtain rfl : W.get i = y := hi
  obtain ⟨x, hx⟩ := Option.isSome_iff_exists.1 hread
  exact (Row.indicator?_ofIndicator.1 hx).1

/-! ## Chains -/

/-- Stages of one measure, of which each feeds at most the next and has a table of its own. -/
def Chain (m : Measure) : List Stage → Prop
  | [] => True
  | s :: rest => s.layout.measure = m ∧ (∀ j, s.next = some j → j = 0) ∧
      (∀ t ∈ rest, t.layout.table ≠ s.layout.table) ∧ Chain m rest

/-- An observation, or several taken together, in the form of its key. -/
def Suits (φ : Key → Form) (x : Indicator) : Prop := x.value.Proper ∧ x.value.form = φ x.key

/-- Rolling up does not change forms. -/
def Coherent (φ : Key → Form) : Prop := ∀ (y z : Indicator) (l : Level), y.rollup l = .ok z → φ z.key = φ y.key

/-- Every stage keeps account, the first of `H` and each other of what the one above it has written. -/
def Chained (φ : Key → Form) : (stages : List Stage) → List Indicator → States stages → Backend → Prop
  | [], _, _, _ => True
  | s :: rest, H, states, b => (∀ x ∈ H, Suits φ x) ∧ ∃ W, Keeping s φ H W states.1 b ∧
      Chained φ rest (handed (s.downstream rest []) W) states.2 b

/-- Nothing waits in any window. -/
def States.Quiet : {stages : List Stage} → States stages → Prop
  | [], () => True
  | _ :: _, (own, below) => own.windows.active.view = (fun _ => none) ∧ below.Quiet

variable {m : Measure} {φ : Key → Form} {H : List Indicator}

/-- What is handed on does not depend on the flushes that led here. -/
theorem handed_downstream (above : List Layout) (ys : List Indicator) :
    handed (s.downstream rest above) ys = handed (s.downstream rest []) ys := by
  unfold downstream outlet handed
  cases s.next with
  | none => rfl
  | some j =>
    rw [Option.bind_some, Option.bind_some]
    cases rest[j]? <;> rfl

/-- Totals suit the next stage. -/
theorem Total.handed_suits {σ : Type} {outlet : Option (Outlet σ)} {y z : Indicator} (hφ : Coherent φ)
    (hy : Total φ H y) (hz : z ∈ handed outlet [y]) : Suits φ z := by
  obtain ⟨next, -, y', hy', hroll⟩ := mem_handed.1 hz
  obtain rfl := List.mem_singleton.1 hy'
  unfold Suits
  rw [(rollup_eq_ok_iff.1 hroll).2.2, hφ _ _ _ hroll]
  exact ⟨hy.1.proper, hy.1.form⟩

/-- Work of stages with other tables makes no difference to a chain. -/
theorem Chained.extends {P : Layout → Prop} (hb : Extends P b b') :
    ∀ {stages : List Stage} {H : List Indicator} {states : States stages}, Chained φ stages H states b →
      (∀ l, P l → ∀ t ∈ stages, l.table ≠ t.layout.table) → Chained φ stages H states b'
  | [], _, _, _, _ => trivial
  | s :: _, _, _, ⟨hH, W, hkeep, hrest⟩, hP =>
    ⟨hH, W, hkeep.extends hb fun l hl => hP l hl s (List.mem_cons_self ..),
      hrest.extends hb fun l hl t ht => hP l hl t (List.mem_cons_of_mem _ ht)⟩

/-! ## Updates -/

/-- A stage of a chain is served by the stages below it if these take their updates. -/
theorem downstream_chained (hchain : Chain m (s :: rest))
    (htake : ∀ (above : List Layout) (x : Indicator) (F : List Indicator) (below : States rest) (b : Backend),
      Chained φ rest F below b → Suits φ x → Readable rest (submitIn rest above 0 x below b).2.2 →
      ∃ below' b', submitIn rest above 0 x below b = (.ok (), below', b') ∧ Chained φ rest (F ++ [x]) below' b')
    (above : List Layout) :
    Outlet.Serves (s.downstream rest above) s.layout (Suits φ) (Chained φ rest) (Readable rest) where
  within next hnext x below b := by
    refine (downstream_within s rest above next hnext x below b).mono ?_
    rintro l ⟨t, ht, rfl⟩
    have hne := hchain.2.2.1 t ht
    exact ⟨fun heq => hne (by rw [heq]), hne⟩
  takes {next} hnext F x below b hJ hx hG := by
    obtain ⟨j, t, hj, -, rfl⟩ := outlet_eq_some hnext
    obtain rfl := hchain.2.1 j hj
    exact htake _ x F below b hJ hx hG
  aside hb hJ := hJ.extends hb fun l hl t ht heq => hchain.2.2.1 t ht (hl ▸ heq.symm)
  back hb hG := hG.back hb

/-- The chain of a stage that keeps account over a chain. -/
theorem chained_cons {own : State} {below : States rest} {W : List Indicator} {above : List Layout}
    (hH : ∀ x ∈ H, Suits φ x) (hkeep : Keeping s φ H W own b)
    (hrest : Chained φ rest (handed (s.downstream rest above) W) below b) :
    Chained φ (s :: rest) H ((own, below) : States (s :: rest)) b :=
  ⟨hH, W, hkeep, by rw [← handed_downstream above]; exact hrest⟩

/-- An update to the first stage of a chain is taken, and all accounts are kept. -/
theorem submitIn_chained (hφ : Coherent φ) (hm : ∀ k, (φ k).1 = m) :
    ∀ {stages : List Stage}, Chain m stages → ∀ (above : List Layout) (x : Indicator) (H : List Indicator)
      (states : States stages) (b : Backend), Chained φ stages H states b → Suits φ x →
      Readable stages (submitIn stages above 0 x states b).2.2 →
      ∃ states' b', submitIn stages above 0 x states b = (.ok (), states', b') ∧ Chained φ stages (H ++ [x]) states' b'
  | [], _, _, _, _, (), b, _, _, _ => ⟨(), b, rfl, trivial⟩
  | s :: rest, hchain, above, x, H, states, b, ⟨hH, W, hkeep, hrest⟩, hx, hG => by
    -- the rest of the line, taken as one, is the next stage that this one relies on
    have hserves := downstream_chained hchain (submitIn_chained hφ hm hchain.2.2.2) above
    have hmeasure (k : Key) : (φ k).1 = s.layout.measure := (hm k).trans hchain.1.symm
    rw [submitIn_head] at hG ⊢
    rw [← handed_downstream above] at hrest
    have hback : Readable rest (s.submit (s.downstream rest above) above x ⟨states.1, states.2, b⟩).2.backend := hG.tail
    obtain ⟨d, ys, hsubmit, -, hJ, hwrote, hkeep'⟩ := submit_keeps hserves hmeasure hkeep hx.1 hx.2
      (fun y hy z hz => hy.handed_suits hφ hz) hrest above hback
    rw [hsubmit] at hG ⊢
    have hfits : ∀ y ∈ ys, y.Fits := fun y hy => hG.fits hwrote y (List.mem_append_right _ hy)
    refine ⟨(d.own, d.below), d.backend, rfl, chained_cons (fun z hz => ?_) (hkeep' hfits) hJ⟩
    rcases List.mem_append.1 hz with hz | hz
    · exact hH z hz
    · exact List.mem_singleton.1 hz ▸ hx

/-! ## Flushes -/

/-- A flush of the first stage of a chain leaves nothing waiting there, and all accounts are kept. -/
theorem flushHead_chained (hφ : Coherent φ) (hm : ∀ k, (φ k).1 = m) (hchain : Chain m (s :: rest))
    {states : States (s :: rest)} (h : Chained φ (s :: rest) H states b)
    (hG : Readable (s :: rest) (s.flushHead rest states b).2.backend) :
    ∃ d, s.flushHead rest states b = (.ok (.ok true), d) ∧
      Chained φ (s :: rest) H ((d.own, d.below) : States (s :: rest)) d.backend ∧
      d.own.windows.active.view = (fun _ => none) := by
  obtain ⟨hH, W, hkeep, hrest⟩ := h
  have hserves := downstream_chained hchain (submitIn_chained hφ hm hchain.2.2.2) []
  have hmeasure (k : Key) : (φ k).1 = s.layout.measure := (hm k).trans hchain.1.symm
  obtain ⟨d, ys, hflush, -, hview, -, hJ, hwrote, hkeep'⟩ := flush_keeps hserves hmeasure hkeep
    (fun y hy z hz => hy.handed_suits hφ hz) hrest [] hG.tail
  have hhead : s.flushHead rest states b = (.ok (.ok true), d) := hflush
  rw [hhead] at hG
  have hfits : ∀ y ∈ ys, y.Fits := fun y hy => hG.fits hwrote y (List.mem_append_right _ hy)
  exact ⟨d, hhead, chained_cons hH (hkeep' hfits) hJ, hview⟩

/-- A flush of all stages of a chain leaves nothing waiting, and all accounts are kept. -/
theorem flushAllIn_chained (hφ : Coherent φ) (hm : ∀ k, (φ k).1 = m) :
    ∀ {stages : List Stage}, Chain m stages → ∀ (H : List Indicator) (states : States stages) (b : Backend),
      Chained φ stages H states b → Readable stages (flushAllIn stages states b).2.2 →
      ∃ states' b', flushAllIn stages states b = (.ok (.ok ()), states', b') ∧ Chained φ stages H states' b' ∧
        states'.Quiet
  | [], _, _, (), b, _, _ => ⟨(), b, rfl, trivial, trivial⟩
  | s :: rest, hchain, H, states, b, h, hG => by
    -- the stages below write after the head does, so what the head wrote can be read back too
    have hpart : Readable (s :: rest) (s.flushHead rest states b).2.backend := by
      rw [flushAllIn_cons] at hG
      rcases hf : s.flushHead rest states b with ⟨fault | e | swapped, d⟩ <;> rw [hf] at hG
      · exact hG
      · have hreport : Extends (Among rest) d.backend (d.backend.record (.flushFailed e)) :=
          (asked_record d.backend fun _ => rfl).extends
        exact hG.back (hreport.trans (flushAllIn_extends rest d.below (d.backend.record (.flushFailed e))))
      · exact hG.back (flushAllIn_extends rest d.below d.backend)
    obtain ⟨d, hflush, ⟨hH, W, hkeep, hrest⟩, hview⟩ := flushHead_chained hφ hm hchain h hpart
    rw [flushAllIn_cons, hflush] at hG ⊢
    dsimp only at hG ⊢
    obtain ⟨below', b', hall, hrest', hquiet⟩ :=
      flushAllIn_chained hφ hm hchain.2.2.2 _ d.below d.backend hrest hG.tail
    have hext := flushAllIn_extends rest d.below d.backend
    rw [hall] at hext ⊢
    -- the account of the head outlasts what the stages below do to their own tables
    have hkeep' : Keeping s φ H W d.own b' := hkeep.extends hext fun l ⟨t, ht, hl⟩ => hl ▸ hchain.2.2.1 t ht
    exact ⟨(d.own, below'), b', rfl, ⟨hH, W, hkeep', hrest'⟩, hview, hquiet⟩

end Stage

end MetricCascade
