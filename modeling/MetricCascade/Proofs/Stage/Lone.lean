/-
A line whose first stage has its table to itself, over a gateway that refuses nothing. However
updates and flushes follow each other, what is stored and what waits under a key combine to exactly
what was submitted under it, and a last flush stores that. So the table in the end depends on
neither the order of the updates, nor the capacity, nor the flushes in between, nor the order in
which a window is drained.
-/
import MetricCascade.Proofs.Stage.Keeping
import MetricCascade.Proofs.Stage.Sane

namespace MetricCascade

open Indicator

namespace Stage

open Backend Store

/-! ## One step -/

/-- The tables of some stages. -/
def Tables (stages : List Stage) (name : String) : Prop := ∃ t ∈ stages, t.layout.table = name

/-- The first stage of a line keeps account, and no fault can abort those below. -/
structure Lone (s : Stage) (rest : List Stage) (φ : Key → Form) (H W : List Indicator)
    (states : States (s :: rest)) (b : Backend) : Prop where
  keeping : Keeping s φ H W states.1 b
  below : states.2.Sane
  store : b.store.SaneOn (Tables rest)

/-- The first stage of a line keeps account of its own measure, and no fault can abort those below. -/
structure Sifted (s : Stage) (rest : List Stage) (φ : Key → Form) (H W : List Indicator)
    (states : States (s :: rest)) (b : Backend) : Prop where
  sifting : Sifting s φ H W states.1 b
  below : states.2.Sane
  store : b.store.SaneOn (Tables rest)

theorem saneOn_extends {T : String → Prop} {P : Layout → Prop} {b b' : Backend} (hs : b.store.SaneOn T)
    (hb : Extends P b b') (hP : ∀ m, P m → ¬ T m.table) : b'.store.SaneOn T := by
  intro name hname id row x hrow hread
  refine hs name hname id row x ?_ hread
  unfold row? at hrow ⊢
  rwa [hb.tables name fun m hm heq => hP m hm (heq ▸ hname)] at hrow

variable {s : Stage} {rest : List Stage} {φ : Key → Form} {H W : List Indicator} {states : States (s :: rest)}
  {b : Backend}

/-- Work of stages with other tables makes no difference. -/
theorem Lone.extends {P : Layout → Prop} {b' : Backend} (h : Lone s rest φ H W states b) (hb : Extends P b b')
    (hP : ∀ m, P m → ¬ Tables (s :: rest) m.table) : Lone s rest φ H W states b' where
  keeping := h.keeping.extends hb fun m hm heq => hP m hm ⟨s, List.mem_cons_self .., heq.symm⟩
  below := h.below
  store := saneOn_extends h.store hb fun m hm ⟨t, ht, heq⟩ => hP m hm ⟨t, List.mem_cons_of_mem _ ht, heq⟩

/-- The stages below take whatever is sane, and leave the table of the first stage alone. -/
theorem downstream_serves (hown : ¬ Tables rest s.layout.table) (above : List Layout) :
    Outlet.Serves (s.downstream rest above) s.layout (fun x => x.value.Sane)
      (fun _ below b => States.Sane below ∧ b.store.SaneOn (Tables rest)) fun _ => True where
  within next hnext x below b := by
    refine (downstream_within s rest above next hnext x below b).mono ?_
    rintro m ⟨t, ht, rfl⟩
    have hne : t.layout.table ≠ s.layout.table := fun heq => hown ⟨t, ht, heq⟩
    exact ⟨fun heq => hne (by rw [heq]), hne⟩
  takes hnext _ x below b hJ hx _ := by
    obtain ⟨below', b', hsubmit, hbelow, hb⟩ :=
      downstream_safe (T := Tables rest) (s := s) (fun t ht => ⟨t, ht, rfl⟩) above _ hnext x below b hx hJ.1 hJ.2
    exact ⟨below', b', hsubmit, hbelow, hb⟩
  aside hb hJ := ⟨hJ.1, saneOn_extends hJ.2 hb fun _ hm => by
    rw [hm]
    exact hown⟩
  back _ _ := trivial

/-- Totals are handed on sane. -/
theorem handed_sane {σ : Type} {outlet : Option (Outlet σ)} {y z : Indicator} (hy : y.value.Proper)
    (hz : z ∈ handed outlet [y]) : z.value.Sane := by
  obtain ⟨next, -, y', hy', hroll⟩ := mem_handed.1 hz
  obtain rfl := List.mem_singleton.1 hy'
  rw [(rollup_eq_ok_iff.1 hroll).2.2]
  exact hy.sane

/-- An update to the first stage is taken into its account. -/
theorem Lone.submit {x : Indicator} (h : Lone s rest φ H W states b) (hown : ¬ Tables rest s.layout.table)
    (hm : ∀ k, (φ k).1 = s.layout.measure) (hx : x.value.Proper) (hf : x.value.form = φ x.key) :
    ∃ states' b' ys, submitIn (s :: rest) [] 0 x states b = (.ok (), states', b') ∧ (∀ y ∈ ys, Total φ H y) ∧
      ((∀ y ∈ ys, y.Fits) → Lone s rest φ (H ++ [x]) (W ++ ys) states' b') := by
  obtain ⟨d, ys, hsubmit, htotal, hJ, -, hkeep⟩ := submit_keeps (downstream_serves hown []) hm h.keeping hx hf
    (fun y hy z hz => handed_sane hy.1.proper hz) ⟨h.below, h.store⟩ [] trivial
  rw [submitIn_head, hsubmit]
  exact ⟨(d.own, d.below), d.backend, ys, rfl, htotal, fun hfits => ⟨hkeep hfits, hJ.1, hJ.2⟩⟩

theorem Lone.sifted (h : Lone s rest φ H W states b) (hm : ∀ k, (φ k).1 = s.layout.measure) :
    Sifted s rest φ H W states b :=
  ⟨h.keeping.sifting hm, h.below, h.store⟩

/-- Where nothing waits, nothing is left out of the account. -/
theorem Sifted.lone (h : Sifted s rest φ H W states b) (hview : states.1.windows.active.view = fun _ => none) :
    Lone s rest φ H W states b := by
  refine ⟨h.sifting.keeping (Window.fitView_eq fun k a ha => ?_), h.below, h.store⟩
  rw [hview] at ha
  cases ha

/-- A flush of the first stage writes totals, and nothing waits in it afterwards. -/
theorem Sifted.flush (h : Sifted s rest φ H W states b) (hown : ¬ Tables rest s.layout.table)
    (hm : ∀ k, (φ k).1 = s.layout.measure) :
    ∃ d ys, s.flushHead rest states b = (.ok (.ok true), d) ∧ d.own.windows.active.view = (fun _ => none) ∧
      (∀ y ∈ ys, Total φ H y) ∧ ((∀ y ∈ ys, y.Fits) → Sifted s rest φ H (W ++ ys) (d.own, d.below) d.backend) := by
  obtain ⟨d, ys, hflush, -, hview, htotal, hJ, -, hsift⟩ := flush_sifts (downstream_serves hown []) hm h.sifting
    (fun y hy z hz => handed_sane hy.1.proper hz) ⟨h.below, h.store⟩ [] trivial
  exact ⟨d, ys, hflush, hview, htotal, fun hfits => ⟨hsift hfits, hJ.1, hJ.2⟩⟩

theorem Lone.flush (h : Lone s rest φ H W states b) (hown : ¬ Tables rest s.layout.table)
    (hm : ∀ k, (φ k).1 = s.layout.measure) :
    ∃ d ys, s.flushHead rest states b = (.ok (.ok true), d) ∧ d.own.windows.active.view = (fun _ => none) ∧
      (∀ y ∈ ys, Total φ H y) ∧ ((∀ y ∈ ys, y.Fits) → Lone s rest φ H (W ++ ys) (d.own, d.below) d.backend) := by
  obtain ⟨d, ys, hflush, hview, htotal, hsifted⟩ := (h.sifted hm).flush hown hm
  exact ⟨d, ys, hflush, hview, htotal, fun hfits => (hsifted hfits).lone hview⟩

/-- A flush of all stages does to the first what a flush of the first does. -/
theorem Sifted.flushAll (h : Sifted s rest φ H W states b) (hown : ¬ Tables rest s.layout.table)
    (hm : ∀ k, (φ k).1 = s.layout.measure) :
    ∃ r states' b' ys, flushAllIn (s :: rest) states b = (.ok r, states', b') ∧
      states'.1.windows.active.view = (fun _ => none) ∧ (∀ y ∈ ys, Total φ H y) ∧
      ((∀ y ∈ ys, y.Fits) → Sifted s rest φ H (W ++ ys) states' b') := by
  have hown' (m : Layout) (hm : Among rest m) : m.table ≠ s.layout.table := by
    obtain ⟨t, ht, rfl⟩ := hm
    exact fun heq => hown ⟨t, ht, heq⟩
  obtain ⟨d, ys, hflush, -, hview, htotal, hJ, -, hsift⟩ := flush_sifts (downstream_serves hown []) hm h.sifting
    (fun y hy z hz => handed_sane hy.1.proper hz) ⟨h.below, h.store⟩ [] trivial
  obtain ⟨r, below, b', hall, hbelow, hb'⟩ :=
    flushAllIn_sane (T := Tables rest) rest d.below d.backend (fun t ht => ⟨t, ht, rfl⟩) hJ.1 hJ.2
  have hext := flushAllIn_extends rest d.below d.backend
  rw [hall] at hext
  have hhead : s.flushHead rest states b = (.ok (.ok true), d) := hflush
  rw [flushAllIn_cons, hhead]
  dsimp only
  rw [hall]
  exact ⟨r, (d.own, below), b', ys, rfl, hview, htotal, fun hfits =>
    ⟨(hsift hfits).extends hext hown', hbelow, hb'⟩⟩

theorem Lone.flushAll (h : Lone s rest φ H W states b) (hown : ¬ Tables rest s.layout.table)
    (hm : ∀ k, (φ k).1 = s.layout.measure) :
    ∃ r states' b' ys, flushAllIn (s :: rest) states b = (.ok r, states', b') ∧
      states'.1.windows.active.view = (fun _ => none) ∧ (∀ y ∈ ys, Total φ H y) ∧
      ((∀ y ∈ ys, y.Fits) → Lone s rest φ H (W ++ ys) states' b') := by
  obtain ⟨r, states', b', ys, hall, hview, htotal, hsifted⟩ := (h.sifted hm).flushAll hown hm
  exact ⟨r, states', b', ys, hall, hview, htotal, fun hfits => (hsifted hfits).lone hview⟩

/-- A total has numbers of their widths if what it totals has. -/
theorem Total.fits {y : Indicator} (h : Total φ H y) (hr : (rawSum (under y.key H)).InRange)
    (hH : ∀ x ∈ H, IsInt64 x.key.bucket.code) : y.Fits := by
  obtain ⟨hcur, hraw, hne⟩ := h
  obtain ⟨x, hx⟩ := List.exists_mem_of_ne_nil _ hne
  obtain ⟨hxH, hkey⟩ := mem_under.1 hx
  exact ⟨hkey ▸ hH x hxH, hcur.fits (hraw ▸ hr)⟩

end Stage

/-! ## Runs -/

/-- A call to a line. -/
inductive Call where
  /-- An update for the first stage. -/
  | submit (x : Indicator)
  /-- A flush of the first stage. -/
  | flush
  /-- A flush of every stage. -/
  | flushAll

namespace Call

/-- The updates among some calls, in order. -/
def submitted : List Call → List Indicator
  | [] => []
  | submit x :: rest => x :: submitted rest
  | flush :: rest => submitted rest
  | flushAll :: rest => submitted rest

theorem submitted_append : ∀ calls more : List Call, submitted (calls ++ more) = submitted calls ++ submitted more
  | [], _ => rfl
  | submit x :: rest, more => congrArg (x :: ·) (submitted_append rest more)
  | flush :: rest, more => submitted_append rest more
  | flushAll :: rest, more => submitted_append rest more

/-- What a call makes of a line and what its stages share. -/
def perform (c : Line × Backend) : Call → Line × Backend
  | submit x => (c.1.submit x c.2).2
  | flush => (c.1.flushAt 0 c.2).2
  | flushAll => (c.1.flush c.2).2

/-- What calls make of stages that have done nothing yet, over a store, with the windows drained in some order. -/
def run (stages : List Stage) (st : Store) (calls : List Call)
    (order : Layout → Nat → DrainOrder := fun _ _ => .insertion) : Line × Backend :=
  calls.foldl perform (.ofStages stages, { store := st, order := order })

theorem run_append (stages : List Stage) (st : Store) (calls : List Call) (call : Call)
    (order : Layout → Nat → DrainOrder) :
    run stages st (calls ++ [call]) order = perform (run stages st calls order) call := by
  unfold run
  rw [List.foldl_append]
  rfl

end Call

open Call Stage

/-- A run of a line whose first stage has its table to itself: the table is there and empty at the start
and belongs to no other stage; the stages below cannot be aborted; updates are single observations of
the stage's measure, of one shape under each key, and their sums keep within 64 bits. -/
structure LoneRun (s : Stage) (rest : List Stage) (st : Store) (calls : List Call) : Prop where
  installed : ∃ t, st.tables.get? s.layout.table = some t ∧ t.rows = ∅
  own : ¬ Tables rest s.layout.table
  sane : st.SaneOn (Tables rest)
  observed : ∀ x ∈ submitted calls, x.Observed ∧ x.measure = s.layout.measure
  shapes : ∀ x ∈ submitted calls, ∀ y ∈ submitted calls, x.key = y.key → x.value.shape = y.value.shape
  bounded : ∀ pre, pre <+: calls → ∀ k, (rawSum (under k (submitted pre))).InRange

variable {s : Stage} {rest : List Stage} {st : Store} {calls : List Call} {order : Layout → Nat → DrainOrder}

theorem mem_submitted_mono {pre : List Call} (hpre : pre <+: calls) {x : Indicator} (hx : x ∈ submitted pre) :
    x ∈ submitted calls := by
  obtain ⟨more, rfl⟩ := hpre
  rw [submitted_append]
  exact List.mem_append_left _ hx

/-- After every call the first stage has kept account of all updates so far. -/
theorem LoneRun.lone (h : LoneRun s rest st calls) {φ : Key → Form} (hm : ∀ k, (φ k).1 = s.layout.measure)
    (hφ : ∀ x ∈ submitted calls, x.value.form = φ x.key) :
    ∀ pre, pre <+: calls → ∃ (states : States (s :: rest)) (b : Backend) (W : List Indicator),
      run (s :: rest) st pre order = (⟨s :: rest, states⟩, b) ∧ Lone s rest φ (submitted pre) W states b := by
  intro pre
  induction pre using List.reverseRecOn with
  | nil =>
    intro _
    obtain ⟨t, ht, hrows⟩ := h.installed
    refine ⟨.initial (s :: rest), { store := st, order := order }, [], rfl, keeping_initial ht hrows, ?_, h.sane⟩
    exact States.sane_initial rest
  | append_singleton pre call ih =>
    intro hpre
    have hprefix : pre <+: calls := (List.prefix_append pre [call]).trans hpre
    obtain ⟨states, b, W, hrun, hlone⟩ := ih hprefix
    -- whatever is written now is a total of the calls so far, which keep within 64 bits
    have hfits : ∀ {ys : List Indicator}, (∀ y ∈ ys, Total φ (submitted pre) y) → ∀ y ∈ ys, y.Fits :=
      fun htotal y hy => (htotal y hy).fits (h.bounded pre hprefix y.key) fun x hx =>
        (h.observed x (mem_submitted_mono hprefix hx)).1.bucket
    rw [run_append, hrun, submitted_append]
    cases call with
    | submit x =>
      have hx : x ∈ submitted calls := mem_submitted_mono hpre (by simp [submitted_append, submitted])
      obtain ⟨states', b', ys, hsubmit, htotal, hlone'⟩ :=
        hlone.submit h.own hm (h.observed x hx).1.proper (hφ x hx)
      refine ⟨states', b', W ++ ys, ?_, hlone' (hfits htotal)⟩
      simp only [perform, Line.submit, Line.submitAt, hsubmit]
    | flush =>
      obtain ⟨d, ys, hflush, -, htotal, hlone'⟩ := hlone.flush h.own hm
      refine ⟨(d.own, d.below), d.backend, W ++ ys, ?_, by simpa [submitted] using hlone' (hfits htotal)⟩
      simp only [perform, Line.flushAt, flushIn_head, hflush]
    | flushAll =>
      obtain ⟨r, states', b', ys, hall, -, htotal, hlone'⟩ := hlone.flushAll h.own hm
      refine ⟨states', b', W ++ ys, ?_, by simpa [submitted] using hlone' (hfits htotal)⟩
      simp only [perform, Line.flush, hall]

/-! ## What a run adds up to -/

/-- A form for every key, read off the updates whose keys have the same `g`. -/
def formsOf (g : Key → Key) (m : Measure) (xs : List Indicator) (k : Key) : Form :=
  (m, (xs.find? fun x => g x.key = g k).bind fun x => x.value.shape)

theorem form_eq_formsOf {g : Key → Key} {m : Measure} {xs : List Indicator} (hm : ∀ x ∈ xs, x.measure = m)
    (hs : ∀ x ∈ xs, ∀ y ∈ xs, g x.key = g y.key → x.value.shape = y.value.shape) {x : Indicator} (hx : x ∈ xs) :
    x.value.form = formsOf g m xs x.key := by
  obtain ⟨y, hy⟩ := Option.isSome_iff_exists.1
    (List.find?_isSome.2 ⟨x, hx, decide_eq_true rfl⟩ : (xs.find? fun y => g y.key = g x.key).isSome = true)
  have hkey : g y.key = g x.key := by simpa using List.find?_some hy
  have hshape : y.value.shape = x.value.shape := hs y (List.mem_of_find?_eq_some hy) x hx hkey
  unfold formsOf Aggregate.form
  rw [hy, Option.bind_some, hshape]
  exact congrArg (·, x.value.shape) (hm x hx)

/-- What a last flush leaves in the table is the combination of everything submitted under each key. -/
theorem LoneRun.flushed (h : LoneRun s rest st calls) {φ : Key → Form} (hm : ∀ k, (φ k).1 = s.layout.measure)
    (hφ : ∀ x ∈ submitted calls, x.value.form = φ x.key) {states : States (s :: rest)} {b : Backend}
    (hrun : run (s :: rest) st calls order = (⟨s :: rest, states⟩, b)) :
    ∃ d v, s.flushHead rest states b = (.ok (.ok true), d) ∧
      run (s :: rest) st (calls ++ [.flush]) order = (⟨s :: rest, (d.own, d.below)⟩, d.backend) ∧
      d.own.windows.active.view = (fun _ => none) ∧ Legible s φ v d.backend ∧
      Balanced φ v (fun _ => none) (submitted calls) := by
  obtain ⟨states', b', W, hrun', hlone⟩ := h.lone hm hφ calls (List.prefix_refl _)
  obtain ⟨rfl, rfl⟩ : states' = states ∧ b' = b := by
    rw [hrun] at hrun'
    cases hrun'
    exact ⟨rfl, rfl⟩
  obtain ⟨d, ys, hflush, hview, htotal, hlone'⟩ := hlone.flush h.own hm
  have hkeep := (hlone' fun y hy => (htotal y hy).fits (h.bounded calls (List.prefix_refl _) y.key) fun x hx =>
    (h.observed x hx).1.bucket).keeping
  refine ⟨d, _, hflush, ?_, hview, hkeep.legible, hview ▸ hkeep.balanced⟩
  rw [run_append, hrun]
  simp only [perform, Line.flushAt, flushIn_head, hflush]

/-- However updates and flushes follow each other: under every key, what is stored and what waits
combine to what was submitted; a further flush stores that combination with its figure computed, and
leaves nothing waiting; and another run of a stage of the same layout, of whatever capacity and above
whatever stages, with the same updates in whatever order, flushes wherever and windows drained in whatever
order, ends in the same rows. -/
theorem lone_run_balanced (h : LoneRun s rest st calls) :
    ∃ (states : States (s :: rest)) (b : Backend), run (s :: rest) st calls order = (⟨s :: rest, states⟩, b) ∧
      (∀ k, (combineAll (under k (submitted calls)) = none ↔ under k (submitted calls) = []) ∧
        ∃ stored, b.store.get s.layout k = .ok stored ∧
          combineAll (stored.toList ++ (states.1.windows.active.get? k).toList) =
            combineAll (under k (submitted calls))) ∧
      (∃ d, s.flushHead rest states b = (.ok (.ok true), d) ∧ ∀ k, d.own.windows.active.get? k = none ∧
        d.backend.store.get s.layout k = .ok (combineAll (under k (submitted calls)))) ∧
      ∀ (s' : Stage) (rest' : List Stage) (st' : Store) (calls' : List Call) (order' : Layout → Nat → DrainOrder),
        LoneRun s' rest' st' calls' → s'.layout = s.layout → (submitted calls').Perm (submitted calls) →
        ∀ id, (run (s' :: rest') st' (calls' ++ [.flush]) order').2.store.row? s.layout.table id =
          (run (s :: rest) st (calls ++ [.flush]) order).2.store.row? s.layout.table id := by
  have hm (k : Key) : (formsOf id s.layout.measure (submitted calls) k).1 = s.layout.measure := rfl
  have hφ : ∀ x ∈ submitted calls, x.value.form = formsOf id s.layout.measure (submitted calls) x.key :=
    fun x hx => form_eq_formsOf (fun x hx => (h.observed x hx).2) h.shapes hx
  have hH : ∀ x ∈ submitted calls,
      x.value.Proper ∧ x.value.form = formsOf id s.layout.measure (submitted calls) x.key :=
    fun x hx => ⟨(h.observed x hx).1.proper, hφ x hx⟩
  obtain ⟨states, b, W, hrun, hlone⟩ := h.lone hm hφ calls (List.prefix_refl _)
  obtain ⟨d, v, hflush, hrun', hview, hlegible, hbalanced⟩ := h.flushed hm hφ hrun
  refine ⟨states, b, hrun, fun k => ⟨?_, ?_⟩, ⟨d, hflush, fun k => ⟨?_, ?_⟩⟩, ?_⟩
  · have hpresent := hbalanced.present k
    rw [and_iff_left rfl] at hpresent
    rw [← hbalanced.stored_eq hH k, Option.map_eq_none_iff, hpresent]
  · exact ⟨_, hlone.keeping.legible.get hm k, hlone.keeping.balanced.combineAll_eq hH k⟩
  · unfold Window.get?
    rw [Option.map_eq_none_iff]
    exact congrFun hview k
  · rw [hlegible.get hm, hbalanced.stored_eq hH]
  intro s' rest' st' calls' order' h' hlayout hperm text
  have hm' (k : Key) : (formsOf id s.layout.measure (submitted calls) k).1 = s'.layout.measure := by rw [hlayout]; rfl
  have hφ' : ∀ x ∈ submitted calls', x.value.form = formsOf id s.layout.measure (submitted calls) x.key :=
    fun x hx => hφ x (hperm.mem_iff.1 hx)
  obtain ⟨states', b', W', hrun₂, -⟩ := h'.lone hm' hφ' calls' (List.prefix_refl _)
  obtain ⟨d', v', -, hrun₂', -, hlegible', hbalanced'⟩ := h'.flushed hm' hφ' hrun₂
  -- both tables balance the same updates with nothing waiting, which leaves them no choice
  obtain rfl : v' = v := hbalanced'.unique hbalanced hperm
  have hshows : d'.backend.store.Shows s.layout v' := hlayout ▸ hlegible'.shows
  rw [hrun', hrun₂']
  exact hshows.row_congr hlegible.shows text

/-- Calls are counted by the minute. -/
def callCounts : Stage := ⟨⟨"calls", .count, .minute⟩, 1, some 0⟩

/-- One call, and two more in the same minute after a flush. -/
def threeCalls : List Call :=
  [.submit (.count "checkout" ⟨202403151427⟩ 1), .flush, .submit (.count "checkout" ⟨202403151427⟩ 2)]

theorem loneRun_threeCalls :
    LoneRun callCounts (Line.cascade "calls" .count 1).stages.tail (({} : Store).createTable callCounts.layout)
      threeCalls where
  installed := ⟨_, rfl, rfl⟩
  own := by
    rintro ⟨t, ht, htable⟩
    revert t
    decide
  sane := by
    apply Store.saneOn_empty
    intro name _ t ht
    simp only [Store.createTable, Dict.get?_insert] at ht
    split at ht <;> cases ht
    rfl
  observed := by
    have hcode : IsInt64 202403151427 := by decide
    intro x hx
    simp only [threeCalls, submitted, List.mem_cons, List.not_mem_nil, or_false] at hx
    rcases hx with rfl | rfl
    · exact ⟨.count hcode (by decide), rfl⟩
    · exact ⟨.count hcode (by decide), rfl⟩
  shapes x hx y hy _ := by
    simp only [threeCalls, submitted, List.mem_cons, List.not_mem_nil, or_false] at hx hy
    rcases hx with rfl | rfl <;> rcases hy with rfl | rfl <;> rfl
  bounded pre hpre k := by
    have hpre : pre ∈ [threeCalls.take 0, threeCalls.take 1, threeCalls.take 2, threeCalls.take 3] :=
      (List.mem_inits _ _).2 hpre
    have hzero : IsInt64 0 := by decide
    have hcount {n : Int} (hn : IsInt64 n) : Raw.InRange (n, 0, 0) := ⟨hn, hzero, fun _ => hzero⟩
    have h0 : Raw.InRange 0 := hcount hzero
    have h1 : Raw.InRange (1, 0, 0) := hcount (by decide)
    have h3 : Raw.InRange (3, 0, 0) := hcount (by decide)
    simp only [List.mem_cons, List.not_mem_nil, or_false] at hpre
    by_cases hk : (⟨"checkout", ⟨202403151427⟩⟩ : Key) = k
    · rcases hpre with rfl | rfl | rfl | rfl <;>
        simpa [threeCalls, submitted, under, count, hk, Aggregate.raw]
    · rcases hpre with rfl | rfl | rfl | rfl <;> simpa [threeCalls, submitted, under, count, hk]

/-- The three calls of one minute are one row in the end. -/
theorem lone_run_balanced_threeCalls :
    ∃ (states : States (Line.cascade "calls" .count 1).stages) (b : Backend) (d : Scene _),
      run (Line.cascade "calls" .count 1).stages (({} : Store).createTable callCounts.layout) threeCalls =
        (⟨_, states⟩, b) ∧
      callCounts.flushHead (Line.cascade "calls" .count 1).stages.tail states b = (.ok (.ok true), d) ∧
      d.backend.store.get callCounts.layout ⟨"checkout", ⟨202403151427⟩⟩ =
        .ok (some (.count "checkout" ⟨202403151427⟩ 3)) := by
  obtain ⟨states, b, hrun, -, ⟨d, hflush, hd⟩, -⟩ := lone_run_balanced loneRun_threeCalls
  exact ⟨states, b, d, hrun, hflush, (hd _).2.trans (by decide)⟩

end MetricCascade
