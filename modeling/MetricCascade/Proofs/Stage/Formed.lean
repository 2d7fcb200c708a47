/-
What windows and tables hold is well formed. Every entry and every row is made of observations and up to date,
lies in a window of its stage's level, and, above the minutes, is of the stage's measure; rows are so at every
level, and stand under the text of their key. This is kept by every run of a line that starts over empty tables,
whatever the gateway refuses, and no fault aborts such a run.
-/
import MetricCascade.Proofs.Stage.Cascade
import MetricCascade.Proofs.Stage.Refreshed

namespace MetricCascade

/-! ## Sums of observations -/

/-- An update that suits a stage: a sum of observations in a window of its level, above the minutes of its measure. -/
structure Suited (l : Layout) (x : Indicator) : Prop where
  proper : x.value.Proper
  window : x.key.bucket.hasLevel l.level = true
  measure : l.level ≠ .minute → x.measure = l.measure

/-- Such an update when its figure is up to date. -/
structure Entered (l : Layout) (x : Indicator) : Prop extends Suited l x where
  fresh : x.value.refresh = .ok x.value

/-- What refreshing makes of a suited update. -/
theorem Suited.refresh {l : Layout} {x : Indicator} {a : Aggregate} (h : Suited l x) (ha : x.value.refresh = .ok a) :
    Entered l ⟨x.key, a⟩ := by
  obtain ⟨fresh, hfresh, hcurrent, -⟩ := Aggregate.refresh_proper h.proper
  obtain rfl : fresh = a := Except.ok.inj (hfresh.symm.trans ha)
  exact ⟨⟨hcurrent.proper, h.window, fun hl => (Aggregate.refresh_measure ha).trans (h.measure hl)⟩, hcurrent.fresh⟩

/-- What becomes of a suited update that a sum of observations is added to. -/
theorem Suited.combine {l : Layout} {x : Indicator} {b j : Aggregate} (h : Suited l x) (hb : b.Proper)
    (hj : x.value.combine b = .ok j) : Suited l ⟨x.key, j⟩ :=
  ⟨h.proper.combine hb hj, h.window, fun hl => (Aggregate.combine_measure hj).2.trans (h.measure hl)⟩

/-! ## Windows -/

/-- Every entry of the window is as one of a stage should be. -/
def Window.Formed (l : Layout) (w : Window) : Prop := ∀ k a, w.view k = some a → Entered l ⟨k, a⟩

theorem Window.Formed.insert {l : Layout} {w : Window} {k : Key} {a : Aggregate} (hw : w.Formed l)
    (ha : Entered l ⟨k, a⟩) : ∀ j b, (w.entries.insert k a).get? j = some b → Entered l ⟨j, b⟩ := by
  intro j b hb
  rw [Dict.get?_insert] at hb
  split at hb
  · rename_i hjk
    subst hjk
    exact Option.some.inj hb ▸ ha
  · exact hw j b hb

/-- Merging a suited update keeps a window formed. -/
theorem Window.Formed.merge {l : Layout} {w w' : Window} {x : Indicator} {r : Except CombineError Unit}
    (hw : w.Formed l) (hx : Suited l x) (h : w.merge x = (.ok r, w')) : w'.Formed l := by
  have hcases := merge_cases w x
  rw [h] at hcases
  generalize hresult : (Except.ok r, w') = result at hcases
  cases hcases with
  | first hold hfresh =>
    cases hresult
    exact hw.insert (hx.refresh hfresh)
  | barred _ _ => cases hresult
  | misfit _ _ =>
    cases hresult
    exact hw
  | joined hold hjoin hfresh =>
    cases hresult
    exact hw.insert (((hw _ _ hold).toSuited.combine hx.proper hjoin).refresh hfresh)
  | broken _ _ _ => cases hresult

/-! ## Tables -/

namespace Store

/-- A row that is there after a batch was written by it or was there before. -/
theorem row?_foldl_write {name id : String} {row : Row} {batch : List Operation} :
    ∀ {s : Store}, (∀ op ∈ batch, op.table = name) → (batch.foldl write s).row? name id = some row →
      (∃ op ∈ batch, op.id = id ∧ op.row = row) ∨ s.row? name id = some row := by
  induction batch with
  | nil => exact fun _ h => .inr h
  | cons op batch ih =>
    intro s htable h
    rw [List.foldl_cons] at h
    rcases ih (fun o ho => htable o (List.mem_cons_of_mem _ ho)) h with ⟨o, ho, hrow⟩ | hrow
    · exact .inl ⟨o, List.mem_cons_of_mem _ ho, hrow⟩
    · unfold row? at hrow ⊢
      rw [tables_write, if_pos (htable op (List.mem_cons_self ..))] at hrow
      cases ht : s.tables.get? name with
      | none => rw [ht] at hrow; cases hrow
      | some t =>
        rw [ht] at hrow
        simp only [Option.map_some, Option.bind_some, Dict.get?_insert] at hrow ⊢
        split at hrow
        · rename_i hid
          exact .inl ⟨op, List.mem_cons_self .., hid.symm, Option.some.inj hrow⟩
        · exact .inr hrow

end Store

namespace Stage

open Backend Store

variable {σ : Type} {s : Stage} {outlet : Option (Outlet σ)} {l : Layout} {b b' : Backend}

/-- The operation stores an indicator that is as one of the layout should be. -/
def Stores (l : Layout) (op : Operation) : Prop :=
  ∃ kind x, op = .storing kind l x ∧ Entered l x ∧ x.measure = l.measure

/-- The rows of a table are those that its stage wrote, each as it should be. -/
structure TableFormed (l : Layout) (b : Backend) : Prop where
  rows : ∀ id row, b.store.row? l.table id = some row → ∃ op ∈ b.written l, op.id = id ∧ op.row = row
  written : ∀ op ∈ b.written l, Stores l op

theorem TableFormed.aside (h : TableFormed l b) (hb : Aside (fun m => m.table ≠ l.table) b b') : TableFormed l b' := by
  have hwritten : b'.written l = b.written l := hb.work.written fun hne => hne rfl
  refine ⟨fun id row hrow => ?_, hwritten ▸ h.written⟩
  unfold row? at hrow
  rw [hb.work.tables l.table fun m hm => hm] at hrow
  rw [hwritten]
  exact h.rows id row hrow

/-- What is looked up is as it should be. -/
theorem TableFormed.get (h : TableFormed l b) {k : Key} {x : Indicator} (hget : (b.get l k).1 = .ok (some x)) :
    Entered l x := by
  obtain ⟨row, hrow, hread⟩ := get_eq_some (get_ok hget)
  obtain ⟨op, hop, -, rfl⟩ := h.rows _ _ hrow
  obtain ⟨kind, y, rfl, hy, -⟩ := h.written op hop
  obtain ⟨-, rfl⟩ := Row.indicator?_ofIndicator.1 (Layout.ofRow_eq_ok.1 hread).1
  exact hy

/-- Reconciling an entry makes an operation that stores what it should. -/
theorem TableFormed.reconcile (h : TableFormed s.layout b) {x y : Indicator} {op : Operation} (hx : Entered s.layout x)
    (hreconcile : s.reconcile x b = (.ok (some (op, y)), b')) :
    Entered s.layout y ∧ y.measure = s.layout.measure ∧ Stores s.layout op := by
  obtain ⟨-, hop⟩ := reconcile_spec s x b
  rw [hreconcile] at hop
  obtain ⟨hmeasure, kind, hreconciled, rfl⟩ := hop op y rfl
  suffices hy : Entered s.layout y from ⟨hy, hmeasure, kind, y, rfl, hy, hmeasure⟩
  cases hreconciled with
  | fresh => exact hx
  | @joined stored joined _ hget hjoin hfresh =>
    have hstored := h.get hget
    unfold Indicator.combine at hjoin
    split at hjoin
    · cases hj : x.value.combine stored.value with
      | error e => rw [hj] at hjoin; cases hjoin
      | ok j =>
        rw [hj] at hjoin
        obtain rfl := Except.ok.inj hjoin
        unfold Indicator.refresh at hfresh
        cases ha : j.refresh with
        | error fault => rw [ha] at hfresh; cases hfresh
        | ok a =>
          rw [ha] at hfresh
          obtain rfl := Except.ok.inj hfresh
          exact (hx.toSuited.combine hstored.proper hj).refresh ha
    · cases hjoin

/-- Writing operations that store what they should keeps a table formed. -/
theorem TableFormed.persist (h : TableFormed l b) (flushing : List Layout) {batch : List Operation}
    (hbatch : ∀ op ∈ batch, Stores l op) : TableFormed l (b.persist l flushing batch).2 := by
  rcases persist_cases b l flushing batch with ⟨e, he⟩ | ⟨t, ht, hb⟩
  · rw [he]
    have hwritten : (b.called.record (.batch l flushing batch false)).written l = b.written l :=
      List.append_nil _
    refine ⟨fun id row hrow => ?_, ?_⟩ <;> rw [hwritten]
    · exact h.rows id row hrow
    · exact h.written
  · rw [hb, persist_ok ht]
    have hwritten : (b.called.record (.batch l flushing batch true)).written l = b.written l ++ batch := by
      simp [Backend.written, writtenIn, Backend.record, Event.accepted, Backend.called]
    constructor
    · intro id row hrow
      show ∃ op ∈ (b.called.record (.batch l flushing batch true)).written l, _
      rw [hwritten]
      have htable : ∀ op ∈ batch, op.table = l.table := by
        intro op hop
        obtain ⟨kind, x, rfl, -⟩ := hbatch op hop
        rfl
      rcases row?_foldl_write htable hrow with ⟨op, hop, hid⟩ | hrow
      · exact ⟨op, List.mem_append_right _ hop, hid⟩
      · obtain ⟨op, hop, hid⟩ := h.rows id row hrow
        exact ⟨op, List.mem_append_left _ hop, hid⟩
    · show ∀ op ∈ (b.called.record (.batch l flushing batch true)).written l, _
      rw [hwritten]
      intro op hop
      exact (List.mem_append.1 hop).elim (h.written op) (hbatch op)

/-! ## One stage -/

/-- Everything that a stage holds is as it should be, and nothing of it could not be handed on. -/
structure Formed (s : Stage) (next : Option Layout) (n : Nat) (own : State) (b : Backend) : Prop where
  idle : own.windows.Idle
  entries : own.windows.active.Formed s.layout
  unfailed : own.tally.forwardFailures = 0
  table : TableFormed s.layout b

/-- What holds while a stage prepares a batch: `windows` are the windows that it drained, `xs` the entries still to
come, and `ops` the operations so far. -/
structure Preparing (s : Stage) (J : Nat → σ → Backend → Prop) (windows : WindowPair) (xs : List Indicator)
    (ops : List Operation) (c : Scene σ) : Prop where
  windows : c.own.windows = windows
  entries : ∀ x ∈ xs, Entered s.layout x
  operations : ∀ op ∈ ops, Stores s.layout op
  unfailed : c.own.tally.forwardFailures = 0
  table : TableFormed s.layout c.backend
  below : J c.own.tally.forwarded c.below c.backend

/-- The stage feeds one of its measure and of a level that is not finer. -/
def Feeds (s : Stage) (next : Option Layout) : Prop :=
  ∀ l, next = some l → s.layout.level ≤ l.level ∧ l.measure = s.layout.measure

variable {J : Nat → σ → Backend → Prop} {windows : WindowPair} {rest : List Indicator} {x y : Indicator}
  {ops : List Operation} {op : Operation} {c d : Scene σ}

theorem Preparing.left (hout : Outlet.Honours outlet s.layout Suited J) (h : Preparing s J windows (x :: rest) ops c)
    (hreconcile : s.reconcile x c.backend = (.ok none, b)) :
    Preparing s J windows rest ops ({ c with backend := b }.count .addReconcileFailure) where
  windows := h.windows
  entries z hz := h.entries z (List.mem_cons_of_mem _ hz)
  operations := h.operations
  unfailed := h.unfailed
  table := h.table.aside (reconcile_aside hreconcile)
  below := hout.aside (reconcile_aside hreconcile) h.below

/-- What was reconciled has a window at the next level and suits the stage there. -/
theorem Suited.rollup {m : Layout} (hfeeds : s.layout.level ≤ m.level ∧ m.measure = s.layout.measure)
    (hy : Entered s.layout y) (hmeasure : y.measure = s.layout.measure) :
    ∃ z, y.rollup m.level = .ok z ∧ Suited m z := by
  have hwiden := Bucket.widen_eq_ok_iff.2 ⟨s.layout.level, hy.window, hfeeds.1, rfl⟩
  have hroll : y.rollup m.level = .ok ⟨⟨y.key.entity, _⟩, y.value⟩ := Indicator.rollup_eq_ok_iff.2 ⟨hwiden, rfl, rfl⟩
  refine ⟨_, hroll, hy.proper, Bucket.hasLevel_dropPairs hy.window hfeeds.1, ?_⟩
  intro _
  exact hmeasure.trans hfeeds.2.symm

theorem Preparing.taken (hfeeds : Feeds s (outlet.map (·.layout))) (hout : Outlet.Honours outlet s.layout Suited J)
    (h : Preparing s J windows (x :: rest) ops c) (hreconcile : s.reconcile x c.backend = (.ok (some (op, y)), b))
    (hforward : s.forward outlet y { c with backend := b } = (.ok (), d)) :
    Preparing s J windows rest (ops ++ [op]) d := by
  obtain ⟨hy, hmeasure, hop⟩ := h.table.reconcile (h.entries x (List.mem_cons_self ..)) hreconcile
  have htable : TableFormed s.layout b := h.table.aside (reconcile_aside hreconcile)
  have hbelow : J c.own.tally.forwarded c.below b := hout.aside (reconcile_aside hreconcile) h.below
  have hentries : ∀ z ∈ rest, Entered s.layout z := fun z hz => h.entries z (List.mem_cons_of_mem _ hz)
  have hoperations : ∀ o ∈ ops ++ [op], Stores s.layout o := by
    intro o ho
    rcases List.mem_append.1 ho with ho | ho
    · exact h.operations o ho
    · exact List.mem_singleton.1 ho ▸ hop
  cases outlet with
  | none =>
    cases hforward
    exact ⟨h.windows, hentries, hoperations, h.unfailed, htable, hbelow⟩
  | some next =>
    obtain ⟨z, hroll, hz⟩ := Suited.rollup (hfeeds next.layout rfl) hy hmeasure
    rcases hsubmit : next.submit z c.below b with ⟨r, below', b₂⟩
    rw [forward_ok hroll, hsubmit] at hforward
    cases hforward
    exact ⟨h.windows, hentries, hoperations, h.unfailed, htable.aside (hout.apart next rfl z c.below b _ _ hsubmit),
      hout.takes rfl hbelow hz hsubmit⟩

/-- A batch goes to the gateway, and everything is as it should be whatever the answer. -/
theorem Preparing.written (hout : Outlet.Honours outlet s.layout Suited J) (h : Preparing s J windows [] ops c)
    (above : List Layout) : Preparing s J windows [] [] (s.writeBatch above ops c).2 := by
  have htable : ∀ op ∈ ops, op.table = s.layout.table := by
    intro op hop
    obtain ⟨kind, x, rfl, -⟩ := h.operations op hop
    rfl
  have hbelow := hout.aside (writeBatch_aside above htable c) h.below
  have hpersist := h.table.persist (above ++ [s.layout]) h.operations
  unfold writeBatch at hbelow ⊢
  rcases hp : c.backend.persist s.layout (above ++ [s.layout]) ops with ⟨e | _, b⟩ <;> rw [hp] at hbelow hpersist <;>
    exact ⟨h.windows, nofun, nofun, h.unfailed, hpersist, hbelow⟩

/-- A stage that feeds a coarser one of its measure upholds that everything is as it should be. -/
theorem upholds_formed {next : Option Layout} (hfeeds : Feeds s next) : Upholds Suited Formed s next where
  flush {σ outlet J above n c d r} hnext hout hI hJ hflush := by
    subst hnext
    obtain ⟨hidle, hview⟩ := hI.idle.release
    have hentries : ∀ x ∈ c.taken s c.own.windows.swapped, Entered s.layout x := fun x hx =>
      hI.entries x.key x.value (Window.mem_indicators.1 (Scene.mem_taken.1 hx))
    have hstart : Preparing s J c.own.windows.swapped.drain.2 (c.taken s c.own.windows.swapped) []
        (c.draining s c.own.windows.swapped) := by
      refine ⟨rfl, hentries, nofun, hI.unfailed, ?_, ?_⟩
      · have hasked : Asked c.backend (c.draining s c.own.windows.swapped).backend := c.draining_asked s _
        have hstore : (c.draining s c.own.windows.swapped).backend.store = c.backend.store := hasked.store
        refine ⟨?_, ?_⟩ <;> rw [hasked.written]
        · rw [hstore]
          exact hI.table.rows
        · exact hI.table.written
      · exact hout.aside (c.draining_aside s _) hJ
    obtain ⟨e, he, rfl⟩ := flush_rule (K := Preparing s J c.own.windows.swapped.drain.2 [] []) hI.idle hstart
      (fun _ _ _ _ _ h hreconcile => h.left hout hreconcile)
      (fun _ _ _ _ _ _ _ _ h hreconcile hforward => h.taken hfeeds hout hreconcile hforward)
      (fun _ h => h) (fun _ _ _ h => h.written hout above) hflush
    have hwindows : e.flushed.own.windows = c.own.windows.swapped.drain.2.release := congrArg WindowPair.release he.windows
    refine ⟨⟨hwindows ▸ hidle, ?_, he.unfailed, he.table⟩, he.below⟩
    rw [hwindows]
    intro k a ha
    rw [hview] at ha
    cases ha
  merge {σ n x c d} hx hI hmerge := by
    have hidle := hI.idle.merge x
    have hformed {p : WindowPair} {r : Except CombineError Unit} (hp : c.own.windows.merge x = (.ok r, p)) :
        p.active.Formed s.layout := by
      unfold WindowPair.merge at hp
      rcases hw : c.own.windows.active.enter.merge x with ⟨r', w⟩
      rw [hw] at hp
      cases hp
      have hactive : c.own.windows.active.enter.Formed s.layout := hI.entries
      have hmerged : w.Formed s.layout := hactive.merge hx hw
      exact hmerged
    unfold Stage.merge at hmerge
    rcases hp : c.own.windows.merge x with ⟨fault | e | _, p⟩ <;> rw [hp] at hmerge hidle <;> cases hmerge
    · exact ⟨hidle, hformed hp, hI.unfailed, hI.table.aside (aside_report c.backend rfl)⟩
    · exact ⟨hidle, hformed hp, hI.unfailed, hI.table⟩
  aside hb hI := ⟨hI.idle, hI.entries, hI.unfailed, hI.table.aside hb⟩

/-! ## Lines -/

/-- No fault can abort stages that hold what they should. -/
theorem States.Upheld.sane : ∀ {stages : List Stage} {given : Nat → Nat} {states : States stages},
    states.Upheld Formed given b → states.Sane ∧ b.store.SaneOn (Tables stages)
  | [], _, (), _ => ⟨trivial, fun _ ⟨_, ht, _⟩ => by cases ht⟩
  | s :: rest, _, (own, below), ⟨hown, hbelow⟩ => by
    obtain ⟨hsane, hstore⟩ := hbelow.sane
    refine ⟨⟨⟨fun k a ha => (hown.entries k a ha).proper.sane, fun k a ha => ?_⟩, hsane⟩, ?_⟩
    · rw [hown.idle.empty] at ha
      cases ha
    · rintro name ⟨t, ht, hname⟩ id row x hrow hread
      rcases List.mem_cons.1 ht with rfl | ht
      · subst hname
        obtain ⟨op, hop, -, rfl⟩ := hown.table.rows id row hrow
        obtain ⟨kind, y, rfl, hy, -⟩ := hown.table.written op hop
        exact sane_ofIndicator hy.proper.sane hread
      · exact hstore name ⟨t, ht, hname⟩ id row x hrow hread

namespace Use

variable {stages : List Stage} {states : States stages} {uses : List Use}

/-- No fault aborts a use of sane stages by sane updates. -/
theorem attempt_sane {T : String → Prop} (hT : ∀ t ∈ stages, T t.layout.table) (hs : states.Sane)
    (hb : b.store.SaneOn T) {u : Use} (hu : ∀ i x, u = submit i x → x.value.Sane) :
    ∃ states' b', attempt (states, b) u = .ok (states', b') := by
  obtain ⟨states', b', hattempt, -⟩ := attempt_lasting (u := u) (lasting_sane T) hT (States.sane_iff.1 hs) (saneOn_iff.1 hb)
    fun i x hx _ _ => hu i x (List.mem_singleton.1 hx).symm
  exact ⟨states', b', hattempt⟩

/-- No run of suited updates and flushes is aborted, and everything stays as it should be. -/
theorem run_formed (hstages : Upholding Suited Formed stages) {given : Nat → Nat} (h : states.Upheld Formed given b)
    (hsuit : Suit Suited stages uses) (hproper : ∀ i x, submit i x ∈ uses → x.value.Proper) :
    ∃ states' b', run (states, b) uses = .ok (states', b') ∧
      states'.Upheld Formed (fun i => given i + Use.given uses i) b' := by
  suffices hrun : ∃ states' b', run (states, b) uses = .ok (states', b') by
    obtain ⟨states', b', hrun⟩ := hrun
    exact ⟨states', b', hrun, run_upheld hstages h hsuit hrun⟩
  induction uses generalizing given states b with
  | nil => exact ⟨states, b, rfl⟩
  | cons u rest ih =>
    obtain ⟨hsane, hstore⟩ := h.sane
    obtain ⟨states₂, b₂, hattempt⟩ := attempt_sane (u := u) (fun t ht => ⟨t, ht, rfl⟩) hsane hstore
      fun i x hu => (hproper i x (hu ▸ List.mem_cons_self ..)).sane
    have hone : Suit Suited stages [u] := fun i x hx => hsuit i x (List.mem_singleton.1 hx ▸ List.mem_cons_self ..)
    obtain ⟨states', b', hrun⟩ := ih (attempt_upheld hstages h hone hattempt)
      (fun i x hx => hsuit i x (List.mem_cons_of_mem _ hx)) fun i x hx => hproper i x (List.mem_cons_of_mem _ hx)
    refine ⟨states', b', ?_⟩
    unfold run
    rw [hattempt]
    exact hrun

end Use

end Stage

/-! ## Cascades -/

open Stage

theorem Chain.measure {m : Measure} : ∀ {stages : List Stage}, Chain m stages → ∀ t ∈ stages, t.layout.measure = m
  | s :: rest, h, t, ht => by
    rcases List.mem_cons.1 ht with rfl | ht
    · exact h.1
    · exact Chain.measure h.2.2.2 t ht

/-- The stages of a chain, each of a level not coarser than that of the next, uphold that everything is as it
should be. -/
theorem upholding_formed {m : Measure} : ∀ {stages : List Stage}, Chain m stages →
    stages.Pairwise (fun s t => s.layout.level ≤ t.layout.level) → Upholding Suited Formed stages
  | [], _, _ => trivial
  | s :: rest, hchain, hlevels => by
    obtain ⟨hmeasure, -, htables, hrest⟩ := hchain
    rw [List.pairwise_cons] at hlevels
    refine ⟨upholds_formed fun l hl => ?_, htables, upholding_formed hrest hlevels.2⟩
    unfold fed? at hl
    rw [Option.bind_eq_some_iff] at hl
    obtain ⟨j, -, hj⟩ := hl
    rw [Option.map_eq_some_iff] at hj
    obtain ⟨t, ht, rfl⟩ := hj
    have hmem : t ∈ rest := List.mem_of_getElem? ht
    exact ⟨hlevels.1 t hmem, (Chain.measure hrest t hmem).trans hmeasure.symm⟩

theorem cascade_upholding_formed (kind : String) (m : Measure) (capacity : Nat) :
    Upholding Suited Formed (Line.cascade kind m capacity).stages :=
  upholding_formed (chain_cascade kind m capacity) (by simp [Line.cascade, Line.ofStages, Level.all]; decide)

/-- The stage of a level stands where the level stands. -/
theorem cascade_stage (kind : String) (m : Measure) (capacity : Nat) (level : Level) :
    (Line.cascade kind m capacity).stages[level.rank]? =
      some ⟨⟨kind, m, level⟩, capacity, level.coarser?.map fun _ => 0⟩ := by
  cases level <;> rfl

/-- An indicator of a level whose figure is up to date; a percentile has bins, which stand in strictly increasing
order and have positive counts. -/
structure Indicator.WellFormed (level : Level) (x : Indicator) : Prop where
  level : x.key.bucket.level = .ok level
  fresh : x.refresh = .ok x
  bins : ∀ h, x.value = .percentile h →
    h.bins ≠ [] ∧ h.bins.Pairwise (fun b c => b.bucket < c.bucket) ∧ ∀ b ∈ h.bins, 0 < b.count

theorem Entered.wellFormed {l : Layout} {x : Indicator} (h : Entered l x) : x.WellFormed l.level where
  level := Bucket.level_eq_ok_iff.2 h.window
  fresh := by
    unfold Indicator.refresh
    rw [h.fresh]
    rfl
  bins g hg := by
    have hproper : g.Proper := by
      have := h.proper
      rwa [hg] at this
    exact ⟨hproper.nonempty, hproper.tidy.ordered, hproper.tidy.positive⟩

/-- The row of such an indicator reads as it where its sums have 64 bits. -/
theorem Entered.read {l : Layout} {x : Indicator} (h : Entered l x) (hm : x.measure = l.measure)
    (hr : x.value.raw.InRange) : l.ofRow (Row.ofIndicator x) = .ok x := by
  have hfits : x.Fits := ⟨Bucket.isInt64_of_hasLevel h.window, Aggregate.Current.fits ⟨h.proper, rfl, h.fresh⟩ hr⟩
  exact Layout.ofRow_eq_ok.2 ⟨Row.indicator?_ofIndicator.2 ⟨hfits, rfl⟩, hm⟩

/-- A cascade over empty tables keeps everything that it holds well formed, whatever single observations of minutes
are submitted to it, of its measure or not, whenever its stages are flushed, in whatever order windows are drained,
and whatever the gateway refuses. No fault aborts it. Each row is that of an indicator of the cascade's measure and
the table's level, stands under the text of its key, and reads as it if no sum of it has overflown; each entry of a
window is of its level, and above the minutes of the measure; and no row was found to have no window at the next
level. -/
theorem cascade_wellFormed {kind : String} {m : Measure} {capacity : Nat} {st : Store} {faults : Faults}
    {order : Layout → Nat → DrainOrder} {uses : List Use}
    (hempty : ∀ level t, st.tables.get? (⟨kind, m, level⟩ : Layout).table = some t → t.rows = ∅)
    (huses : ∀ i x, Use.submit i x ∈ uses → i = 0 ∧ x.Observed ∧ x.key.bucket.level = .ok .minute) :
    ∃ states b, Use.run (.initial (Line.cascade kind m capacity).stages,
        { store := st, faults := faults, order := order }) uses = .ok (states, b) ∧
      ∀ level : Level, ∃ own, states.toList[level.rank]? = some own ∧
        (∀ id row, b.store.row? (⟨kind, m, level⟩ : Layout).table id = some row →
          ∃ x, row = Row.ofIndicator x ∧ (x.value.raw.InRange → (⟨kind, m, level⟩ : Layout).ofRow row = .ok x) ∧
            x.key.text = id ∧ x.measure = m ∧ x.WellFormed level) ∧
        (∀ w, w = own.windows.active ∨ w = own.windows.retired → ∀ k x, w.get? k = some x →
          x.key = k ∧ x.WellFormed level ∧ (level ≠ .minute → x.measure = m)) ∧
        own.tally.forwardFailures = 0 := by
  have hinitial : (States.initial (Line.cascade kind m capacity).stages).Upheld Formed (fun _ => 0)
      { store := st, faults := faults, order := order } := by
    refine States.upheld_initial fun s hs next => ⟨WindowPair.idle_initial, fun k a ha => ?_, rfl, ⟨?_, fun op hop => ?_⟩⟩
    · cases ha
    · intro id row hrow
      obtain ⟨level, -, rfl⟩ := List.mem_map.1 hs
      unfold Store.row? at hrow
      cases ht : st.tables.get? (⟨kind, m, level⟩ : Layout).table with
      | none =>
        simp only [ht] at hrow
        cases hrow
      | some t =>
        simp only [ht, Option.bind_some, hempty level t ht] at hrow
        cases hrow
    · cases hop
  have hsuit : Use.Suit Suited (Line.cascade kind m capacity).stages uses := by
    intro i x hx t ht
    obtain ⟨rfl, hobserved, hlevel⟩ := huses i x hx
    rw [show (0 : Nat) = Level.minute.rank from rfl, cascade_stage] at ht
    obtain rfl := Option.some.inj ht
    exact ⟨hobserved.proper, Bucket.level_eq_ok_iff.1 hlevel, fun hne => absurd rfl hne⟩
  obtain ⟨states, b, hrun, hformed⟩ := Use.run_formed (cascade_upholding_formed kind m capacity) hinitial hsuit
    fun i x hx => (huses i x hx).2.1.proper
  refine ⟨states, b, hrun, fun level => ?_⟩
  obtain ⟨own, hown, hidle, hentries, hunfailed, htable⟩ := hformed.at (cascade_stage kind m capacity level)
  refine ⟨own, hown, fun id row hrow => ?_, ?_, hunfailed⟩
  · obtain ⟨op, hop, rfl, rfl⟩ := htable.rows id row hrow
    obtain ⟨writeKind, x, rfl, hx, hmeasure⟩ := htable.written op hop
    exact ⟨x, rfl, hx.read hmeasure, rfl, hmeasure, hx.wellFormed⟩
  · rintro w hw k x hx
    unfold Window.get? at hx
    rw [Option.map_eq_some_iff] at hx
    obtain ⟨a, ha, rfl⟩ := hx
    rcases hw with rfl | rfl
    · have hentered := hentries k a ha
      exact ⟨rfl, hentered.wellFormed, hentered.measure⟩
    · rw [hidle.empty] at ha
      cases ha

/-- A failed check and two calls of one minute, then a flush of the hours and one of all stages. -/
def checkAndCalls : List Use :=
  [.submit 0 (.share "checkout" ⟨202403151427⟩ false), .submit 0 (.count "cart" ⟨202403151427⟩ 2), .flush 1, .flushAll]

/-- Tables for calls, behind a gateway that refuses the batches of days. -/
def refusingDays : Backend := { store := callTables, faults := .refusing "down" [] [] ["calls_day"] }

/-- The check waits in the minutes until it is refused there; the calls reach the table of months past the days. -/
theorem cascade_wellFormed_checkAndCalls :
    ∃ states b, Use.run (.initial (Line.cascade "calls" .count 1).stages, refusingDays) checkAndCalls = .ok (states, b) ∧
      (b.store.row? "calls_month" "202403_cart").isSome ∧
      ∀ level : Level, ∃ own, states.toList[level.rank]? = some own ∧ own.tally.forwardFailures = 0 := by
  have hempty (level : Level) (t : Table) (ht : callTables.tables.get? (⟨"calls", .count, level⟩ : Layout).table = some t) :
      t.rows = ∅ := by
    obtain ⟨t', ht', hrows⟩ :=
      Store.createTables_empty (List.mem_map.2 ⟨level, by cases level <;> simp [Level.all], rfl⟩ :
        (⟨"calls", .count, level⟩ : Layout) ∈ Level.all.map fun level => (⟨"calls", .count, level⟩ : Layout)) {}
    exact Option.some.inj (ht.symm.trans ht') ▸ hrows
  have huses (i : Nat) (x : Indicator) (hx : Use.submit i x ∈ checkAndCalls) :
      i = 0 ∧ x.Observed ∧ x.key.bucket.level = .ok .minute := by
    simp only [checkAndCalls, List.mem_cons, Use.submit.injEq, reduceCtorEq, List.not_mem_nil, or_false] at hx
    rcases hx with ⟨rfl, rfl⟩ | ⟨rfl, rfl⟩
    · exact ⟨rfl, .share (by decide), by decide⟩
    · exact ⟨rfl, .count (by decide) (by decide), by decide⟩
  obtain ⟨states, b, hrun, h⟩ :=
    @cascade_wellFormed "calls" .count 1 callTables (.refusing "down" [] [] ["calls_day"]) (fun _ _ => .insertion)
      checkAndCalls hempty huses
  refine ⟨states, b, hrun, ?_, fun level => ?_⟩
  · have hrow : (Use.run (.initial (Line.cascade "calls" .count 1).stages, refusingDays) checkAndCalls).toOption.all
        (fun c => (c.2.store.row? "calls_month" "202403_cart").isSome) = true := by decide +kernel
    rw [show refusingDays = { store := callTables, faults := .refusing "down" [] [] ["calls_day"] } from rfl, hrun] at hrow
    exact hrow
  · obtain ⟨own, hown, -, -, hunfailed⟩ := h level
    exact ⟨own, hown, hunfailed⟩

end MetricCascade
