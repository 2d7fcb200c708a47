/-
What stages keep along a line. A stage upholds an invariant if every flush and every update keeps it, the next
stage being used as agreed and the work of other stages making no difference; then a line of such stages
upholds it throughout every run in which no call is aborted. The invariant may speak of the number of updates
that a stage was given, by calls from outside and by the stages that feed it.
-/
import MetricCascade.Proofs.Stage.Rules

namespace MetricCascade

namespace Stage

open Backend

variable {σ : Type} {s : Stage} {outlet : Option (Outlet σ)} {above : List Layout}

/-! ## One stage -/

/-- The next stage takes updates that suit its layout in the sense of `A`. `J` describes what is kept by it and
the stages below after so many of them; the stage `l` that hands them on can be told from these by its table. -/
structure Outlet.Honours (outlet : Option (Outlet σ)) (l : Layout) (A : Layout → Indicator → Prop)
    (J : Nat → σ → Backend → Prop) : Prop where
  apart : Outlet.Apart (fun m => m.table ≠ l.table) outlet
  takes {next : Outlet σ} : outlet = some next → ∀ {n : Nat} {x : Indicator} {below below' : σ} {b b' : Backend},
    J n below b → A next.layout x → next.submit x below b = (.ok (), below', b') → J (n + 1) below' b'
  aside {n : Nat} {below : σ} {b b' : Backend} : Aside (· = l) b b' → J n below b → J n below b'

/-- Every flush and every update of the stage keeps `I`, which sees the layout that it feeds, the number of
updates that it was given, its state and the backend. -/
structure Upholds (A : Layout → Indicator → Prop) (I : Stage → Option Layout → Nat → State → Backend → Prop)
    (s : Stage) (next : Option Layout) : Prop where
  flush {σ : Type} {outlet : Option (Outlet σ)} {J : Nat → σ → Backend → Prop} {above : List Layout} {n : Nat}
    {c d : Scene σ} {r : Except FlushError Bool} : outlet.map (·.layout) = next → Outlet.Honours outlet s.layout A J →
      I s next n c.own c.backend → J c.own.tally.forwarded c.below c.backend → s.flush outlet above c = (.ok r, d) →
      I s next n d.own d.backend ∧ J d.own.tally.forwarded d.below d.backend
  merge {σ : Type} {n : Nat} {x : Indicator} {c d : Scene σ} : A s.layout x → I s next n c.own c.backend →
    s.merge x c = (.ok (), d) → I s next (n + 1) d.own d.backend
  aside {n : Nat} {own : State} {b b' : Backend} : Aside (fun m => m.table ≠ s.layout.table) b b' →
    I s next n own b → I s next n own b'

variable {A : Layout → Indicator → Prop} {I : Stage → Option Layout → Nat → State → Backend → Prop}
  {J : Nat → σ → Backend → Prop} {next : Option Layout} {n : Nat} {x : Indicator} {c d : Scene σ}

/-- Merging touches no other stage and hands nothing on. -/
theorem merge_apart (h : s.merge x c = (.ok (), d)) :
    d.below = c.below ∧ d.own.tally.forwarded = c.own.tally.forwarded ∧ Aside (· = s.layout) c.backend d.backend := by
  unfold merge at h
  rcases hmerge : c.own.windows.merge x with ⟨fault | e | _, p⟩ <;> rw [hmerge] at h <;> cases h
  · exact ⟨rfl, rfl, aside_report c.backend rfl⟩
  · exact ⟨rfl, rfl, .refl _⟩

/-- With every flush and every merge, every update keeps the invariant. -/
theorem Upholds.submit (h : Upholds A I s next) (hlayout : outlet.map (·.layout) = next)
    (hout : Outlet.Honours outlet s.layout A J) (hx : A s.layout x) (hI : I s next n c.own c.backend)
    (hJ : J c.own.tally.forwarded c.below c.backend) (hsubmit : s.submit outlet above x c = (.ok (), d)) :
    I s next (n + 1) d.own d.backend ∧ J d.own.tally.forwarded d.below d.backend := by
  refine submit_rule (K := fun e => I s next n e.own e.backend ∧ J e.own.tally.forwarded e.below e.backend)
    (L := fun e => I s next (n + 1) e.own e.backend ∧ J e.own.tally.forwarded e.below e.backend) ⟨hI, hJ⟩
    (fun r e hflush => h.flush hlayout hout hI hJ hflush) ?_ ?_ hsubmit
  · rintro e cause ⟨hI', hJ'⟩
    exact ⟨h.aside (aside_report e.backend rfl) hI', hout.aside (aside_report e.backend rfl) hJ'⟩
  · rintro e e' ⟨hI', hJ'⟩ hmerge
    obtain ⟨hbelow, hforwarded, haside⟩ := merge_apart hmerge
    refine ⟨h.merge hx hI' hmerge, ?_⟩
    rw [hbelow, hforwarded]
    exact hout.aside haside hJ'

/-! ## Lines -/

/-- The layout of the stage that `s` feeds, among the stages `rest` below it. -/
def fed? (s : Stage) (rest : List Stage) : Option Layout := s.next.bind fun j => (rest[j]?).map (·.layout)

theorem downstream_layout (s : Stage) (rest : List Stage) (above : List Layout) :
    (s.downstream rest above).map (·.layout) = s.fed? rest := by
  unfold downstream outlet fed?
  cases s.next with
  | none => rfl
  | some j =>
    rw [Option.bind_some, Option.bind_some]
    cases rest[j]? <;> rfl

/-- How many updates the stages below were given, if those from elsewhere are `given` to the stages of the line
and `s` has handed on so many. -/
def feeding (s : Stage) (handed : Nat) (given : Nat → Nat) (j : Nat) : Nat :=
  given (j + 1) + if s.next = some j then handed else 0

/-- One more update for the stage at a position. -/
def oneMore (given : Nat → Nat) (i : Nat) : Nat → Nat := Function.update given i (given i + 1)

theorem feeding_oneMore (s : Stage) (handed : Nat) (given : Nat → Nat) (i : Nat) :
    s.feeding handed (oneMore given (i + 1)) = oneMore (s.feeding handed given) i := by
  funext j
  unfold feeding oneMore
  simp only [Function.update_apply, Nat.add_right_cancel_iff]
  split
  · rename_i hj
    rw [hj, Nat.add_right_comm]
  · rfl

/-- What is handed on is one more update for the stage that is fed. -/
theorem feeding_succ {j : Nat} (hj : s.next = some j) (handed : Nat) (given : Nat → Nat) :
    s.feeding (handed + 1) given = oneMore (s.feeding handed given) j := by
  funext k
  simp only [feeding, oneMore, Function.update_apply, hj, Option.some.injEq]
  by_cases hk : k = j
  · subst hk
    simp only [if_true, Nat.add_assoc]
  · rw [if_neg hk, if_neg (Ne.symm hk), if_neg (Ne.symm hk)]

/-- Every stage has the invariant `I` when so many updates from outside were given to the stages. -/
def States.Upheld (I : Stage → Option Layout → Nat → State → Backend → Prop) :
    {stages : List Stage} → (given : Nat → Nat) → States stages → Backend → Prop
  | [], _, (), _ => True
  | s :: rest, given, (own, below), b =>
    I s (s.fed? rest) (given 0) own b ∧ below.Upheld I (s.feeding own.tally.forwarded given) b

/-- Stages that uphold an invariant, each with a table that no stage below it has. -/
def Upholding (A : Layout → Indicator → Prop) (I : Stage → Option Layout → Nat → State → Backend → Prop) :
    List Stage → Prop
  | [] => True
  | s :: rest => Upholds A I s (s.fed? rest) ∧ (∀ t ∈ rest, t.layout.table ≠ s.layout.table) ∧ Upholding A I rest

/-- The work of stages with other tables makes no difference to a line. -/
theorem States.Upheld.aside {P : Layout → Prop} {b b' : Backend} (hb : Aside P b b') :
    ∀ {stages : List Stage} {given : Nat → Nat} {states : States stages}, Upholding A I stages →
      (∀ l, P l → ∀ t ∈ stages, l.table ≠ t.layout.table) → states.Upheld I given b → states.Upheld I given b'
  | [], _, (), _, _, _ => trivial
  | _ :: _, _, _, hstages, hP, h =>
    ⟨hstages.1.aside (hb.mono fun l hl => hP l hl _ (List.mem_cons_self ..)) h.1,
      h.2.aside hb hstages.2.2 fun l hl t ht => hP l hl t (List.mem_cons_of_mem _ ht)⟩

/-- The stages below are as the first stage needs them, if they take their updates. -/
theorem downstream_honours {rest : List Stage} (hstages : Upholding A I (s :: rest))
    (htake : ∀ (above : List Layout) (i : Nat) (x : Indicator) (given : Nat → Nat) (below below' : States rest)
      (b b' : Backend), below.Upheld I given b → (∀ t, rest[i]? = some t → A t.layout x) →
      submitIn rest above i x below b = (.ok (), below', b') → below'.Upheld I (oneMore given i) b')
    (above : List Layout) (given : Nat → Nat) :
    Outlet.Honours (s.downstream rest above) s.layout A
      fun n below b => States.Upheld I (s.feeding n given) below b where
  apart next hnext x below b below' b' h := by
    refine (downstream_apart s rest above next hnext x below b below' b' h).mono ?_
    rintro l ⟨t, ht, rfl⟩
    exact hstages.2.1 t ht
  takes {next} hnext n x below below' b b' hJ hx h := by
    obtain ⟨j, t, hj, ht, rfl⟩ := outlet_eq_some hnext
    rw [feeding_succ hj]
    refine htake _ j x _ below below' b b' hJ (fun t' ht' => ?_) h
    rw [ht] at ht'
    exact Option.some.inj ht' ▸ hx
  aside hb hJ := hJ.aside hb hstages.2.2 fun l hl t ht => hl ▸ (hstages.2.1 t ht).symm

/-- An update that suits the stage it is for is one more for that stage. -/
theorem submitIn_upheld : ∀ {stages : List Stage}, Upholding A I stages → ∀ (above : List Layout) (i : Nat)
    (x : Indicator) (given : Nat → Nat) (states states' : States stages) (b b' : Backend), states.Upheld I given b →
    (∀ t, stages[i]? = some t → A t.layout x) → submitIn stages above i x states b = (.ok (), states', b') →
      states'.Upheld I (oneMore given i) b'
  | [], _, _, _, _, _, _, _, _, _, _, _, _ => trivial
  | s :: rest, hstages, above, 0, x, given, states, states', b, b', h, hx, hsubmit => by
    have hhonours := downstream_honours hstages (submitIn_upheld hstages.2.2) above given
    rw [submitIn_head] at hsubmit
    rcases hown : s.submit (s.downstream rest above) above x ⟨states.1, states.2, b⟩ with ⟨r, d⟩
    rw [hown] at hsubmit
    cases hsubmit
    obtain ⟨hI, hJ⟩ := hstages.1.submit (downstream_layout s rest above) hhonours (hx s rfl) h.1 h.2 hown
    exact ⟨hI, hJ⟩
  | s :: rest, hstages, above, i + 1, x, given, states, states', b, b', h, hx, hsubmit => by
    rw [submitIn_tail] at hsubmit
    rcases hbelow : submitIn rest above i x states.2 b with ⟨r, below', b₂⟩
    rw [hbelow] at hsubmit
    cases hsubmit
    have haside : Aside (fun m => m.table ≠ s.layout.table) b b' :=
      (submitIn_aside rest above i x states.2 b _ _ hbelow).mono fun l ⟨t, ht, hl⟩ => hl ▸ hstages.2.1 t ht
    have hrest := submitIn_upheld hstages.2.2 above i x _ states.2 _ b _ h.2 (fun t ht => hx t ht) hbelow
    rw [← feeding_oneMore] at hrest
    exact ⟨hstages.1.aside haside h.1, hrest⟩

/-- A flush of the first stage keeps the invariants. -/
theorem flushHead_upheld {rest : List Stage} (hstages : Upholding A I (s :: rest)) {given : Nat → Nat}
    {states : States (s :: rest)} {b : Backend} {r : Except FlushError Bool} {d : Scene (States rest)}
    (h : states.Upheld I given b) (hflush : s.flushHead rest states b = (.ok r, d)) :
    I s (s.fed? rest) (given 0) d.own d.backend ∧ d.below.Upheld I (s.feeding d.own.tally.forwarded given) d.backend :=
  hstages.1.flush (c := ⟨states.1, states.2, b⟩) (downstream_layout s rest [])
    (downstream_honours hstages (submitIn_upheld hstages.2.2) [] given) h.1 h.2 hflush

theorem flushIn_upheld : ∀ {stages : List Stage}, Upholding A I stages → ∀ (i : Nat) (given : Nat → Nat)
    (states states' : States stages) (b b' : Backend) (r : Except FlushError Bool), states.Upheld I given b →
    flushIn stages i states b = (.ok r, states', b') → states'.Upheld I given b'
  | [], _, _, _, _, _, _, _, _, _, _ => trivial
  | s :: rest, hstages, 0, given, states, states', b, b', r, h, hflush => by
    rw [flushIn_head] at hflush
    rcases hhead : s.flushHead rest states b with ⟨r', d⟩
    rw [hhead] at hflush
    cases hflush
    exact flushHead_upheld hstages h hhead
  | s :: rest, hstages, i + 1, given, states, states', b, b', r, h, hflush => by
    rw [flushIn_tail] at hflush
    rcases hbelow : flushIn rest i states.2 b with ⟨r', below', b₂⟩
    rw [hbelow] at hflush
    cases hflush
    have haside : Aside (fun m => m.table ≠ s.layout.table) b b' :=
      (flushIn_aside rest i states.2 b hbelow).mono fun l ⟨t, ht, hl⟩ => hl ▸ hstages.2.1 t ht
    exact ⟨hstages.1.aside haside h.1, flushIn_upheld hstages.2.2 i _ states.2 _ b _ _ h.2 hbelow⟩

theorem flushAllIn_upheld : ∀ {stages : List Stage}, Upholding A I stages → ∀ (given : Nat → Nat)
    (states states' : States stages) (b b' : Backend) (r : Except FlushError Unit), states.Upheld I given b →
    flushAllIn stages states b = (.ok r, states', b') → states'.Upheld I given b'
  | [], _, _, _, _, _, _, _, _, _ => trivial
  | s :: rest, hstages, given, states, states', b, b', r, h, hflush => by
    -- the head has been flushed, and has reported its error if it met one
    have hrest {d : Scene (States rest)} {b₁ b₂ : Backend} {below' : States rest} {r' : Except FlushError Unit}
        (hI : I s (s.fed? rest) (given 0) d.own d.backend)
        (hJ : d.below.Upheld I (s.feeding d.own.tally.forwarded given) d.backend)
        (hreport : ∀ P, Aside P d.backend b₁) (hall : flushAllIn rest d.below b₁ = (.ok r', below', b₂)) :
        @States.Upheld I (s :: rest) given (d.own, below') b₂ := by
      have haside : Aside (fun m => m.table ≠ s.layout.table) d.backend b₂ :=
        (hreport _).trans ((flushAllIn_aside rest d.below b₁ hall).mono fun l ⟨t, ht, hl⟩ => hl ▸ hstages.2.1 t ht)
      have hJ' := hJ.aside (P := fun _ => False) (hreport _) hstages.2.2 fun _ hl => hl.elim
      exact ⟨hstages.1.aside haside hI, flushAllIn_upheld hstages.2.2 _ d.below below' b₁ b₂ r' hJ' hall⟩
    rw [flushAllIn_cons] at hflush
    rcases hhead : s.flushHead rest states b with ⟨fault | e | swapped, d⟩ <;> rw [hhead] at hflush <;>
      dsimp only at hflush
    · cases hflush
    · obtain ⟨hI, hJ⟩ := flushHead_upheld hstages h hhead
      rcases hall : flushAllIn rest d.below (d.backend.record (.flushFailed e)) with ⟨fault | r', below', b₂⟩ <;>
        rw [hall] at hflush <;> cases hflush
      exact hrest hI hJ (fun _ => aside_report d.backend rfl) hall
    · obtain ⟨hI, hJ⟩ := flushHead_upheld hstages h hhead
      rcases hall : flushAllIn rest d.below d.backend with ⟨r', below', b₂⟩
      rw [hall] at hflush
      cases hflush
      exact hrest hI hJ (fun _ => .refl _) hall

theorem States.upheld_initial {b : Backend} : ∀ {stages : List Stage}, (∀ s ∈ stages, ∀ next, I s next 0 {} b) →
    (States.initial stages).Upheld I (fun _ => 0) b
  | [], _ => trivial
  | s :: rest, h => by
    refine ⟨h s (List.mem_cons_self ..) _, ?_⟩
    have hzero : s.feeding 0 (fun _ => 0) = fun _ => 0 := by
      funext j
      unfold feeding
      split <;> rfl
    show (States.initial rest).Upheld I (s.feeding 0 fun _ => 0) b
    rw [hzero]
    exact States.upheld_initial fun t ht => h t (List.mem_cons_of_mem _ ht)

/-- The number of updates that the stages above have handed on to the stage at a position. -/
def States.handedTo : {stages : List Stage} → States stages → Nat → Nat
  | [], (), _ => 0
  | _ :: _, _, 0 => 0
  | s :: _, (own, below), i + 1 => (if s.next = some i then own.tally.forwarded else 0) + below.handedTo i

/-- What is upheld of the stage at a position. -/
theorem States.Upheld.at {b : Backend} : ∀ {stages : List Stage} {given : Nat → Nat} {states : States stages},
    states.Upheld I given b → ∀ {i : Nat} {t : Stage}, stages[i]? = some t →
      ∃ own, states.toList[i]? = some own ∧ I t (t.fed? (stages.drop (i + 1))) (given i + states.handedTo i) own b
  | s :: rest, given, (own, below), h, 0, t, ht => by
    obtain rfl : s = t := Option.some.inj ht
    exact ⟨own, rfl, h.1⟩
  | s :: rest, given, (own, below), h, i + 1, t, ht => by
    obtain ⟨own', hown, hI⟩ := h.2.at (i := i) ht
    refine ⟨own', hown, ?_⟩
    have hgiven : s.feeding own.tally.forwarded given i + below.handedTo i =
        given (i + 1) + @States.handedTo (s :: rest) (own, below) (i + 1) := Nat.add_assoc ..
    rw [← hgiven]
    exact hI

/-! ## Runs -/

namespace Use

variable {stages : List Stage}

/-- A use of stages and what they share, unless a fault aborts it. -/
def attempt (c : States stages × Backend) : Use → Outcome (States stages × Backend)
  | submit i x => (submitIn stages [] i x c.1 c.2).1.map fun _ => (submitIn stages [] i x c.1 c.2).2
  | flush i => (flushIn stages i c.1 c.2).1.map fun _ => (flushIn stages i c.1 c.2).2
  | flushAll => (flushAllIn stages c.1 c.2).1.map fun _ => (flushAllIn stages c.1 c.2).2

/-- Uses one after the other, up to the first that a fault aborts. -/
def run (c : States stages × Backend) : List Use → Outcome (States stages × Backend)
  | [] => .ok c
  | u :: rest => do run (← attempt c u) rest

/-- The use is an update for the stage at a position. -/
def isFor (i : Nat) : Use → Bool
  | submit j _ => j = i
  | flush _ => false
  | flushAll => false

/-- The number of updates for the stage at a position. -/
def given (uses : List Use) (i : Nat) : Nat := uses.countP (isFor i)

/-- Every update suits the stage it is for. -/
def Suit (A : Layout → Indicator → Prop) (stages : List Stage) (uses : List Use) : Prop :=
  ∀ i x, submit i x ∈ uses → ∀ t, stages[i]? = some t → A t.layout x

theorem attempt_upheld (hstages : Upholding A I stages) {given : Nat → Nat} {states states' : States stages}
    {b b' : Backend} (h : states.Upheld I given b) {u : Use} (hu : Suit A stages [u])
    (hok : attempt (states, b) u = .ok (states', b')) : states'.Upheld I (fun i => given i + Use.given [u] i) b' := by
  cases u with
  | submit i x =>
    rcases hsubmit : submitIn stages [] i x states b with ⟨fault | _, states₂, b₂⟩ <;>
      simp only [attempt, hsubmit] at hok <;> cases hok
    have hone : (fun j => given j + Use.given [submit i x] j) = oneMore given i := by
      funext j
      simp only [Use.given, List.countP_singleton, isFor, decide_eq_true_eq, oneMore, Function.update_apply, eq_comm (a := i)]
      split
      · rename_i hj
        rw [hj]
      · rfl
    rw [hone]
    exact submitIn_upheld hstages [] i x given states states' b b' h (hu i x (List.mem_singleton_self _)) hsubmit
  | flush i =>
    rcases hflush : flushIn stages i states b with ⟨fault | _, states₂, b₂⟩ <;>
      simp only [attempt, hflush] at hok <;> cases hok
    exact flushIn_upheld hstages i given states states' b b' _ h hflush
  | flushAll =>
    rcases hflush : flushAllIn stages states b with ⟨fault | _, states₂, b₂⟩ <;>
      simp only [attempt, hflush] at hok <;> cases hok
    exact flushAllIn_upheld hstages given states states' b b' _ h hflush

/-- A run in which no use is aborted keeps the invariants. -/
theorem run_upheld (hstages : Upholding A I stages) {uses : List Use} {given : Nat → Nat}
    {states states' : States stages} {b b' : Backend} (h : states.Upheld I given b) (hsuit : Suit A stages uses)
    (hrun : run (states, b) uses = .ok (states', b')) :
    states'.Upheld I (fun i => given i + Use.given uses i) b' := by
  induction uses generalizing given states b with
  | nil =>
    cases hrun
    exact h
  | cons u rest ih =>
    unfold run at hrun
    rcases hattempt : attempt (states, b) u with fault | ⟨states₂, b₂⟩ <;> rw [hattempt] at hrun
    · cases hrun
    · have hone : Suit A stages [u] := fun i x hx => hsuit i x (List.mem_singleton.1 hx ▸ List.mem_cons_self ..)
      have hrest := ih (attempt_upheld hstages h hone hattempt) (fun i x hx => hsuit i x (List.mem_cons_of_mem _ hx)) hrun
      have hcount : (fun i => given i + Use.given [u] i + Use.given rest i) = fun i => given i + Use.given (u :: rest) i := by
        funext i
        simp only [Use.given, List.countP_cons, List.countP_nil]
        omega
      rwa [hcount] at hrest

end Use

end Stage

end MetricCascade
