/-
A window as a map of folds. Calls on one window are logged with their answers, and the log tells which
updates were accepted since the window was last drained. The entry of a key is the fold of those under the
key. An update is rejected for its form alone, and then the window is what it was.
-/
import MetricCascade.Proofs.Metric.Stepwise
import MetricCascade.Proofs.Window.Gathered

namespace MetricCascade

namespace Window

open Indicator

/-! ## Calls and their log -/

inductive Call where
  | merge (x : Indicator)
  | get (k : Key)
  | drain (order : DrainOrder)

inductive Reply where
  | merged (outcome : Outcome (Except CombineError Unit))
  | found (entry : Option Indicator)
  | drained (entries : List Indicator)

def ask (w : Window) : Call → Reply × Window
  | .merge x => (.merged (w.merge x).1, (w.merge x).2)
  | .get k => (.found (w.get? k), w)
  | .drain order => (.drained (w.drain order).1, (w.drain order).2)

/-- A fault broke the call off. -/
def Reply.isFault : Reply → Bool
  | .merged (.error _) => true
  | _ => false

/-- Calls with their answers, latest first. -/
abbrev Log := List (Call × Reply)

namespace Log

/-- The updates that were accepted since the last drain, oldest first. -/
def accepted : Log → List Indicator
  | [] => []
  | (.merge x, .merged (.ok (.ok ()))) :: before => accepted before ++ [x]
  | (.drain _, _) :: _ => []
  | _ :: before => accepted before

/-- No call was broken off. -/
def Smooth (log : Log) : Prop := ∀ e ∈ log, e.2.isFault = false

instance (log : Log) : Decidable log.Smooth := inferInstanceAs (Decidable (∀ e ∈ log, e.2.isFault = false))

end Log

/-- One call after those of a log. -/
def advance (c : Log × Window) (call : Call) : Log × Window := ((call, (c.2.ask call).1) :: c.1, (c.2.ask call).2)

/-- Calls, one after the other, on a fresh window. -/
def replay (calls : List Call) : Log × Window := calls.foldl advance ([], {})

theorem replay_append (calls : List Call) (call : Call) : replay (calls ++ [call]) = advance (replay calls) call := by
  simp [replay]

/-! ## What every call keeps -/

variable {log : Log} {w : Window} {x : Indicator}

/-- The window holds the folds of what the log says was accepted, and no entry is missing. -/
structure Folding (log : Log) (w : Window) : Prop where
  entry : ∀ k, w.get? k = folded (under k log.accepted)
  missing : ∀ k, w.get? k = none → under k log.accepted = []
  counted : w.Counted

theorem folding_initial : Folding [] {} where
  entry _ := rfl
  missing _ _ := rfl
  counted := rfl

theorem get?_eq_some {k : Key} {y : Indicator} : w.get? k = some y ↔ y.key = k ∧ w.view k = some y.value := by
  unfold get? view
  rw [Option.map_eq_some_iff]
  constructor
  · rintro ⟨a, ha, rfl⟩
    exact ⟨rfl, ha⟩
  · rintro ⟨rfl, hy⟩
    exact ⟨y.value, hy, rfl⟩

/-- An update is rejected for its form alone. -/
theorem merge_isRejected_iff :
    (∃ e, (w.merge x).1 = .ok (.error e)) ↔ ∃ y, w.get? x.key = some y ∧ y.value.form ≠ x.value.form := by
  have hcases := merge_cases w x
  generalize w.merge x = result at hcases
  simp only [get?_eq_some, ← Aggregate.combine_isError_iff]
  constructor
  · rintro ⟨e, he⟩
    cases hcases with
    | @misfit old cause hold hjoin => exact ⟨⟨x.key, old⟩, ⟨rfl, hold⟩, cause, hjoin⟩
    | _ => cases he
  · rintro ⟨y, ⟨-, hy⟩, e, he⟩
    cases hcases with
    | misfit => exact ⟨_, rfl⟩
    | first hold hfresh => rw [hold] at hy; cases hy
    | barred hold hfresh => rw [hold] at hy; cases hy
    | joined hold hjoin hfresh => rw [hold] at hy; cases hy; rw [hjoin] at he; cases he
    | broken hold hjoin hfresh => rw [hold] at hy; cases hy; rw [hjoin] at he; cases he

theorem merge_get?_of_ne (w : Window) {k : Key} (hk : k ≠ x.key) : (w.merge x).2.get? k = w.get? k := by
  show ((w.merge x).2.view k).map _ = (w.view k).map _
  rw [merge_view, Function.update_of_ne hk]

/-- The entry that an accepted update leads to is the fold with the update as the last one. -/
theorem Folding.accept_entry (h : Folding log w) (hok : (w.merge x).1 = .ok (.ok ())) :
    ∃ y, (w.merge x).2.get? x.key = some y ∧ folded (under x.key log.accepted ++ [x]) = some y := by
  have hcases := merge_cases w x
  generalize w.merge x = result at hcases hok ⊢
  cases hcases <;> cases hok
  case first fresh hold hfresh =>
    refine ⟨⟨x.key, fresh⟩, ?_, ?_⟩
    · simp [get?]
    · have hnone : w.get? x.key = none := congrArg (Option.map (Indicator.mk x.key)) hold
      rw [h.missing x.key hnone]
      have hfirst : x.refresh.toOption = some ⟨x.key, fresh⟩ := refresh_eq_some.2 ⟨rfl, hfresh⟩
      simp [folded, hfirst]
  case joined old joined fresh hold hjoin hfresh =>
    have hentry : folded (under x.key log.accepted) = some ⟨x.key, old⟩ := by
      rw [← h.entry]
      exact get?_eq_some.2 ⟨rfl, hold⟩
    have hne : under x.key log.accepted ≠ [] := by
      intro hnil
      rw [hnil] at hentry
      cases hentry
    refine ⟨⟨x.key, fresh⟩, ?_, ?_⟩
    · simp [get?]
    · rw [folded_append hne, hentry]
      exact joined?_eq_some.2 ⟨rfl, rfl, joined, hjoin, hfresh⟩

/-- An accepted update is folded into the entry of its key, and no other entry changes. -/
theorem Folding.accept (h : Folding log w) (hok : (w.merge x).1 = .ok (.ok ())) :
    Folding ((.merge x, .merged (.ok (.ok ()))) :: log) (w.merge x).2 := by
  obtain ⟨y, hentry, hfolded⟩ := h.accept_entry hok
  refine ⟨fun k => ?_, fun k hnone => ?_, (merge_counted h.counted x).1⟩ <;> rw [Log.accepted, under_append]
  · by_cases hk : k = x.key
    · subst hk
      rw [under_singleton, hentry, hfolded]
    · rw [under_singleton_of_ne hk, List.append_nil, merge_get?_of_ne w hk]
      exact h.entry k
  · have hk : k ≠ x.key := by
      rintro rfl
      rw [hentry] at hnone
      cases hnone
    rw [merge_get?_of_ne w hk] at hnone
    rw [under_singleton_of_ne hk, h.missing k hnone, List.append_nil]

theorem Folding.ask (h : Folding log w) {call : Call} (hsmooth : (w.ask call).1.isFault = false) :
    Folding ((call, (w.ask call).1) :: log) (w.ask call).2 := by
  cases call with
  | merge x =>
    simp only [Window.ask] at hsmooth ⊢
    rcases houtcome : (w.merge x).1 with fault | (e | _)
    · rw [houtcome] at hsmooth
      cases hsmooth
    · rw [merge_rejected houtcome]
      exact ⟨h.entry, h.missing, h.counted⟩
    · exact h.accept houtcome
  | get k => exact ⟨h.entry, h.missing, h.counted⟩
  | drain order => exact ⟨fun _ => rfl, fun _ _ => rfl, rfl⟩

theorem folding_replay {calls : List Call} (hsmooth : (replay calls).1.Smooth) :
    Folding (replay calls).1 (replay calls).2 := by
  induction calls using List.reverseRecOn with
  | nil => exact folding_initial
  | append_singleton calls call ih =>
    rw [replay_append] at hsmooth ⊢
    obtain ⟨hcall, hbefore⟩ := List.forall_mem_cons.1 hsmooth
    exact (ih hbefore).ask hcall

/-- Wherever calls lead on a fresh window, if none is broken off, the entry of a key is the fold of the
updates accepted under it since the last drain, there is one if there was any such update, and the size is
the number of entries. The figure of an entry is calculated, and combining all of the updates and
calculating once gives the same entry, or one with another figure if none can be read off. The next update
is rejected if and only if there is an entry of its key and of another form, and then the window is what it
was; if it is accepted, its entry becomes the fold with the update as the last one, and no other changes.
Draining, in whatever order, takes every entry once and leaves none. -/
theorem entries_are_folds (calls : List Call) (hsmooth : (replay calls).1.Smooth) :
    let (log, w) := replay calls
    (∀ k, w.get? k = folded (under k log.accepted) ∧ (w.get? k = none ↔ under k log.accepted = [])) ∧
    (∀ k y, w.get? k = some y → y.refresh = .ok y ∧ (combineAll (under k log.accepted) = some y ∨
      ¬y.value.Readable ∧ ∃ n, combineAll (under k log.accepted) = some (y.setFigure n))) ∧
    w.size = w.entries.size ∧
    (∀ x, (∃ e, (w.merge x).1 = .ok (.error e)) ↔ ∃ y, w.get? x.key = some y ∧ y.value.form ≠ x.value.form) ∧
    (∀ x e, (w.merge x).1 = .ok (.error e) → (w.merge x).2 = w) ∧
    (∀ x, (w.merge x).1 = .ok (.ok ()) →
      (∃ y, (w.merge x).2.get? x.key = some y ∧ folded (under x.key log.accepted ++ [x]) = some y) ∧
      ∀ k, k ≠ x.key → (w.merge x).2.get? k = w.get? k) ∧
    ∀ order, ((w.drain order).1.map (·.key)).Nodup ∧ (∀ x, x ∈ (w.drain order).1 ↔ w.get? x.key = some x) ∧
      (w.drain order).2.entries = ∅ ∧ (w.drain order).2.size = 0 := by
  have h := folding_replay hsmooth
  generalize replay calls = result at h
  obtain ⟨log, w⟩ := result
  dsimp only at h ⊢
  refine ⟨fun k => ⟨h.entry k, h.missing k, fun hnil => ?_⟩, fun k y hy => ?_, h.counted,
    fun x => merge_isRejected_iff, fun x e => merge_rejected, fun x hok => ⟨h.accept_entry hok, ?_⟩,
    fun order => ⟨(w.lists_drain order).1, fun x => ?_, rfl, rfl⟩⟩
  · rw [h.entry k, hnil]
    rfl
  · rw [h.entry k] at hy
    exact folded_spec hy
  · intro k hk
    exact merge_get?_of_ne w hk
  · rw [get?_eq_some, eq_self, true_and]
    exact (w.lists_drain order).2 x

/-- A window that was drained once, then took two updates of an average with a count in between, and a
percentile after which one of another width came. -/
def twoRounds : List Call :=
  let minute : Bucket := ⟨202403151427⟩
  [.merge (.count "checkout" minute 4), .drain .insertion,
    .merge (.average "checkout" minute 9),
    .merge (.count "checkout" minute 1),
    .merge ⟨⟨"checkout", minute⟩, .average ⟨7, 2, 99⟩⟩,
    .get ⟨"checkout", minute⟩,
    .merge (.percentile "cart" minute 120 10 90),
    .merge (.percentile "cart" minute 120 20 90)]

theorem entries_are_folds_twoRounds :
    let minute : Bucket := ⟨202403151427⟩
    (replay twoRounds).1.Smooth ∧
    (replay twoRounds).2.get? ⟨"checkout", minute⟩ = some ⟨⟨"checkout", minute⟩, .average ⟨16, 3, 5⟩⟩ ∧
    (replay twoRounds).2.get? ⟨"cart", minute⟩ =
      some ⟨⟨"cart", minute⟩, .percentile ⟨10, 90, [⟨12, 1⟩], 120⟩⟩ ∧
    ((replay twoRounds).2.merge (.share "cart" minute true)).2 = (replay twoRounds).2 := by
  have hsmooth : (replay twoRounds).1.Smooth := by decide
  obtain ⟨hentries, -, -, hrejects, hunchanged, -⟩ := entries_are_folds twoRounds hsmooth
  have hcheckout := (hentries ⟨"checkout", ⟨202403151427⟩⟩).1.trans
    (show _ = some ⟨⟨"checkout", ⟨202403151427⟩⟩, .average ⟨16, 3, 5⟩⟩ by decide)
  have hcart := (hentries ⟨"cart", ⟨202403151427⟩⟩).1.trans
    (show _ = some ⟨⟨"cart", ⟨202403151427⟩⟩, .percentile ⟨10, 90, [⟨12, 1⟩], 120⟩⟩ by decide)
  obtain ⟨e, he⟩ := (hrejects (.share "cart" ⟨202403151427⟩ true)).2 ⟨_, hcart, by decide⟩
  exact ⟨hsmooth, hcheckout, hcart, hunchanged _ e he⟩

end Window

end MetricCascade
