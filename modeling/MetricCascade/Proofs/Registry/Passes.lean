/-
Flushes of a whole registry. Whatever updates and flushes came before, and whatever the gateway refuses, a pass
that is not aborted leaves nothing waiting in any line, and another one right after it calls nobody and changes
nothing.
-/
import MetricCascade.Proofs.Registry.Tables
import MetricCascade.Proofs.Stage.Cleared

namespace MetricCascade

/-! ## Requests -/

/-- What a registry is asked to do. -/
inductive Request where
  | submit (kind : String) (x : Indicator)
  /-- A flush of the line of one kind. -/
  | flush (kind : String)
  /-- A flush of every line. -/
  | flushAll

/-- What a request leaves. -/
def Request.perform (r : Registry) : Request → Registry
  | submit kind x => (r.submit kind x).2
  | flush kind => (r.onLine kind Line.flush).2
  | flushAll => r.flushAll.2

namespace Registry

open Stage

/-- What requests leave, one after the other. -/
def served (r : Registry) (requests : List Request) : Registry := requests.foldl Request.perform r

variable {capacity : Nat} {kinds : List Kind} {backend : Backend} {r r' : Registry}

/-- A built registry has the cascade of each of its kinds, in order. -/
theorem build_lines (h : build (some backend) capacity kinds = .ok r) :
    r.backend = backend ∧ r.lines.keys = kinds.map (·.1) ∧
      ∀ k ∈ kinds, r.lines.get? k.1 = some (.cascade k.1 k.2 capacity) := by
  obtain ⟨r', hr', hbackend, hkeys, hlines, -⟩ :=
    @registerAll_ok capacity kinds { backend } (build_layouts h).2.2 fun _ _ => rfl
  obtain rfl : r' = r := Except.ok.inj (hr'.symm.trans h)
  exact ⟨hbackend, hkeys, hlines⟩

theorem mem_keys_of_get? {kind : String} {line : Line} (h : r.lines.get? kind = some line) : kind ∈ r.lines.keys :=
  List.mem_map.2 ⟨(kind, line), Dict.get?_eq_some_iff.1 h, rfl⟩

/-- The cascade of a kind is the only line of a built registry under its name. -/
theorem build_line {kind : String} {line : Line} (h : build (some backend) capacity kinds = .ok r)
    (hline : r.lines.get? kind = some line) : ∃ m, (kind, m) ∈ kinds ∧ line = .cascade kind m capacity := by
  obtain ⟨-, hkeys, hlines⟩ := build_lines h
  have hkind := mem_keys_of_get? hline
  rw [hkeys, List.mem_map] at hkind
  obtain ⟨⟨_, m⟩, hk, rfl⟩ := hkind
  exact ⟨m, hk, Option.some.inj (hline.symm.trans (hlines _ hk))⟩

/-! ## Single lines -/

variable {α : Type} {f : Line → Backend → α × Line × Backend} {P : Line → Prop}

/-- Every line is one of `P`. -/
def Each (P : Line → Prop) (r : Registry) : Prop := ∀ kind line, r.lines.get? kind = some line → P line

/-- What happens on a line keeps the names, and every other line. -/
theorem onLine_lines (f : Line → Backend → α × Line × Backend) (r : Registry) (kind : String) :
    (r.onLine kind f).2.lines.keys = r.lines.keys ∧
      ∀ name, name ≠ kind → (r.onLine kind f).2.lines.get? name = r.lines.get? name := by
  unfold onLine
  cases hline : r.lines.get? kind with
  | none => exact ⟨rfl, fun _ _ => rfl⟩
  | some line =>
    refine ⟨?_, fun name hname => Dict.get?_insert_of_ne _ _ hname⟩
    dsimp only
    rw [Dict.keys_insert]
    unfold Dict.contains
    rw [hline, if_pos Option.isSome_some]

theorem onLine_some {kind : String} {line : Line} (h : r.lines.get? kind = some line) :
    r.onLine kind f = (some (f line r.backend).1,
      { lines := r.lines.insert kind (f line r.backend).2.1, backend := (f line r.backend).2.2 }) := by
  unfold onLine
  rw [h]

theorem onLine_each (hf : ∀ line b, P line → P (f line b).2.1) (h : r.Each P) (kind : String) :
    (r.onLine kind f).2.Each P := by
  intro name line hline
  by_cases hname : name = kind
  · subst hname
    cases hold : r.lines.get? name with
    | none =>
      unfold onLine at hline
      rw [hold] at hline
      exact h name line hline
    | some old =>
      rw [onLine_some hold] at hline
      obtain rfl := Option.some.inj ((Dict.get?_insert_self ..).symm.trans hline)
      exact hf old r.backend (h name old hold)
  · rw [(onLine_lines f r kind).2 name hname] at hline
    exact h name line hline

theorem submit_lines (r : Registry) (kind : String) (x : Indicator) :
    (r.submit kind x).2 = (r.onLine kind (·.submit x)).2 := by
  unfold submit
  rcases r.onLine kind (·.submit x) with ⟨_ | outcome, r'⟩ <;> rfl

theorem flushAll_lines (r : Registry) : r.flushAll.2.lines = (flushLines r.lines.keys r).2.lines := by
  unfold flushAll
  rcases flushLines r.lines.keys r with ⟨fault | e | _, r'⟩ <;> rfl

/-- What every update and every flush of a line keeps, and every report, holds after any requests. -/
theorem served_rule {Q : Registry → Prop} (submitted : ∀ kind x r, Q r → Q (r.onLine kind (·.submit x)).2)
    (flushed : ∀ kind r, Q r → Q (r.onLine kind Line.flush).2) (recorded : ∀ e r, Q r → Q (r.record e))
    (requests : List Request) (h : Q r) : Q (r.served requests) := by
  unfold served
  induction requests generalizing r with
  | nil => exact h
  | cons request requests ih =>
    apply ih
    cases request with
    | submit kind x =>
      show Q (r.submit kind x).2
      rw [submit_lines]
      exact submitted kind x r h
    | flush kind => exact flushed kind r h
    | flushAll =>
      have hpass : Q (flushLines r.lines.keys r).2 := flushLines_rule (fun kind _ r => flushed kind r) h
      show Q r.flushAll.2
      unfold flushAll
      rcases hr : flushLines r.lines.keys r with ⟨fault | e | _, r'⟩ <;> rw [hr] at hpass
      · exact hpass
      · exact recorded _ r' hpass
      · exact hpass

/-- What updates and flushes keep of every line holds of every line after any requests. -/
theorem served_each (hsubmit : ∀ x line b, P line → P (Line.submit line x b).2.1)
    (hflush : ∀ line b, P line → P (Line.flush line b).2.1) (requests : List Request) (h : r.Each P) :
    (r.served requests).Each P :=
  served_rule (Q := Each P) (fun kind x _ hr => onLine_each (fun line b => hsubmit x line b) hr kind)
    (fun kind _ hr => onLine_each hflush hr kind) (fun _ _ hr => hr) requests h

/-! ## Ready and cleared lines -/

/-- All stages of a line are ready. -/
def ReadyLine (line : Line) : Prop := line.states.Ready

/-- Nothing waits in any stage of a line. -/
def ClearedLine (line : Line) : Prop := line.states.Cleared

theorem submit_readyLine (x : Indicator) (line : Line) (b : Backend) (h : ReadyLine line) :
    ReadyLine (line.submit x b).2.1 :=
  (submitIn_ready line.stages [] 0 x line.states b h).1

theorem flush_readyLine (line : Line) (b : Backend) (h : ReadyLine line) : ReadyLine (line.flush b).2.1 :=
  (flushAllIn_ready line.stages line.states b h).1

theorem build_ready (h : build (some backend) capacity kinds = .ok r) : r.Each ReadyLine := by
  intro kind line hline
  obtain ⟨m, -, rfl⟩ := build_line h hline
  exact States.ready_initial _

/-- The lines of a built registry are ready, whatever has been asked of it. -/
theorem served_ready (h : build (some backend) capacity kinds = .ok r) (requests : List Request) :
    (r.served requests).Each ReadyLine :=
  served_each submit_readyLine flush_readyLine requests (build_ready h)

/-! ## Passes -/

theorem flush_clearsLine {line line' : Line} {b b' : Backend} {a : Except FlushError Unit} (hready : ReadyLine line)
    (h : line.flush b = (.ok a, line', b')) : ClearedLine line' := by
  unfold Line.flush at h
  rcases hall : flushAllIn line.stages line.states b with ⟨answer, states, b₂⟩
  rw [hall] at h
  cases h
  exact flushAllIn_cleared hready hall

/-- Flushing the line of a kind clears it, and leaves those clear that are so. -/
theorem flushLine_clears {kind : String} {done : String → Prop} {answer : Option (Outcome (Except FlushError Unit))}
    (hready : r.Each ReadyLine) (hdone : ∀ name line, done name → r.lines.get? name = some line → ClearedLine line)
    (h : r.onLine kind Line.flush = (answer, r')) (hanswer : ∀ fault, answer ≠ some (.error fault)) :
    r'.Each ReadyLine ∧ r'.lines.keys = r.lines.keys ∧
      ∀ name line, done name ∨ name = kind → r'.lines.get? name = some line → ClearedLine line := by
  have hready' := onLine_each flush_readyLine hready kind
  obtain ⟨hkeys, hothers⟩ := onLine_lines Line.flush r kind
  rw [h] at hready' hkeys hothers
  refine ⟨hready', hkeys, fun name line hname hget => ?_⟩
  by_cases heq : name = kind
  · subst heq
    cases hold : r.lines.get? name with
    | none =>
      unfold onLine at h
      rw [hold] at h
      cases h
      rw [hold] at hget
      cases hget
    | some old =>
      rw [onLine_some hold] at h
      rcases hflush : old.flush r.backend with ⟨fault | a, line', b'⟩ <;> rw [hflush] at h <;> cases h
      · exact absurd rfl (hanswer fault)
      · obtain rfl := Option.some.inj ((Dict.get?_insert_self ..).symm.trans hget)
        exact flush_clearsLine (hready name old hold) hflush
  · rw [hothers name heq] at hget
    exact hdone name line (hname.resolve_right heq) hget

theorem flushLines_clears : ∀ {names : List String} {done : String → Prop} {r r' : Registry} {a : Except FlushError Unit},
    r.Each ReadyLine → (∀ name line, done name → r.lines.get? name = some line → ClearedLine line) →
    flushLines names r = (.ok a, r') →
      r'.lines.keys = r.lines.keys ∧
        ∀ name line, done name ∨ name ∈ names → r'.lines.get? name = some line → ClearedLine line
  | [], _, _, _, _, _, hdone, h => by
    cases h
    exact ⟨rfl, fun name line hname => hdone name line (hname.resolve_right List.not_mem_nil)⟩
  | kind :: rest, done, r, r', a, hready, hdone, h => by
    have hrest {r₁ : Registry} {answer : Option (Outcome (Except FlushError Unit))} {a' : Except FlushError Unit}
        (hline : r.onLine kind Line.flush = (answer, r₁)) (hanswer : ∀ fault, answer ≠ some (.error fault))
        (hflush : flushLines rest r₁ = (.ok a', r')) :
        r'.lines.keys = r.lines.keys ∧
          ∀ name line, done name ∨ name ∈ kind :: rest → r'.lines.get? name = some line → ClearedLine line := by
      obtain ⟨hready', hkeys, hdone'⟩ := flushLine_clears hready hdone hline hanswer
      obtain ⟨hkeys', hcleared⟩ := flushLines_clears hready' hdone' hflush
      refine ⟨hkeys'.trans hkeys, fun name line hname => hcleared name line ?_⟩
      rwa [List.mem_cons, ← or_assoc] at hname
    unfold flushLines at h
    rcases hline : r.onLine kind Line.flush with ⟨_ | fault | e | _, r₁⟩ <;> rw [hline] at h <;> dsimp only at h
    · exact hrest hline (fun _ hno => by cases hno) h
    · cases h
    · rcases hflush : flushLines rest r₁ with ⟨fault | a', r₂⟩ <;> rw [hflush] at h <;> cases h
      exact hrest hline (fun _ hno => by cases hno) hflush
    · exact hrest hline (fun _ hno => by cases hno) h

/-- A flush of all lines that is not aborted clears all of them, whether it met errors or not. -/
theorem flushAll_clears {a : Except FlushError Unit} (hready : r.Each ReadyLine) (h : r.flushAll = (.ok a, r')) :
    r'.Each ClearedLine := by
  have hlines : r'.lines = (flushLines r.lines.keys r).2.lines := by
    rw [← flushAll_lines, h]
  obtain ⟨a', r₁, hflush⟩ : ∃ a' r₁, flushLines r.lines.keys r = (.ok a', r₁) := by
    unfold flushAll at h
    rcases hflush : flushLines r.lines.keys r with ⟨fault | a', r₁⟩
    · rw [hflush] at h
      cases h
    · exact ⟨a', r₁, rfl⟩
  obtain ⟨hkeys, hcleared⟩ := @flushLines_clears r.lines.keys (fun _ => False) _ _ _ hready (fun _ _ hno => hno.elim) hflush
  intro kind line hline
  rw [hlines, hflush] at hline
  exact hcleared kind line (.inr (hkeys ▸ mem_keys_of_get? hline)) hline

theorem flush_of_clearedLine {line : Line} (b : Backend) (h : ClearedLine line) :
    ∃ b', line.flush b = (.ok (.ok ()), line, b') ∧ Unmoved b b' := by
  obtain ⟨b', hall, hunmoved⟩ := flushAllIn_of_cleared b h
  refine ⟨b', ?_, hunmoved⟩
  unfold Line.flush
  rw [hall]

/-- Flushing cleared lines changes none of them, and calls nobody. -/
theorem flushLines_of_cleared : ∀ {names : List String} {r : Registry}, r.Each ClearedLine →
    ∃ b, flushLines names r = (.ok (.ok ()), { r with backend := b }) ∧ Unmoved r.backend b
  | [], r, _ => ⟨r.backend, rfl, .refl _⟩
  | kind :: rest, r, h => by
    unfold flushLines
    cases hline : r.lines.get? kind with
    | none =>
      have hnone : r.onLine kind Line.flush = (none, r) := by
        unfold onLine
        rw [hline]
      rw [hnone]
      exact flushLines_of_cleared h
    | some line =>
      obtain ⟨b₁, hflush, hunmoved⟩ := flush_of_clearedLine r.backend (h kind line hline)
      have hsome : r.onLine kind Line.flush = (some (.ok (.ok ())), { r with backend := b₁ }) := by
        rw [onLine_some hline, hflush, Dict.insert_self hline]
      obtain ⟨b, hrest, hunmoved'⟩ := @flushLines_of_cleared rest { r with backend := b₁ } h
      rw [hsome]
      exact ⟨b, hrest, hunmoved.trans hunmoved'⟩

/-- A flush of all lines, each of them cleared, changes none of them and calls nobody. -/
theorem flushAll_of_cleared (h : r.Each ClearedLine) :
    ∃ b, r.flushAll = (.ok (.ok ()), { r with backend := b }) ∧ Unmoved r.backend b := by
  obtain ⟨b, hflush, hunmoved⟩ := @flushLines_of_cleared r.lines.keys r h
  refine ⟨b, ?_, hunmoved⟩
  unfold flushAll
  rw [hflush]

/-- One pass empties everything, and a second one does nothing: of a line, whatever its stages were used for and
whatever went wrong then, and of a built registry, whatever has been asked of it. The pass may have met errors, as
long as no fault aborted it. -/
theorem pass_clears :
    (∀ (stages : List Stage) (uses : List (Use × Backend)) (b b' : Backend) (line : Line) (a : Except FlushError Unit),
      Line.flush ⟨stages, worked stages uses⟩ b = (.ok a, line, b') →
        line.states.Cleared ∧ ∃ b'', line.flush b' = (.ok (.ok ()), line, b'') ∧ Unmoved b' b'') ∧
    ∀ (backend : Backend) (capacity : Nat) (kinds : List Kind) (r r' : Registry) (requests : List Request)
      (a : Except FlushError Unit), build (some backend) capacity kinds = .ok r →
      (r.served requests).flushAll = (.ok a, r') →
        (∀ kind line, r'.lines.get? kind = some line → line.states.Cleared) ∧
          ∃ b, r'.flushAll = (.ok (.ok ()), { r' with backend := b }) ∧ Unmoved r'.backend b := by
  constructor
  · intro stages uses b b' line a h
    have hready : ReadyLine ⟨stages, worked stages uses⟩ := worked_ready stages uses
    have hcleared := flush_clearsLine hready h
    exact ⟨hcleared, flush_of_clearedLine b' hcleared⟩
  · intro backend capacity kinds r r' requests a hbuild h
    have hcleared := flushAll_clears (served_ready hbuild requests) h
    exact ⟨hcleared, flushAll_of_cleared hcleared⟩

/-- Tables for both kinds, behind a gateway that refuses the batches of calls by the minute. -/
def refusingMinutes : Backend := { tablesFor hourlyKinds with faults := .refusing "down" [] [] ["calls"] }

/-- One call waits to be flushed. -/
def oneRequest : List Request := [.submit "calls" (.count "checkout" ⟨202403151427⟩ 1)]

/-- The pass answers that the batch of a call was refused, and yet nothing waits any more. -/
theorem pass_clears_refusingMinutes :
    ∃ r r', build (some refusingMinutes) 1000 hourlyKinds = .ok r ∧
      (r.served oneRequest).flushAll = (.ok (.error ⟨⟨"calls", .count, .minute⟩, .batchRefused 1 "down"⟩), r') ∧
      (∀ kind line, r'.lines.get? kind = some line → line.states.Cleared) ∧
      ∃ b, r'.flushAll = (.ok (.ok ()), { r' with backend := b }) ∧ Unmoved r'.backend b := by
  obtain ⟨r, hr⟩ : ∃ r, build (some refusingMinutes) 1000 hourlyKinds = .ok r := ⟨_, rfl⟩
  have hrefused : (build (some refusingMinutes) 1000 hourlyKinds).toOption.map (fun r => (r.served oneRequest).flushAll.1) =
      some (.ok (.error ⟨⟨"calls", .count, .minute⟩, .batchRefused 1 "down"⟩)) := by decide +kernel
  rw [hr] at hrefused
  have hflush : (r.served oneRequest).flushAll = (_, _) := Prod.ext (Option.some.inj hrefused) rfl
  exact ⟨r, _, hr, hflush, pass_clears.2 refusingMinutes 1000 hourlyKinds r _ oneRequest _ hr hflush⟩

end Registry

end MetricCascade
