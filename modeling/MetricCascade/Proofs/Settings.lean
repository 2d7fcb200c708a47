/-
Which lookups make settings. Every number that is there must be written with a sign at most and digits, and
lie in its range; the log level must be known in lower case, and the host must have a character that is no
blank. The steps of reading and of checking stand in one order, and the first that fails is reported, so a
text that is no number goes before a zero that was read ahead of it.
-/
import MetricCascade.Settings
import MetricCascade.Proofs.Text.Numeral

namespace MetricCascade

namespace Settings

/-- The settings that are numbers. -/
inductive Quantity where
  | batchSize
  | periodSeconds
  | drainPollMillis
  | portNumber
  deriving DecidableEq

namespace Quantity

def name : Quantity → String
  | batchSize => "OAP_BATCH_SIZE"
  | periodSeconds => "OAP_PERSISTENT_PERIOD_SECS"
  | drainPollMillis => "OAP_DRAIN_POLL_MAX_MS"
  | portNumber => "OAP_PORT"

def greatest : Quantity → Nat
  | portNumber => 2 ^ 16 - 1
  | _ => 2 ^ 64 - 1

/-- The quantity in settings. -/
def of (s : Settings) : Quantity → Nat
  | batchSize => s.batchSize
  | periodSeconds => s.periodSeconds
  | drainPollMillis => s.drainPollMillis
  | portNumber => s.portNumber

def zeroError : Quantity → SettingsError
  | batchSize => .batchSizeZero
  | periodSeconds => .periodZero
  | drainPollMillis => .drainPollZero
  | portNumber => .portNumberZero

/-- What a lookup says of the quantity: the number that the text writes, and the default without a text. -/
def Given (q : Quantity) (lookup : String → Option String) (n : Nat) : Prop :=
  match lookup q.name with
  | none => n = q.of {}
  | some raw => Text.Writes raw.toList n

end Quantity

/-- Every setting that the lookup has can be used. -/
structure Valid (lookup : String → Option String) : Prop where
  quantity : ∀ (q : Quantity) raw, lookup q.name = some raw →
    ∃ n, Text.Writes raw.toList n ∧ 1 ≤ n ∧ n ≤ q.greatest
  logLevel : ∀ raw, lookup "OAP_LOG_LEVEL" = some raw →
    Text.lower raw ∈ ["trace", "debug", "info", "warn", "error"]
  host : ∀ raw, lookup "OAP_HOST" = some raw → ∃ c ∈ raw.toList, Text.isBlank c = false

/-- Every setting is the one of the lookup, or else the default. -/
structure Of (s : Settings) (lookup : String → Option String) : Prop where
  quantity : ∀ q : Quantity, q.Given lookup (q.of s)
  logLevel : s.logLevel = ((lookup "OAP_LOG_LEVEL").map Text.lower).getD "info"
  host : s.host = (lookup "OAP_HOST").getD "0.0.0.0"

/-- One step that can fail. -/
inductive Step where
  | readable (q : Quantity)
  | positive (q : Quantity)
  | logLevel
  | host

namespace Step

def reading : List Step :=
  [readable .batchSize, readable .periodSeconds, readable .drainPollMillis, readable .portNumber]

def checking : List Step :=
  [positive .batchSize, positive .periodSeconds, positive .drainPollMillis, logLevel, host,
    positive .portNumber]

/-- All steps in their order. -/
def inOrder : List Step := reading ++ checking

/-- The step fails on the lookup with the error. -/
inductive Fails (lookup : String → Option String) : Step → SettingsError → Prop where
  | unreadable {q : Quantity} {raw : String} (found : lookup q.name = some raw)
      (unwritten : ¬ ∃ n, Text.Writes raw.toList n ∧ n ≤ q.greatest) :
      Fails lookup (readable q) (.unreadable q.name raw)
  | zero {q : Quantity} {raw : String} (found : lookup q.name = some raw)
      (written : Text.Writes raw.toList 0) : Fails lookup (positive q) q.zeroError
  | logLevel {raw : String} (found : lookup "OAP_LOG_LEVEL" = some raw)
      (unknown : Text.lower raw ∉ ["trace", "debug", "info", "warn", "error"]) :
      Fails lookup logLevel (.logLevelUnknown (Text.lower raw))
  | host {raw : String} (found : lookup "OAP_HOST" = some raw)
      (blank : ∀ c ∈ raw.toList, Text.isBlank c = true) : Fails lookup host .hostBlank

end Step

variable {lookup : String → Option String} {s : Settings} {q : Quantity} {step : Step} {n : Nat}
  {e : SettingsError}

/-! ## Reading a number -/

namespace Quantity

/-- The number of the quantity, as it is read. -/
def number (q : Quantity) (lookup : String → Option String) : Except SettingsError Nat :=
  Settings.number lookup q.name q.greatest (q.of {})

theorem of_default_pos (q : Quantity) : 0 < q.of {} := by
  cases q <;> decide

theorem number_of_none (h : lookup q.name = none) : q.number lookup = .ok (q.of {}) := by
  rw [number, Settings.number, h]

theorem number_of_some {raw : String} (h : lookup q.name = some raw) :
    q.number lookup =
      match Text.natural? q.greatest (Text.trim raw.toList) with
      | some n => .ok n
      | none => .error (.unreadable q.name raw) := by
  unfold number Settings.number
  cases hread : Text.natural? q.greatest (Text.trim raw.toList) <;> simp only [h, hread]

theorem given_of_number (h : q.number lookup = .ok n) : q.Given lookup n := by
  unfold Given
  cases hfound : lookup q.name with
  | none =>
    rw [number_of_none hfound] at h
    exact (Except.ok.inj h).symm
  | some raw =>
    rw [number_of_some hfound] at h
    split at h
    case h_1 k hk =>
      obtain rfl : k = n := Except.ok.inj h
      exact (Text.natural?_trim_eq_some_iff.1 hk).1
    case h_2 => cases h

/-- A number is refused exactly if its step fails. -/
theorem number_eq_error_iff : q.number lookup = .error e ↔ (Step.readable q).Fails lookup e := by
  constructor
  · intro h
    cases hfound : lookup q.name with
    | none =>
      rw [number_of_none hfound] at h
      cases h
    | some raw =>
      rw [number_of_some hfound] at h
      split at h
      case h_1 => cases h
      case h_2 hnone =>
        obtain rfl := Except.error.inj h
        refine .unreadable hfound ?_
        rintro ⟨k, hk⟩
        rw [Text.natural?_trim_eq_some_iff.2 hk] at hnone
        cases hnone
  · intro h
    cases h with
    | @unreadable _ raw hfound hunwritten =>
      rw [number_of_some hfound]
      split
      case h_1 k hk => exact absurd ⟨k, Text.natural?_trim_eq_some_iff.1 hk⟩ hunwritten
      case h_2 => rfl

/-- Only a text that writes it makes a quantity zero. -/
theorem number_eq_zero_iff :
    q.number lookup = .ok 0 ↔ ∃ raw, lookup q.name = some raw ∧ Text.Writes raw.toList 0 := by
  constructor
  · intro h
    have hgiven := given_of_number h
    unfold Given at hgiven
    split at hgiven
    case h_1 => exact absurd hgiven q.of_default_pos.ne
    case h_2 raw hfound => exact ⟨raw, hfound, hgiven⟩
  · rintro ⟨raw, hfound, hzero⟩
    rw [number_of_some hfound, Text.natural?_trim_eq_some_iff.2 ⟨hzero, Nat.zero_le _⟩]

end Quantity

/-! ## Steps -/

namespace Step

/-- The error of a step that fails, by the values that are read. -/
def error? (lookup : String → Option String) : Step → Option SettingsError
  | readable q =>
    match q.number lookup with
    | .ok _ => none
    | .error e => some e
  | positive q => if q.number lookup = .ok 0 then some q.zeroError else none
  | logLevel =>
    let level := ((lookup "OAP_LOG_LEVEL").map Text.lower).getD "info"
    if logLevels.contains level then none else some (.logLevelUnknown level)
  | host => if Text.isAllBlank ((lookup "OAP_HOST").getD "0.0.0.0") then some .hostBlank else none

theorem error?_eq_some_iff : step.error? lookup = some e ↔ step.Fails lookup e := by
  cases step with
  | readable q =>
    rw [← Quantity.number_eq_error_iff, error?]
    cases q.number lookup <;> simp
  | positive q =>
    rw [error?, Option.ite_none_right_eq_some, Quantity.number_eq_zero_iff, Option.some.injEq]
    constructor
    · rintro ⟨⟨raw, hfound, hzero⟩, rfl⟩
      exact .zero hfound hzero
    · rintro ⟨⟩
      exact ⟨⟨_, ‹_›, ‹_›⟩, rfl⟩
  | logLevel =>
    cases hfound : lookup "OAP_LOG_LEVEL" with
    | none =>
      have hknown : "info" ∈ logLevels := by decide
      simp only [error?, hfound, Option.map_none, Option.getD_none, List.contains_iff_mem, hknown, if_true]
      refine ⟨fun h => (nomatch h), fun h => ?_⟩
      cases h with
      | logLevel hfound' _ => exact nomatch hfound.symm.trans hfound'
    | some raw =>
      simp only [error?, hfound, Option.map_some, Option.getD_some, List.contains_iff_mem,
        Option.ite_none_left_eq_some, Option.some.injEq]
      constructor
      · rintro ⟨hunknown, rfl⟩
        exact .logLevel hfound hunknown
      · intro h
        cases h with
        | logLevel hfound' hunknown =>
          obtain rfl := Option.some.inj (hfound.symm.trans hfound')
          exact ⟨hunknown, rfl⟩
  | host =>
    cases hfound : lookup "OAP_HOST" with
    | none =>
      have hkept : Text.isAllBlank "0.0.0.0" = false := by decide
      simp only [error?, hfound, Option.getD_none, hkept]
      refine ⟨fun h => (nomatch h), fun h => ?_⟩
      cases h with
      | host hfound' _ => exact nomatch hfound.symm.trans hfound'
    | some raw =>
      simp only [error?, hfound, Option.getD_some, Text.isAllBlank, List.all_eq_true,
        Option.ite_none_right_eq_some, Option.some.injEq]
      constructor
      · rintro ⟨hblank, rfl⟩
        exact .host hfound hblank
      · intro h
        cases h with
        | host hfound' hblank =>
          obtain rfl := Option.some.inj (hfound.symm.trans hfound')
          exact ⟨hblank, rfl⟩

/-- A step that does not fail has no error. -/
theorem error?_eq_none_iff : step.error? lookup = none ↔ ∀ e, ¬ step.Fails lookup e := by
  simp only [Option.eq_none_iff_forall_ne_some, ne_eq, error?_eq_some_iff]

end Step

/-! ## Reading all settings, and checking them -/

/-- The settings have the values that are read from the lookup. -/
structure Holds (s : Settings) (lookup : String → Option String) : Prop where
  quantity : ∀ q : Quantity, q.number lookup = .ok (q.of s)
  logLevel : s.logLevel = ((lookup "OAP_LOG_LEVEL").map Text.lower).getD "info"
  host : s.host = (lookup "OAP_HOST").getD "0.0.0.0"

/-- All settings are read, unless the step of a number fails. -/
theorem read_cases (lookup : String → Option String) :
    (∃ e, Step.reading.findSome? (Step.error? lookup) = some e ∧ read lookup = .error e) ∨
      ∃ s, Step.reading.findSome? (Step.error? lookup) = none ∧ read lookup = .ok s ∧ s.Holds lookup := by
  have hread : read lookup = do
      let batchSize ← Quantity.batchSize.number lookup
      let periodSeconds ← Quantity.periodSeconds.number lookup
      let drainPollMillis ← Quantity.drainPollMillis.number lookup
      let portNumber ← Quantity.portNumber.number lookup
      let logLevel := ((lookup "OAP_LOG_LEVEL").map Text.lower).getD "info"
      let host := (lookup "OAP_HOST").getD "0.0.0.0"
      return { batchSize, periodSeconds, drainPollMillis, logLevel, host, portNumber } := rfl
  simp only [hread, Step.reading, List.findSome?_cons, List.findSome?_nil, Step.error?]
  cases hbatch : Quantity.batchSize.number lookup with
  | error e => exact .inl ⟨e, rfl, rfl⟩
  | ok batchSize =>
    cases hperiod : Quantity.periodSeconds.number lookup with
    | error e => exact .inl ⟨e, rfl, rfl⟩
    | ok periodSeconds =>
      cases hpoll : Quantity.drainPollMillis.number lookup with
      | error e => exact .inl ⟨e, rfl, rfl⟩
      | ok drainPollMillis =>
        cases hport : Quantity.portNumber.number lookup with
        | error e => exact .inl ⟨e, rfl, rfl⟩
        | ok portNumber =>
          refine .inr ⟨_, rfl, rfl, ⟨fun q => ?_, rfl, rfl⟩⟩
          cases q <;> assumption

/-- The check finds the first of its steps that fails. -/
theorem Holds.check (h : s.Holds lookup) :
    s.check =
      match Step.checking.findSome? (Step.error? lookup) with
      | some e => .error e
      | none => .ok () := by
  have hzero : ∀ q : Quantity, q.number lookup = .ok 0 ↔ q.of s = 0 := by
    intro q
    rw [h.quantity q, Except.ok.injEq]
  simp only [Settings.check, Step.checking, List.findSome?_cons, List.findSome?_nil, Step.error?, hzero,
    Quantity.of, ← h.logLevel, ← h.host]
  split_ifs <;> simp_all [Quantity.zeroError]

/-- Reading and checking find the first of all steps that fails; without one, everything holds that was
read. -/
theorem ofLookup_cases (lookup : String → Option String) :
    (∃ e, Step.inOrder.findSome? (Step.error? lookup) = some e ∧ ofLookup lookup = .error e) ∨
      ∃ s, Step.inOrder.findSome? (Step.error? lookup) = none ∧ ofLookup lookup = .ok s ∧ s.Holds lookup := by
  rw [Step.inOrder, List.findSome?_append]
  rcases read_cases lookup with ⟨e, hfind, hread⟩ | ⟨s, hfind, hread, hs⟩
  · refine .inl ⟨e, by rw [hfind, Option.some_or], ?_⟩
    rw [ofLookup, hread]
    rfl
  · have hcheck := hs.check
    rw [hfind, Option.none_or, ofLookup, hread]
    cases hlater : Step.checking.findSome? (Step.error? lookup) with
    | some e =>
      rw [hlater] at hcheck
      refine .inl ⟨e, rfl, ?_⟩
      exact congrArg (· >>= fun _ => pure s) hcheck
    | none =>
      rw [hlater] at hcheck
      refine .inr ⟨s, rfl, ?_, hs⟩
      exact congrArg (· >>= fun _ => pure s) hcheck

/-! ## What is accepted -/

/-- Settings are refused with the error of the first step that fails. -/
theorem ofLookup_eq_error_iff : ofLookup lookup = .error e ↔
    ∃ before step after, Step.inOrder = before ++ step :: after ∧ step.Fails lookup e ∧
      ∀ earlier ∈ before, ∀ e', ¬ earlier.Fails lookup e' := by
  have hfind : ofLookup lookup = .error e ↔ Step.inOrder.findSome? (Step.error? lookup) = some e := by
    rcases ofLookup_cases lookup with ⟨e', hfind, hrun⟩ | ⟨s, hfind, hrun, -⟩
    · rw [hfind, hrun, Except.error.injEq, Option.some.injEq]
    · rw [hfind, hrun]
      exact ⟨fun h => (nomatch h), fun h => (nomatch h)⟩
  rw [hfind, List.findSome?_eq_some_iff]
  simp only [Step.error?_eq_some_iff, Step.error?_eq_none_iff]

/-- Settings are made exactly if no step fails. -/
theorem exists_ofLookup_iff : (∃ s, ofLookup lookup = .ok s) ↔
    ∀ step ∈ Step.inOrder, ∀ e, ¬ step.Fails lookup e := by
  have hfind : (∃ s, ofLookup lookup = .ok s) ↔ Step.inOrder.findSome? (Step.error? lookup) = none := by
    rcases ofLookup_cases lookup with ⟨e, hfind, hrun⟩ | ⟨s, hfind, hrun, -⟩
    · rw [hfind, hrun]
      exact ⟨fun ⟨_, h⟩ => (nomatch h), fun h => (nomatch h)⟩
    · rw [hfind, hrun]
      exact ⟨fun _ => rfl, fun _ => ⟨s, rfl⟩⟩
  rw [hfind, List.findSome?_eq_none_iff]
  simp only [Step.error?_eq_none_iff]

theorem Step.mem_inOrder (step : Step) : step ∈ inOrder := by
  rcases step with q | q | _ | _ <;> [cases q; cases q; skip; skip] <;>
    simp [inOrder, reading, checking]

theorem valid_iff : Valid lookup ↔ ∀ (step : Step) e, ¬ step.Fails lookup e := by
  constructor
  · intro hvalid step e h
    cases h with
    | unreadable found unwritten =>
      obtain ⟨n, hn, -, hle⟩ := hvalid.quantity _ _ found
      exact unwritten ⟨n, hn, hle⟩
    | zero found written =>
      obtain ⟨n, hn, hpos, -⟩ := hvalid.quantity _ _ found
      obtain rfl : n = 0 := hn.unique written
      omega
    | logLevel found unknown => exact unknown (hvalid.logLevel _ found)
    | host found blank =>
      obtain ⟨c, hc, hkept⟩ := hvalid.host _ found
      rw [blank c hc] at hkept
      cases hkept
  · intro hpass
    refine ⟨fun q raw found => ?_, fun raw found => ?_, fun raw found => ?_⟩
    · obtain ⟨n, hn, hle⟩ : ∃ n, Text.Writes raw.toList n ∧ n ≤ q.greatest := by
        by_contra hunwritten
        exact hpass _ _ (.unreadable found hunwritten)
      refine ⟨n, hn, Nat.pos_of_ne_zero ?_, hle⟩
      rintro rfl
      exact hpass _ _ (.zero found hn)
    · by_contra hunknown
      exact hpass _ _ (.logLevel found hunknown)
    · by_contra hblank
      push Not at hblank
      exact hpass _ _ (.host found fun c hc => by simpa using hblank c hc)

theorem Holds.of (h : s.Holds lookup) : s.Of lookup :=
  ⟨fun q => Quantity.given_of_number (h.quantity q), h.logLevel, h.host⟩

/-- No quantity that can be used is zero. -/
theorem Of.pos (h : s.Of lookup) (hvalid : Valid lookup) (q : Quantity) : 1 ≤ q.of s := by
  have hgiven := h.quantity q
  unfold Quantity.Given at hgiven
  split at hgiven
  case h_1 =>
    rw [hgiven]
    exact q.of_default_pos
  case h_2 raw hfound =>
    obtain ⟨n, hn, hpos, -⟩ := hvalid.quantity q raw hfound
    rwa [hgiven.unique hn]

/-- The first pause is one, and no longer than the longest. -/
theorem firstPauseMicros_bounds (h : 1 ≤ s.drainPollMillis) :
    0 < s.firstPauseMicros ∧ s.firstPauseMicros ≤ s.drainPollMillis * 1000 := by
  rw [firstPauseMicros]
  constructor
  · exact lt_min (by omega) (by omega)
  · exact min_le_right _ _

/-- **What settings a lookup makes.** It makes some exactly if every number that is there is one of its
range, the log level in lower case is known and the host is not blank. They have the number of each text
and the default for what is not there, so that windows have a size, and the first pause is no longer than
the longest. Otherwise the error is the one of the first step that fails. -/
theorem ofLookup_spec (lookup : String → Option String) :
    ((∃ s, ofLookup lookup = .ok s) ↔ Valid lookup) ∧
      (∀ s, ofLookup lookup = .ok s → s.Of lookup ∧ 1 ≤ s.batchSize ∧ 0 < s.firstPauseMicros ∧
        s.firstPauseMicros ≤ s.drainPollMillis * 1000) ∧
      ∀ e, ofLookup lookup = .error e ↔
        ∃ before step after, Step.inOrder = before ++ step :: after ∧ step.Fails lookup e ∧
          ∀ earlier ∈ before, ∀ e', ¬ earlier.Fails lookup e' := by
  have haccepted : (∃ s, ofLookup lookup = .ok s) ↔ Valid lookup := by
    rw [exists_ofLookup_iff, valid_iff]
    exact ⟨fun h step => h step step.mem_inOrder, fun h step _ => h step⟩
  refine ⟨haccepted, fun s hs => ?_, fun e => ofLookup_eq_error_iff⟩
  have hvalid := haccepted.1 ⟨s, hs⟩
  have hof : s.Of lookup := by
    rcases ofLookup_cases lookup with ⟨e, -, hrun⟩ | ⟨s', -, hrun, hs'⟩
    · cases hs.symm.trans hrun
    · obtain rfl : s = s' := Except.ok.inj (hs.symm.trans hrun)
      exact hs'.of
  exact ⟨hof, hof.pos hvalid .batchSize, firstPauseMicros_bounds (hof.pos hvalid .drainPollMillis)⟩

/-- Numbers with signs, zeros and blanks, and a level in capital letters. -/
def padded : String → Option String
  | "OAP_BATCH_SIZE" => some " +007\n"
  | "OAP_DRAIN_POLL_MAX_MS" => some "18446744073709551615"
  | "OAP_PORT" => some "65535"
  | "OAP_LOG_LEVEL" => some "DEBUG"
  | _ => none

theorem ofLookup_spec_padded :
    let s : Settings :=
      { batchSize := 7, drainPollMillis := 18446744073709551615, logLevel := "debug", portNumber := 65535 }
    ofLookup padded = .ok s ∧ Valid padded ∧ s.Of padded ∧ 0 < s.firstPauseMicros := by
  intro s
  have hs : ofLookup padded = .ok s := by decide
  obtain ⟨haccepted, hmade, -⟩ := ofLookup_spec padded
  exact ⟨hs, haccepted.1 ⟨s, hs⟩, (hmade s hs).1, (hmade s hs).2.2.1⟩

/-- A number that cannot be read goes before a zero that was read ahead of it. -/
example : ofLookup (fun name =>
      if name = "OAP_BATCH_SIZE" then some "0" else if name = "OAP_PORT" then some "65536" else none) =
    .error (.unreadable "OAP_PORT" "65536") := by
  decide

end Settings

end MetricCascade
