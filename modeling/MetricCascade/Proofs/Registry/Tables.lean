/-
Which tables a registry has. Names of tables are told apart by their last underscore, so two tables
have one name only if a kind is named like the coarser table of another kind. Whatever a registry is
asked to do, a stage writes to its own table, and a table that no other stage has holds what its stage
has written.
-/
import MetricCascade.Proofs.Registry.Lines
import MetricCascade.Registry.Timer
import MetricCascade.Span.Dispatch

namespace MetricCascade

/-! ## Names of tables -/

theorem Level.underscore_notMem_suffix {l : Level} {suffix : String} (h : l.suffix? = some suffix) :
    '_' ∉ suffix.toList := by
  cases l <;> cases h <;> decide

theorem Level.suffix?_inj {l m : Level} (h : l.suffix? = m.suffix?) : l = m := by
  cases l <;> cases m <;> first | rfl | exact absurd h (by decide)

namespace Layout

/-- `l` is the finest layout of a kind that is named like the table of `m`, a coarser layout. -/
def Shadows (l m : Layout) : Prop := l.level = .minute ∧ m.level ≠ .minute ∧ l.kind = m.table

theorem table_of_suffix {l : Layout} {suffix : String} (h : l.level.suffix? = some suffix) :
    l.table = l.kind ++ "_" ++ suffix := by
  unfold table
  rw [h]
  rfl

theorem table_of_none {l : Layout} (h : l.level.suffix? = none) : l.table = l.kind := by
  unfold table
  rw [h]

/-- What stands after the last underscore is the suffix. -/
theorem suffixed_inj {j k s t : String} (hs : '_' ∉ s.toList) (ht : '_' ∉ t.toList)
    (h : j ++ "_" ++ s = k ++ "_" ++ t) : j = k ∧ s = t := by
  have hreverse (k s : String) : (k ++ "_" ++ s).toList.reverse = s.toList.reverse ++ '_' :: k.toList.reverse := by
    have hone : "_".toList = ['_'] := rfl
    simp [String.toList_append, hone]
  have hlist : (j ++ "_" ++ s).toList.reverse = (k ++ "_" ++ t).toList.reverse := by rw [h]
  rw [hreverse, hreverse] at hlist
  have hs' : '_' ∉ s.toList.reverse := by rwa [List.mem_reverse]
  have ht' : '_' ∉ t.toList.reverse := by rwa [List.mem_reverse]
  obtain ⟨hsuffix, hkind⟩ := append_cons_cancel hs' ht' hlist
  exact ⟨String.toList_inj.1 (List.reverse_injective hkind), String.toList_inj.1 (List.reverse_injective hsuffix)⟩

/-- Two tables have one name if their layouts are of one kind and level, or one kind is named like a table
of the other. -/
theorem table_eq_iff {l m : Layout} :
    l.table = m.table ↔ l.kind = m.kind ∧ l.level = m.level ∨ l.Shadows m ∨ m.Shadows l := by
  have hminute {l : Layout} : l.level = .minute ↔ l.level.suffix? = none := by cases l.level <;> decide
  constructor
  · intro h
    cases hl : l.level.suffix? with
    | none =>
      rw [table_of_none hl] at h
      cases hm : m.level.suffix? with
      | none =>
        rw [table_of_none hm] at h
        exact .inl ⟨h, Level.suffix?_inj (hl.trans hm.symm)⟩
      | some t =>
        have hcoarse : m.level ≠ .minute := fun heq => Option.some_ne_none t (hm.symm.trans (hminute.1 heq))
        exact .inr (.inl ⟨hminute.2 hl, hcoarse, h⟩)
    | some s =>
      have hcoarse : l.level ≠ .minute := fun heq => Option.some_ne_none s (hl.symm.trans (hminute.1 heq))
      cases hm : m.level.suffix? with
      | none =>
        rw [table_of_none hm] at h
        exact .inr (.inr ⟨hminute.2 hm, hcoarse, h.symm⟩)
      | some t =>
        rw [table_of_suffix hl, table_of_suffix hm] at h
        obtain ⟨hkind, rfl⟩ := suffixed_inj (Level.underscore_notMem_suffix hl) (Level.underscore_notMem_suffix hm) h
        exact .inl ⟨hkind, Level.suffix?_inj (hl.trans hm.symm)⟩
  · rintro (⟨hkind, hlevel⟩ | ⟨hl, -, h⟩ | ⟨hm, -, h⟩)
    · unfold table
      rw [hkind, hlevel]
    · rw [table_of_none (hminute.1 hl), h]
    · rw [table_of_none (hminute.1 hm), h]

end Layout

namespace Kind

/-- The layouts of a kind. -/
def layouts (k : Kind) : List Layout := Level.all.map fun level => ⟨k.1, k.2, level⟩

theorem mem_layouts {k : Kind} {l : Layout} : l ∈ k.layouts ↔ l.kind = k.1 ∧ l.measure = k.2 := by
  obtain ⟨kind, measure, level⟩ := l
  have hlevel : level ∈ Level.all := by cases level <;> decide
  simp only [layouts, List.mem_map, Layout.mk.injEq]
  constructor
  · rintro ⟨_, -, rfl, rfl, -⟩
    exact ⟨rfl, rfl⟩
  · rintro ⟨rfl, rfl⟩
    exact ⟨level, hlevel, rfl, rfl, rfl⟩

theorem nodup_layouts (k : Kind) : k.layouts.Nodup := by
  refine List.Nodup.map (fun l m h => ?_) (by decide : Level.all.Nodup)
  exact congrArg Layout.level h

/-- Kinds of different names have no layout twice. -/
theorem nodup_flatMap_layouts {kinds : List Kind} (h : (kinds.map (·.1)).Nodup) : (kinds.flatMap layouts).Nodup := by
  refine List.nodup_flatMap.2 ⟨fun k _ => nodup_layouts k, (List.pairwise_map.1 h).imp ?_⟩
  rintro j k hne l hj hk
  exact hne ((mem_layouts.1 hj).1.symm.trans (mem_layouts.1 hk).1)

end Kind

namespace Registry

open Stage Backend

variable {capacity : Nat} {kinds : List Kind} {r r' r'' : Registry}

/-! ## The layouts of a registry -/

theorem register_eq_ok {kind : String} {measure : Measure} (h : r.register capacity kind measure = .ok r') :
    r.lines.contains kind = false ∧ r' = { r with lines := r.lines.insert kind (.cascade kind measure capacity) } := by
  unfold register at h
  split at h
  · cases h
  · rename_i hnew
    cases h
    exact ⟨by simpa using hnew, rfl⟩

/-- Registering lets no name in twice. -/
theorem registerAll_names : ∀ {kinds : List Kind} {r r' : Registry}, registerAll capacity kinds r = .ok r' →
    (r.lines.keys ++ kinds.map (·.1)).Nodup
  | [], r, _, _ => by
    rw [List.map_nil, List.append_nil]
    exact r.lines.nodup
  | k :: rest, r, r'', h => by
    obtain ⟨kind, measure⟩ := k
    unfold registerAll at h
    cases hone : r.register capacity kind measure with
    | error e => rw [hone] at h; cases h
    | ok r' =>
      rw [hone] at h
      obtain ⟨hnew, rfl⟩ := register_eq_ok hone
      have hrest := registerAll_names h
      rw [Dict.keys_insert, hnew, if_neg Bool.false_ne_true, List.append_assoc] at hrest
      exact hrest

theorem layouts_registerAll : ∀ {kinds : List Kind} {r r' : Registry}, registerAll capacity kinds r = .ok r' →
    r'.backend = r.backend ∧ r'.layouts = r.layouts ++ kinds.flatMap Kind.layouts
  | [], r, r', h => by
    cases h
    simp
  | k :: rest, r, r'', h => by
    obtain ⟨kind, measure⟩ := k
    unfold registerAll at h
    cases hone : r.register capacity kind measure with
    | error e => rw [hone] at h; cases h
    | ok r' =>
      rw [hone] at h
      obtain ⟨hnew, rfl⟩ := register_eq_ok hone
      obtain ⟨hbackend, hlayouts⟩ := layouts_registerAll h
      refine ⟨hbackend, hlayouts.trans ?_⟩
      unfold layouts
      rw [Dict.values_insert_of_new hnew, List.flatMap_append, List.append_assoc]
      rfl

/-- A built registry has the layouts of its kinds, and these have different names. -/
theorem build_layouts {backend : Backend} (h : build (some backend) capacity kinds = .ok r) :
    r.backend = backend ∧ r.layouts = kinds.flatMap Kind.layouts ∧ (kinds.map (·.1)).Nodup := by
  have hall : registerAll capacity kinds { backend } = .ok r := h
  obtain ⟨hbackend, hlayouts⟩ := layouts_registerAll hall
  exact ⟨hbackend, hlayouts, registerAll_names hall⟩

/-- A layout of a built registry is known by its kind and its level. -/
theorem layout_ext (hnames : (kinds.map (·.1)).Nodup) {l m : Layout} (hl : l ∈ kinds.flatMap Kind.layouts)
    (hm : m ∈ kinds.flatMap Kind.layouts) (hkind : l.kind = m.kind) (hlevel : l.level = m.level) : l = m := by
  obtain ⟨j, hj, hlj⟩ := List.mem_flatMap.1 hl
  obtain ⟨k, hk, hmk⟩ := List.mem_flatMap.1 hm
  obtain ⟨hjkind, hjmeasure⟩ := Kind.mem_layouts.1 hlj
  obtain ⟨hkkind, hkmeasure⟩ := Kind.mem_layouts.1 hmk
  have hjk : j = k := List.inj_on_of_nodup_map hnames hj hk (by rw [← hjkind, ← hkkind, hkind])
  obtain ⟨kind, measure, level⟩ := l
  obtain ⟨kind', measure', level'⟩ := m
  simp only at *
  rw [hkind, hlevel, hjmeasure, hkmeasure, hjk]

/-- Layouts of a built registry have one table if they are the same or one kind is named like the other's table. -/
theorem same_table_iff (hnames : (kinds.map (·.1)).Nodup) {l m : Layout} (hl : l ∈ kinds.flatMap Kind.layouts)
    (hm : m ∈ kinds.flatMap Kind.layouts) : l.table = m.table ↔ l = m ∨ l.Shadows m ∨ m.Shadows l := by
  rw [Layout.table_eq_iff]
  refine or_congr_left ⟨fun h => layout_ext hnames hl hm h.1 h.2, ?_⟩
  rintro rfl
  exact ⟨rfl, rfl⟩

/-- The tables of some kinds have different names unless a kind is named like another, followed by a suffix. -/
theorem nodup_tables_iff (hnames : (kinds.map (·.1)).Nodup) :
    ((kinds.flatMap Kind.layouts).map Layout.table).Nodup ↔
      ∀ j ∈ kinds, ∀ k ∈ kinds, ∀ suffix ∈ ["hour", "day", "month"], j.1 ≠ k.1 ++ "_" ++ suffix := by
  have hinj := List.nodup_map_iff_inj_on (f := Layout.table) (Kind.nodup_flatMap_layouts hnames)
  have hmem {k : Kind} (hk : k ∈ kinds) (level : Level) :
      (⟨k.1, k.2, level⟩ : Layout) ∈ kinds.flatMap Kind.layouts :=
    List.mem_flatMap.2 ⟨k, hk, Kind.mem_layouts.2 ⟨rfl, rfl⟩⟩
  rw [hinj]
  constructor
  · intro hsole j hj k hk suffix hsuffix hname
    obtain ⟨level, hlevel, hcoarse⟩ : ∃ level : Level, level.suffix? = some suffix ∧ level ≠ .minute := by
      simp only [List.mem_cons, List.not_mem_nil, or_false] at hsuffix
      rcases hsuffix with rfl | rfl | rfl
      · exact ⟨.hour, rfl, by decide⟩
      · exact ⟨.day, rfl, by decide⟩
      · exact ⟨.month, rfl, by decide⟩
    have htable : (⟨k.1, k.2, level⟩ : Layout).table = k.1 ++ "_" ++ suffix := Layout.table_of_suffix hlevel
    have hsame := hsole _ (hmem hj .minute) _ (hmem hk level) (hname.trans htable.symm)
    exact hcoarse (congrArg Layout.level hsame).symm
  · intro hnone
    -- a layout that shadows another one names a kind like a table of the other's kind
    have hclear : ∀ l ∈ kinds.flatMap Kind.layouts, ∀ m ∈ kinds.flatMap Kind.layouts, ¬ l.Shadows m := by
      rintro l hl m hm ⟨-, hcoarse, hkind⟩
      obtain ⟨j, hj, hlj⟩ := List.mem_flatMap.1 hl
      obtain ⟨k, hk, hmk⟩ := List.mem_flatMap.1 hm
      obtain ⟨suffix, hsuffix, hlisted⟩ : ∃ suffix, m.level.suffix? = some suffix ∧ suffix ∈ ["hour", "day", "month"] := by
        cases hlevel : m.level with
        | minute => exact absurd hlevel hcoarse
        | hour => exact ⟨"hour", rfl, by decide⟩
        | day => exact ⟨"day", rfl, by decide⟩
        | month => exact ⟨"month", rfl, by decide⟩
      rw [(Kind.mem_layouts.1 hlj).1, Layout.table_of_suffix hsuffix, (Kind.mem_layouts.1 hmk).1] at hkind
      exact hnone j hj k hk suffix hlisted hkind
    intro l hl m hm htable
    rcases (same_table_iff hnames hl hm).1 htable with heq | hshadow | hshadow
    · exact heq
    · exact absurd hshadow (hclear l hl m hm)
    · exact absurd hshadow (hclear m hm l hl)

/-! ## Work on a registry -/

variable {P : Layout → Prop}

/-- Every stage of the registry has a layout of `P`. -/
def Within (P : Layout → Prop) (r : Registry) : Prop :=
  ∀ kind line, r.lines.get? kind = some line → ∀ l, Among line.stages l → P l

theorem within_layouts (r : Registry) : r.Within (· ∈ r.layouts) := by
  rintro kind line hline _ ⟨s, hs, rfl⟩
  have hentry : (kind, line) ∈ r.lines.entries := Dict.get?_eq_some_iff.1 hline
  exact List.mem_flatMap.2 ⟨line, List.mem_map.2 ⟨_, hentry, rfl⟩, List.mem_map_of_mem hs⟩

/-- From `r` to `r'` stages with the layouts of `P` have worked, if `r` has no others. -/
def Worked (P : Layout → Prop) (r r' : Registry) : Prop :=
  r.Within P → Extends P r.backend r'.backend ∧ r'.Within P

theorem Worked.refl (r : Registry) : Worked P r r := fun h => ⟨.refl _, h⟩

theorem Worked.trans (h1 : Worked P r r') (h2 : Worked P r' r'') : Worked P r r'' := by
  intro h
  obtain ⟨hext, hwithin⟩ := h1 h
  obtain ⟨hext', hwithin'⟩ := h2 hwithin
  exact ⟨hext.trans hext', hwithin'⟩

/-- Recording anything but a batch. -/
theorem worked_record (r : Registry) {e : Event} (he : ∀ l, e.accepted l = []) : Worked P r (r.record e) :=
  fun h => ⟨(asked_record r.backend he).extends, h⟩

/-- Work on a line that is done by its own stages. -/
def OwnWork {α : Type} (f : Line → Backend → α × Line × Backend) : Prop :=
  ∀ line b, (f line b).2.1.stages = line.stages ∧ Extends (Among line.stages) b (f line b).2.2

theorem onLine_worked {α : Type} {f : Line → Backend → α × Line × Backend} (hf : OwnWork f) (r : Registry)
    (kind : String) : Worked P r (r.onLine kind f).2 := by
  intro h
  unfold onLine
  cases hline : r.lines.get? kind with
  | none => exact ⟨.refl _, h⟩
  | some line =>
    obtain ⟨hstages, hext⟩ := hf line r.backend
    refine ⟨hext.mono fun l hl => h kind line hline l hl, fun name line' hline' l hl => ?_⟩
    dsimp only at hline'
    rw [Dict.get?_insert] at hline'
    split at hline'
    · cases hline'
      exact h kind line hline l (hstages ▸ hl)
    · exact h name line' hline' l hl

theorem ownWork_submitAt (i : Nat) (x : Indicator) : OwnWork fun line b => line.submitAt i x b :=
  fun line b => ⟨rfl, submitIn_extends line.stages [] i x line.states b⟩

theorem ownWork_flushAt (i : Nat) : OwnWork fun line b => line.flushAt i b :=
  fun line b => ⟨rfl, flushIn_extends line.stages i line.states b⟩

theorem ownWork_flush : OwnWork Line.flush :=
  fun line b => ⟨rfl, flushAllIn_extends line.stages line.states b⟩

theorem ownWork_windows {α : Type} (i : Nat) (f : WindowPair → α × WindowPair) :
    OwnWork fun line b => ((line.updateWindows i f).1, (line.updateWindows i f).2, b) :=
  fun _ b => ⟨rfl, .refl b⟩

theorem submit_worked (r : Registry) (kind : String) (x : Indicator) : Worked P r (r.submit kind x).2 := by
  have hline := onLine_worked (P := P) (ownWork_submitAt 0 x) r kind
  have hsame : (r.submit kind x).2 = (r.onLine kind fun line b => line.submitAt 0 x b).2 := by
    unfold Registry.submit
    split <;> rename_i heq <;> exact (congrArg Prod.snd heq).symm
  rw [hsame]
  exact hline

/-- What every flush of one of the lines keeps holds after the flush of them, whether it is aborted or not. -/
theorem flushLines_rule {Q : Registry → Prop} : ∀ {names : List String} {r : Registry},
    (∀ kind ∈ names, ∀ r, Q r → Q (r.onLine kind Line.flush).2) → Q r → Q (flushLines names r).2
  | [], _, _, h => h
  | kind :: rest, r, step, h => by
    have hline := step kind (List.mem_cons_self ..) r h
    have hrest := flushLines_rule (fun name hname => step name (List.mem_cons_of_mem _ hname)) hline
    unfold flushLines
    rcases hr : r.onLine kind Line.flush with ⟨_ | fault | e | _, r'⟩ <;> rw [hr] at hline hrest
    · exact hrest
    · exact hline
    · exact hrest
    · exact hrest

theorem flushLines_worked (names : List String) (r : Registry) : Worked P r (flushLines names r).2 :=
  flushLines_rule (fun kind _ r' h => h.trans (onLine_worked ownWork_flush r' kind)) (.refl r)

theorem flushAll_worked (r : Registry) : Worked P r r.flushAll.2 := by
  have hlines := flushLines_worked (P := P) r.lines.keys r
  unfold flushAll
  rcases hr : flushLines r.lines.keys r with ⟨fault | e | _, r'⟩ <;> rw [hr] at hlines
  · exact hlines
  · exact hlines.trans (worked_record r' fun _ => rfl)
  · exact hlines

theorem timedPass_worked (r : Registry) : Worked P r r.timedPass := by
  have hall := flushAll_worked (P := P) r
  unfold timedPass
  rcases hr : r.flushAll with ⟨fault | e | _, r'⟩ <;> rw [hr] at hall
  · exact hall.trans (worked_record r' fun _ => rfl)
  · exact hall.trans (worked_record r' fun _ => rfl)
  · exact hall

theorem submitAll_worked : ∀ (updates : List (String × Indicator)) (r : Registry),
    Worked P r (submitAll updates r).2
  | [], r => .refl r
  | (kind, x) :: rest, r => by
    have hone := submit_worked (P := P) r kind x
    unfold submitAll
    rcases hr : r.submit kind x with ⟨fault | e | _, r'⟩ <;> rw [hr] at hone
    · exact hone
    · exact (hone.trans (worked_record r' fun _ => rfl)).trans (submitAll_worked rest _)
    · exact hone.trans (submitAll_worked rest r')

theorem dispatchOrDrop_worked (r : Registry) (s : Span) : Worked P r (r.dispatchOrDrop s).2 := by
  have hdispatch : Worked P r (r.dispatch s).2 := by
    unfold dispatch
    cases s.updates with
    | error e => exact .refl r
    | ok updates => exact submitAll_worked updates r
  unfold dispatchOrDrop
  rcases hr : r.dispatch s with ⟨fault | e | n, r'⟩ <;> rw [hr] at hdispatch
  · exact hdispatch
  · exact hdispatch.trans (worked_record r' fun _ => rfl)
  · exact hdispatch

/-- What a registry can be asked to do, and what it is afterwards. -/
inductive Step (r : Registry) : Registry → Prop where
  | submit (kind : String) (x : Indicator) : Step r (r.submit kind x).2
  | submitAt (kind : String) (i : Nat) (x : Indicator) : Step r (r.onLine kind fun line b => line.submitAt i x b).2
  | flushAt (kind : String) (i : Nat) : Step r (r.onLine kind fun line b => line.flushAt i b).2
  | flush (kind : String) : Step r (r.onLine kind Line.flush).2
  | flushAll : Step r r.flushAll.2
  | timedPass : Step r r.timedPass
  | dispatch (s : Span) : Step r (r.dispatchOrDrop s).2
  /-- Work on the windows of one stage. -/
  | windows {α : Type} (kind : String) (i : Nat) (f : WindowPair → α × WindowPair) :
      Step r (r.updateWindows kind i f).2

theorem Step.worked (h : Step r r') : Worked P r r' := by
  cases h with
  | submit kind x => exact submit_worked r kind x
  | submitAt kind i x => exact onLine_worked (ownWork_submitAt i x) r kind
  | flushAt kind i => exact onLine_worked (ownWork_flushAt i) r kind
  | flush kind => exact onLine_worked ownWork_flush r kind
  | flushAll => exact flushAll_worked r
  | timedPass => exact timedPass_worked r
  | dispatch s => exact dispatchOrDrop_worked r s
  | windows kind i f => exact onLine_worked (ownWork_windows i f) r kind

/-- Whatever happens in a row. -/
theorem steps_worked (h : Relation.ReflTransGen Step r r') : Worked P r r' := by
  induction h with
  | refl => exact .refl r
  | tail _ hstep ih => exact ih.trans hstep.worked

end Registry

open Registry Backend

/-- Which tables a registry shares, and what its stages find. A built registry has each kind at each level;
two of these have one table exactly if one is the finest of a kind that is named like the table of the
other, so all tables are different exactly if no kind is named like another one followed by the suffix of a
level. Whatever happens, a stage writes to its own table, and a table that no other stage has is what the
writes of its stage have made of it. -/
theorem tables_apart_iff {backend : Backend} {capacity : Nat} {kinds : List Kind} {r : Registry}
    (h : build (some backend) capacity kinds = .ok r) :
    r.layouts = kinds.flatMap Kind.layouts ∧
    ((r.layouts.map Layout.table).Nodup ↔
      ∀ j ∈ kinds, ∀ k ∈ kinds, ∀ suffix ∈ ["hour", "day", "month"], j.1 ≠ k.1 ++ "_" ++ suffix) ∧
    (∀ l ∈ r.layouts, ∀ m ∈ r.layouts, l.table = m.table ↔ l = m ∨ l.Shadows m ∨ m.Shadows l) ∧
    ∀ r', Relation.ReflTransGen Step r r' → ∀ l ∈ r.layouts, ∃ ops,
      r'.backend.written l = backend.written l ++ ops ∧ (∀ op ∈ ops, op.table = l.table) ∧
        ((∀ m ∈ r.layouts, m.table = l.table → m = l) →
          r'.backend.store.tables.get? l.table = (ops.foldl Store.write backend.store).tables.get? l.table) := by
  obtain ⟨hbackend, hlayouts, hnames⟩ := build_layouts h
  refine ⟨hlayouts, ?_, ?_, fun r' hsteps l _ => ?_⟩
  · rw [hlayouts]
    exact nodup_tables_iff hnames
  · rw [hlayouts]
    exact fun l hl m hm => same_table_iff hnames hl hm
  · obtain ⟨hext, -⟩ := steps_worked hsteps r.within_layouts
    have hown := hext.own l
    rwa [hbackend] at hown

/-! ## Calls by the hour -/

/-- A store with empty tables for some kinds. -/
def tablesFor (kinds : List Kind) : Backend := { store := (kinds.flatMap Kind.layouts).foldl Store.createTable {} }

/-- One call is counted, and calls are flushed. -/
def Registry.afterCall (r : Registry) : Registry :=
  ((r.submit "calls" (.count "checkout" ⟨202403151427⟩ 1)).2.onLine "calls" Line.flush).2

theorem Registry.afterCall_steps (r : Registry) : Relation.ReflTransGen Step r r.afterCall :=
  .tail (.single (.submit "calls" _)) (.flush "calls")

/-- Calls, and a kind that is named like no table of theirs, though its name begins like one. -/
def hourlyKinds : List Kind := [("calls", .count), ("calls_hourly", .average)]

/-- The table of calls by the hour is what its stage has written. -/
theorem tables_apart_iff_hourly :
    ∃ r, build (some (tablesFor hourlyKinds)) 1000 hourlyKinds = .ok r ∧ (r.layouts.map Layout.table).Nodup ∧
      r.afterCall.backend.store.indicators ⟨"calls", .count, .hour⟩ = .ok [.count "checkout" ⟨2024031514⟩ 1] ∧
      r.afterCall.backend.store.tables.get? "calls_hour" =
        ((r.afterCall.backend.written ⟨"calls", .count, .hour⟩).foldl Store.write
          (tablesFor hourlyKinds).store).tables.get? "calls_hour" := by
  have hbuild : build (some (tablesFor hourlyKinds)) 1000 hourlyKinds = .ok _ := rfl
  obtain ⟨hlayouts, hiff, -, hsteps⟩ := tables_apart_iff hbuild
  have hnodup := hiff.2 (by decide)
  have hmem : (⟨"calls", .count, .hour⟩ : Layout) ∈ hourlyKinds.flatMap Kind.layouts := by decide
  obtain ⟨ops, hops, -, htable⟩ := hsteps _ (afterCall_steps _) _ (hlayouts ▸ hmem)
  obtain rfl : _ = ops := hops
  exact ⟨_, hbuild, hnodup, rfl,
    htable fun m hm hname => List.inj_on_of_nodup_map hnodup hm (hlayouts ▸ hmem) hname⟩

/-- Calls, and a kind that is named like the table of calls by the hour. -/
def shadowedKinds : List Kind := [("calls", .count), ("calls_hour", .count)]

/-- Both kinds are registered, and two tables are the same: the minutes of the second kind hold the hour of the
first, which their stage has never written. -/
theorem hour_table_shared :
    ∃ r, build (some (tablesFor shadowedKinds)) 1000 shadowedKinds = .ok r ∧
      (⟨"calls", .count, .hour⟩ : Layout) ∈ r.layouts ∧ (⟨"calls_hour", .count, .minute⟩ : Layout) ∈ r.layouts ∧
      ¬ (r.layouts.map Layout.table).Nodup ∧
      r.afterCall.backend.written ⟨"calls_hour", .count, .minute⟩ = [] ∧
      r.afterCall.backend.store.indicators ⟨"calls_hour", .count, .minute⟩ =
        .ok [.count "checkout" ⟨2024031514⟩ 1] :=
  ⟨_, rfl, by decide, by decide, by decide, rfl, rfl⟩

end MetricCascade
