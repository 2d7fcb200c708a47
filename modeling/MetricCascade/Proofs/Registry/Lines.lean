/-
The lines of a registry. Kinds whose tables are all distinct do not get into each other's way: an
update or a flush of one line keeps the account of its first stage and leaves those of all others
as they are. So a registry holds the account of every kind, over any history of updates.
-/
import MetricCascade.Proofs.Stage.Lone
import MetricCascade.Registry.Basic

namespace MetricCascade

open Indicator

/-- A kind of indicator and what it measures. -/
abbrev Kind := String × Measure

namespace Kind

variable (capacity : Nat) (k : Kind)

/-- The first stage of the cascade of a kind. -/
def first : Stage := ⟨⟨k.1, k.2, .minute⟩, capacity, some 0⟩

/-- The stages below the first. -/
def below : List Stage :=
  [⟨⟨k.1, k.2, .hour⟩, capacity, some 0⟩, ⟨⟨k.1, k.2, .day⟩, capacity, some 0⟩,
    ⟨⟨k.1, k.2, .month⟩, capacity, none⟩]

/-- The tables of a kind. -/
def tables : List String := Level.all.map fun level => (⟨k.1, k.2, level⟩ : Layout).table

theorem mem_tables {name : String} :
    Stage.Tables (k.first capacity :: k.below capacity) name ↔ name ∈ k.tables := by
  unfold Stage.Tables tables
  simp [first, below, Level.all, eq_comm]

/-- No two tables of some kinds have one name. -/
def Apart (kinds : List Kind) : Prop := (kinds.flatMap tables).Nodup

variable {capacity : Nat} {kinds : List Kind} {j k : Kind}

theorem Apart.own (h : Apart kinds) (hk : k ∈ kinds) :
    ¬ Stage.Tables (k.below capacity) (k.first capacity).layout.table := by
  have hnodup : k.tables.Nodup := (List.nodup_flatMap.1 h).1 k hk
  unfold tables Level.all at hnodup
  rw [List.map_cons, List.nodup_cons] at hnodup
  rintro ⟨t, ht, htable⟩
  refine hnodup.1 (List.mem_map.2 ?_)
  simp only [below, List.mem_cons, List.not_mem_nil, or_false] at ht
  rcases ht with rfl | rfl | rfl
  · exact ⟨.hour, by simp, htable⟩
  · exact ⟨.day, by simp, htable⟩
  · exact ⟨.month, by simp, htable⟩

/-- Different kinds have no table in common. -/
theorem Apart.disjoint (h : Apart kinds) (hj : j ∈ kinds) (hk : k ∈ kinds) (hne : j ≠ k) {m : Layout}
    (hm : Stage.Among (j.first capacity :: j.below capacity) m) :
    ¬ Stage.Tables (k.first capacity :: k.below capacity) m.table := by
  obtain ⟨t, ht, rfl⟩ := hm
  have hsymm : Std.Symm (Function.onFun List.Disjoint tables) := ⟨fun _ _ hd => hd.symm⟩
  have hdisjoint : List.Disjoint j.tables k.tables := (List.nodup_flatMap.1 h).2.forall hj hk hne
  rw [mem_tables]
  exact hdisjoint ((mem_tables capacity j).1 ⟨t, ht, rfl⟩)

/-- The minute table of a kind is named after it alone. -/
theorem minute_mem_tables (k : Kind) : k.1 ∈ k.tables := by
  unfold tables Level.all
  exact List.mem_cons_self ..

theorem Apart.names (h : Apart kinds) : (kinds.map (·.1)).Nodup := by
  refine List.pairwise_map.2 ((List.nodup_flatMap.1 h).2.imp fun {j k} hdisjoint hname => ?_)
  exact hdisjoint (minute_mem_tables j) (hname ▸ minute_mem_tables k)

/-- Kinds are told apart by their names. -/
theorem Apart.name_inj (h : Apart kinds) (hj : j ∈ kinds) (hk : k ∈ kinds) (hname : j.1 = k.1) : j = k :=
  List.inj_on_of_nodup_map h.names hj hk hname

end Kind

namespace Registry

open Stage Backend

/-! ## What a registry was given -/

/-- The updates for one kind in a history. -/
def given (history : List (String × Indicator)) (kind : String) : List Indicator :=
  (history.filter fun p => p.1 = kind).map (·.2)

theorem given_append (history more : List (String × Indicator)) (kind : String) :
    given (history ++ more) kind = given history kind ++ given more kind := by
  simp [given]

theorem mem_given {history : List (String × Indicator)} {kind : String} {x : Indicator} :
    x ∈ given history kind ↔ (kind, x) ∈ history := by
  simp [given]

/-- The sums of a history keep within 64 bits, and so do the codes of its windows. -/
structure Bounded (kinds : List Kind) (history : List (String × Indicator)) : Prop where
  sums : ∀ k ∈ kinds, ∀ key, (rawSum (under key (given history k.1))).InRange
  codes : ∀ p ∈ history, IsInt64 p.2.key.bucket.code

/-- The line of a kind is there, its first stage keeps account of `H`, and nothing waits in it if
`quiet`. -/
def Holds (r : Registry) (capacity : Nat) (φ : Key → Form) (k : Kind) (H : List Indicator) (quiet : Prop) : Prop :=
  ∃ (states : States (k.first capacity :: k.below capacity)) (W : List Indicator),
    r.lines.get? k.1 = some ⟨k.first capacity :: k.below capacity, states⟩ ∧
      Lone (k.first capacity) (k.below capacity) φ H W states r.backend ∧
      (quiet → states.1.windows.active.view = fun _ => none)

/-- A registry of the cascades of some kinds that was given a history; the forms `φ` are of the measures
of the kinds. -/
structure Holding (kinds : List Kind) (capacity : Nat) (φ : Kind → Key → Form)
    (history : List (String × Indicator)) (quiet : Kind → Prop) (r : Registry) : Prop where
  apart : Kind.Apart kinds
  measure : ∀ k ∈ kinds, ∀ key, (φ k key).1 = k.2
  names : r.lines.keys = kinds.map (·.1)
  accepting : ∀ k ∈ kinds, Accepting (k.first capacity :: k.below capacity) r.backend
  lines : ∀ k ∈ kinds, r.Holds capacity (φ k) k (given history k.1) (quiet k)

variable {kinds : List Kind} {capacity : Nat} {φ : Kind → Key → Form} {history : List (String × Indicator)}
  {quiet : Kind → Prop} {r : Registry} {j k : Kind}

theorem Holding.mono {q : Kind → Prop} (h : r.Holding kinds capacity φ history quiet)
    (hq : ∀ k ∈ kinds, q k → quiet k) : r.Holding kinds capacity φ history q :=
  ⟨h.apart, h.measure, h.names, h.accepting, fun k hk => by
    obtain ⟨states, W, hline, hlone, hview⟩ := h.lines k hk
    exact ⟨states, W, hline, hlone, fun hqk => hview (hq k hk hqk)⟩⟩

/-- Work on one line, of its own stages, keeps the account of every other. -/
theorem Holds.frame {H : List Indicator} {q : Prop} (ha : Kind.Apart kinds) (hj : j ∈ kinds) (hk : k ∈ kinds)
    (hne : j ≠ k) {l : Line} {b : Backend}
    (hb : Extends (Among (k.first capacity :: k.below capacity)) r.backend b) {ψ : Key → Form}
    (h : r.Holds capacity ψ j H q) :
    Holds ⟨r.lines.insert k.1 l, b⟩ capacity ψ j H q := by
  obtain ⟨states, W, hline, hlone, hquiet⟩ := h
  refine ⟨states, W, ?_, hlone.extends hb fun m hm => ha.disjoint hk hj hne.symm hm, hquiet⟩
  show (r.lines.insert k.1 l).get? j.1 = _
  rw [Dict.get?_insert_of_ne _ _ fun hname => hne (ha.name_inj hj hk hname)]
  exact hline

theorem Holding.names_insert (h : r.Holding kinds capacity φ history quiet) (hk : k ∈ kinds) (l : Line) :
    (r.lines.insert k.1 l).keys = kinds.map (·.1) := by
  obtain ⟨states, W, hline, -, -⟩ := h.lines k hk
  have hcontains : r.lines.contains k.1 = true := by
    unfold Dict.contains
    rw [hline]
    rfl
  rw [Dict.keys_insert, hcontains, if_pos rfl]
  exact h.names

theorem Bounded.fits (hb : Bounded kinds history) (hk : k ∈ kinds) {ψ : Key → Form} {ys : List Indicator}
    (h : ∀ y ∈ ys, Total ψ (given history k.1) y) : ∀ y ∈ ys, y.Fits :=
  fun y hy => (h y hy).fits (hb.sums k hk y.key) fun _ hx => hb.codes _ (mem_given.1 hx)

/-- With nothing waiting in its first stage, the first table of a line holds what the line was given. -/
theorem Holds.get {H : List Indicator} {ψ : Key → Form} (h : r.Holds capacity ψ k H True)
    (hm : ∀ key, (ψ key).1 = k.2) (hH : ∀ x ∈ H, x.value.Proper ∧ x.value.form = ψ x.key) (key : Key) :
    r.backend.store.get ⟨k.1, k.2, .minute⟩ key = .ok (combineAll (under key H)) := by
  obtain ⟨states, W, -, hlone, hview⟩ := h
  have hbalanced := hview trivial ▸ hlone.keeping.balanced
  rw [← hbalanced.stored_eq hH key]
  exact hlone.keeping.legible.get hm key

/-! ## Building -/

/-- Registering kinds of different names gives each its cascade, in order. -/
theorem registerAll_ok : ∀ {kinds : List Kind} {r : Registry}, (kinds.map (·.1)).Nodup →
    (∀ k ∈ kinds, r.lines.get? k.1 = none) →
    ∃ r', registerAll capacity kinds r = .ok r' ∧ r'.backend = r.backend ∧
      r'.lines.keys = r.lines.keys ++ kinds.map (·.1) ∧
      (∀ k ∈ kinds, r'.lines.get? k.1 = some (.cascade k.1 k.2 capacity)) ∧
      ∀ name, name ∉ kinds.map (·.1) → r'.lines.get? name = r.lines.get? name
  | [], r, _, _ => ⟨r, rfl, rfl, by simp, fun _ hk => (List.not_mem_nil hk).elim, fun _ _ => rfl⟩
  | k :: rest, r, hnodup, hnew => by
    rw [List.map_cons, List.nodup_cons] at hnodup
    -- the name is new, so the line goes to the end and nobody is replaced
    have hno : r.lines.contains k.1 = false := by
      unfold Dict.contains
      rw [hnew k (List.mem_cons_self ..)]
      rfl
    have hrest : ∀ j ∈ rest, (r.lines.insert k.1 (.cascade k.1 k.2 capacity)).get? j.1 = none := by
      intro j hj
      have hne : j.1 ≠ k.1 := fun heq => hnodup.1 (heq ▸ List.mem_map_of_mem hj)
      rw [Dict.get?_insert_of_ne _ _ hne]
      exact hnew j (List.mem_cons_of_mem _ hj)
    obtain ⟨r', hr', hbackend, hkeys, hlines, hothers⟩ :=
      registerAll_ok (r := ⟨r.lines.insert k.1 (.cascade k.1 k.2 capacity), r.backend⟩) hnodup.2 hrest
    refine ⟨r', ?_, hbackend, ?_, fun j hj => ?_, fun name hname => ?_⟩
    · obtain ⟨kind, measure⟩ := k
      unfold registerAll register
      rw [hno, if_neg Bool.false_ne_true]
      exact hr'
    · rw [hkeys, Dict.keys_insert, hno, if_neg Bool.false_ne_true, List.map_cons, List.append_assoc]
      rfl
    · rcases List.mem_cons.1 hj with rfl | hj
      · rw [hothers _ hnodup.1]
        exact Dict.get?_insert_self ..
      · exact hlines j hj
    · rw [List.map_cons, List.mem_cons, not_or] at hname
      rw [hothers name hname.2]
      exact Dict.get?_insert_of_ne _ _ hname.1

/-- A new registry over empty tables holds the empty history. -/
theorem build_holding (ha : Kind.Apart kinds) (hm : ∀ k ∈ kinds, ∀ key, (φ k key).1 = k.2) {st : Store}
    (order : Layout → Nat → DrainOrder)
    (hst : ∀ k ∈ kinds, ∀ name ∈ k.tables, ∃ t, st.tables.get? name = some t ∧ t.rows = ∅) :
    ∃ r, build (some { store := st, order := order }) capacity kinds = .ok r ∧
      r.Holding kinds capacity φ [] (fun _ => True) := by
  obtain ⟨r, hr, hbackend, hkeys, hlines, -⟩ :=
    @registerAll_ok capacity kinds { backend := { store := st, order := order } } ha.names fun _ _ => rfl
  refine ⟨r, hr, ha, hm, hkeys, fun k hk => ⟨by rw [hbackend], fun s hs => ?_⟩,
    fun k hk => ⟨.initial _, [], hlines k hk, ?_, fun _ => rfl⟩⟩
  · obtain ⟨t, ht, -⟩ := hst k hk s.layout.table ((Kind.mem_tables capacity k).1 ⟨s, hs, rfl⟩)
    rw [hbackend]
    unfold Store.hasTable Dict.contains
    rw [ht]
    rfl
  rw [hbackend]
  obtain ⟨t, ht, hrows⟩ := hst k hk k.1 k.minute_mem_tables
  refine ⟨keeping_initial ht hrows, States.sane_initial _, Store.saneOn_empty ?_⟩
  intro name hname t ht
  have htables : Tables (k.first capacity :: k.below capacity) name := by
    obtain ⟨s, hs, htable⟩ := hname
    exact ⟨s, List.mem_cons_of_mem _ hs, htable⟩
  obtain ⟨t', ht', hrows'⟩ := hst k hk name ((Kind.mem_tables capacity k).1 htables)
  obtain rfl : t' = t := Option.some.inj (ht'.symm.trans ht)
  exact hrows'

/-! ## Updates -/

/-- An update for a kind is taken, and added to what that kind was given. -/
theorem Holding.submit {x : Indicator} (h : r.Holding kinds capacity φ history quiet) (hk : k ∈ kinds)
    (hb : Bounded kinds history) (hx : x.value.Proper) (hf : x.value.form = φ k x.key) :
    ∃ r', r.submit k.1 x = (.ok (.ok ()), r') ∧
      r'.Holding kinds capacity φ (history ++ [(k.1, x)]) (fun _ => False) := by
  obtain ⟨states, W, hline, hlone, -⟩ := h.lines k hk
  obtain ⟨states', b', ys, hsubmit, htotal, hlone'⟩ := hlone.submit (h.apart.own hk) (h.measure k hk) hx hf
  have hext := submitIn_extends (k.first capacity :: k.below capacity) [] 0 x states r.backend
  rw [hsubmit] at hext
  refine ⟨⟨r.lines.insert k.1 ⟨k.first capacity :: k.below capacity, states'⟩, b'⟩, ?_, h.apart, h.measure,
    h.names_insert hk _, fun j hj => (h.accepting j hj).extends hext, fun j hj => ?_⟩
  · simp only [Registry.submit, onLine, hline, Line.submit, Line.submitAt, hsubmit]
    rfl
  · rw [given_append]
    -- the line of `k` goes on with the update; every other line is framed
    by_cases hjk : j = k
    · subst hjk
      have hone : given [(j.1, x)] j.1 = [x] := by simp [given]
      rw [hone]
      exact ⟨states', W ++ ys, Dict.get?_insert_self .., hlone' (hb.fits hk htotal), False.elim⟩
    · have hnone : given [(k.1, x)] j.1 = [] := by
        have hname : k.1 ≠ j.1 := fun heq => hjk (h.apart.name_inj hj hk heq.symm)
        simp [given, hname]
      rw [hnone, List.append_nil]
      obtain ⟨states₂, W₂, hline₂, hlone₂, -⟩ := Holds.frame h.apart hj hk hjk hext (h.lines j hj)
      exact ⟨states₂, W₂, hline₂, hlone₂, False.elim⟩

/-! ## Flushes -/

/-- A flush of one line meets no error and leaves nothing waiting in its first stage. -/
theorem Holding.flushLine (h : r.Holding kinds capacity φ history quiet) (hk : k ∈ kinds)
    (hb : Bounded kinds history) :
    ∃ r', r.onLine k.1 Line.flush = (some (.ok (.ok ())), r') ∧
      r'.Holding kinds capacity φ history (fun j => quiet j ∨ j = k) := by
  obtain ⟨states, W, hline, hlone, -⟩ := h.lines k hk
  obtain ⟨a, states', b', ys, hall, hview, htotal, hlone'⟩ := hlone.flushAll (h.apart.own hk) (h.measure k hk)
  have hext := flushAllIn_extends (k.first capacity :: k.below capacity) states r.backend
  have haccepted := flushAllIn_accepted _ states r.backend (h.accepting k hk)
  rw [hall] at hext haccepted
  obtain rfl : a = .ok () := by
    cases a with
    | ok u => rfl
    | error e => exact absurd rfl (haccepted e)
  refine ⟨⟨r.lines.insert k.1 ⟨k.first capacity :: k.below capacity, states'⟩, b'⟩, ?_, h.apart, h.measure,
    h.names_insert hk _, fun j hj => (h.accepting j hj).extends hext, fun j hj => ?_⟩
  · simp only [onLine, hline, Line.flush, hall]
  · -- the line of `k` comes to rest; every other line is framed
    by_cases hjk : j = k
    · subst hjk
      exact ⟨states', W ++ ys, Dict.get?_insert_self .., hlone' (hb.fits hk htotal), fun _ => hview⟩
    · obtain ⟨states₂, W₂, hline₂, hlone₂, hquiet₂⟩ := Holds.frame h.apart hj hk hjk hext (h.lines j hj)
      exact ⟨states₂, W₂, hline₂, hlone₂, fun hq => hquiet₂ (hq.resolve_right hjk)⟩

theorem Holding.flushLines (hb : Bounded kinds history) :
    ∀ {names : List Kind} {quiet : Kind → Prop} {r : Registry}, r.Holding kinds capacity φ history quiet →
      (∀ k ∈ names, k ∈ kinds) →
      ∃ r', flushLines (names.map (·.1)) r = (.ok (.ok ()), r') ∧
        r'.Holding kinds capacity φ history (fun j => quiet j ∨ j ∈ names)
  | [], quiet, r, h, _ => ⟨r, rfl, h.mono fun _ _ hq => hq.resolve_right List.not_mem_nil⟩
  | k :: rest, quiet, r, h, hnames => by
    obtain ⟨r', hline, h'⟩ := h.flushLine (hnames k (List.mem_cons_self ..)) hb
    obtain ⟨r'', hrest, h''⟩ := Holding.flushLines hb h' fun j hj => hnames j (List.mem_cons_of_mem _ hj)
    refine ⟨r'', ?_, h''.mono fun j _ hq => ?_⟩
    · rw [List.map_cons]
      unfold Registry.flushLines
      rw [hline]
      exact hrest
    · rwa [List.mem_cons, ← or_assoc] at hq

/-- A flush of all lines meets no error, and nothing waits in the first stage of any afterwards. -/
theorem Holding.flushAll (h : r.Holding kinds capacity φ history quiet) (hb : Bounded kinds history) :
    ∃ r', r.flushAll = (.ok (.ok ()), r') ∧ r'.Holding kinds capacity φ history (fun _ => True) := by
  obtain ⟨r', hflush, h'⟩ := Holding.flushLines hb h fun (k : Kind) (hk : k ∈ kinds) => hk
  refine ⟨r', ?_, h'.mono fun k hk _ => .inr hk⟩
  unfold Registry.flushAll
  rw [h.names, hflush]

end Registry

end MetricCascade
