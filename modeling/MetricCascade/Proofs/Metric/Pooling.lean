/-
Indicators pooled key by key, level after level. Rolling up to a level, pooling what falls into one window, rolling
the pools up further and pooling them again gives what rolling up at once and pooling gives: the windows of a level
lie within those of a coarser one, so the raw figures of a coarse window are the sum of those of the finer windows
in it, however they were taken together.
-/
import MetricCascade.Proofs.Metric.Grouping
import Mathlib.Data.List.Dedup

namespace MetricCascade

/-- Where a function answers for every element, going through the list answers with all results. -/
theorem mapM_eq_ok {α β ε : Type} {f : α → Except ε β} {xs : List α} (h : ∀ x ∈ xs, ∃ y, f x = .ok y) :
    xs.mapM f = .ok (xs.filterMap fun x => (f x).toOption) := by
  induction xs with
  | nil => rfl
  | cons x xs ih =>
    obtain ⟨y, hy⟩ := h x (List.mem_cons_self ..)
    rw [List.mapM_cons, hy, ih fun z hz => h z (List.mem_cons_of_mem _ hz), List.filterMap_cons, hy]
    rfl

/-! ## Keys of coarser windows -/

/-- The key of the window of level `l` that holds the window of the key. -/
def Key.widened (l : Level) (k : Key) : Option Key := (k.bucket.widen l).toOption.map (Key.mk k.entity)

theorem Key.widened_eq_some_iff {l : Level} {k j : Key} :
    k.widened l = some j ↔ k.bucket.widen l = .ok j.bucket ∧ j.entity = k.entity := by
  unfold widened
  cases hwiden : k.bucket.widen l with
  | error e => simp [Except.toOption]
  | ok b =>
    simp only [Except.toOption, Option.map_some, Option.some.injEq, Except.ok.injEq]
    constructor
    · rintro rfl
      exact ⟨rfl, rfl⟩
    · rintro ⟨rfl, hentity⟩
      rw [← hentity]

/-- Two steps to a coarser window end where one does. -/
theorem Key.widened_widened {l m : Level} {k j : Key} (h : k.widened l = some j) (hle : l ≤ m) :
    j.widened m = k.widened m := by
  obtain ⟨hbucket, hentity⟩ := Key.widened_eq_some_iff.1 h
  unfold Key.widened
  rw [Bucket.widen_widen hbucket hle, hentity]

namespace Indicator

theorem rollup_key {l : Level} {x y : Indicator} (h : x.rollup l = .ok y) : x.key.widened l = some y.key := by
  obtain ⟨hbucket, hentity, -⟩ := rollup_eq_ok_iff.1 h
  exact Key.widened_eq_some_iff.2 ⟨hbucket, hentity⟩

theorem widened_of_error {l : Level} {x : Indicator} {e : BucketError} (h : x.rollup l = .error e) :
    x.key.widened l = none := by
  unfold rollup at h
  unfold Key.widened
  cases hwiden : x.key.bucket.widen l with
  | error e' => rfl
  | ok b => rw [hwiden] at h; cases h

/-- An indicator rolls up to every level that is not finer than that of its window. -/
theorem exists_rollup {l n : Level} {x : Indicator} (hn : x.key.bucket.hasLevel n = true) (hle : n ≤ l) :
    ∃ y, x.rollup l = .ok y :=
  ⟨_, rollup_eq_ok_iff (y := ⟨⟨x.key.entity, _⟩, x.value⟩).2 ⟨Bucket.widen_eq_ok_iff.2 ⟨n, hn, hle, rfl⟩, rfl, rfl⟩⟩

theorem hasLevel_of_rollup {l : Level} {x y : Indicator} (h : x.rollup l = .ok y) : y.key.bucket.hasLevel l = true := by
  obtain ⟨n, hn, hle, hbucket⟩ := Bucket.widen_eq_ok_iff.1 (rollup_eq_ok_iff.1 h).1
  rw [hbucket]
  exact Bucket.hasLevel_dropPairs hn hle

theorem rollup_eq_error_iff {l : Level} {x : Indicator} {e : BucketError} :
    x.rollup l = .error e ↔ x.key.bucket.widen l = .error e := by
  unfold rollup
  cases x.key.bucket.widen l <;> simp

theorem mem_keys_rolledUp {l : Level} {xs : List Indicator} {k : Key} :
    k ∈ (rolledUp l xs).map (·.key) ↔ ∃ j ∈ xs.map (·.key), j.widened l = some k := by
  simp only [List.mem_map, mem_rolledUp, exists_exists_and_eq_and]
  constructor
  · rintro ⟨y, ⟨x, hx, hroll⟩, rfl⟩
    exact ⟨x, hx, rollup_key hroll⟩
  · rintro ⟨x, hx, hwide⟩
    cases hroll : x.rollup l with
    | error e => rw [widened_of_error hroll] at hwide; cases hwide
    | ok y =>
      rw [rollup_key hroll] at hwide
      exact ⟨y, ⟨x, hx, hroll⟩, Option.some.inj hwide⟩

/-- What is rolled up is the sum that it was, under another key. -/
theorem rolledUp_sums {f : Form} {l : Level} {xs : List Indicator} (hxs : ∀ x ∈ xs, Sums x.key f x.value.raw x) :
    ∀ y ∈ rolledUp l xs, Sums y.key f y.value.raw y := by
  intro y hy
  obtain ⟨x, hx, hroll⟩ := mem_rolledUp.1 hy
  have hvalue : y.value = x.value := (rollup_eq_ok_iff.1 hroll).2.2
  obtain ⟨-, hproper, hform, -⟩ := hxs x hx
  exact ⟨rfl, hvalue ▸ hproper, hvalue ▸ hform, rfl⟩

/-! ## Raw figures by key -/

/-- Rolling up moves raw figures from keys to the keys that hold them. -/
theorem rawSum_filter_rolledUp (l : Level) (xs : List Indicator) (p : Key → Bool) :
    rawSum ((rolledUp l xs).filter fun y => p y.key) = rawSum (xs.filter fun x => (x.key.widened l).any p) := by
  induction xs with
  | nil => rfl
  | cons x xs ih =>
    cases hroll : x.rollup l with
    | error e =>
      have hcons : rolledUp l (x :: xs) = rolledUp l xs := by unfold rolledUp; rw [List.filterMap_cons, hroll]; rfl
      rw [hcons, List.filter_cons_of_neg (by simp [widened_of_error hroll]), ih]
    | ok y =>
      have hcons : rolledUp l (x :: xs) = y :: rolledUp l xs := by unfold rolledUp; rw [List.filterMap_cons, hroll]; rfl
      have hvalue : y.value = x.value := (rollup_eq_ok_iff.1 hroll).2.2
      simp only [hcons, List.filter_cons, rollup_key hroll, Option.any_some]
      split
      · rw [rawSum_cons, rawSum_cons, ih, hvalue]
      · exact ih

theorem rawSum_filter_or {xs : List Indicator} {p q : Indicator → Bool} (h : ∀ x ∈ xs, p x = true → q x = false) :
    rawSum (xs.filter fun x => p x || q x) = rawSum (xs.filter p) + rawSum (xs.filter q) := by
  induction xs with
  | nil => exact (add_zero _).symm
  | cons x xs ih =>
    have hrest := ih fun y hy => h y (List.mem_cons_of_mem _ hy)
    have hx := h x (List.mem_cons_self ..)
    cases hp : p x <;> cases hq : q x
    · simpa [List.filter_cons, hp, hq] using hrest
    · simp only [List.filter_cons, hp, hq, Bool.or_true, if_true, Bool.false_eq_true, if_false, rawSum_cons, hrest]
      exact add_left_comm _ _ _
    · simp only [List.filter_cons, hp, hq, Bool.or_false, if_true, Bool.false_eq_true, if_false, rawSum_cons, hrest]
      exact (add_assoc _ _ _).symm
    · rw [hx hp] at hq
      cases hq

/-- Distinct keys share no indicator, so the sums under them add up. -/
theorem sum_rawSum_under {ks : List Key} (hks : ks.Nodup) (xs : List Indicator) :
    (ks.map fun k => rawSum (under k xs)).sum = rawSum (xs.filter fun x => x.key ∈ ks) := by
  induction ks with
  | nil => simp
  | cons k ks ih =>
    rw [List.nodup_cons] at hks
    have hsplit : (xs.filter fun x => x.key ∈ k :: ks) = xs.filter fun x => decide (x.key = k) || decide (x.key ∈ ks) := by
      simp
    rw [List.map_cons, List.sum_cons, ih hks.2, hsplit, rawSum_filter_or]
    · rfl
    · intro x _ hx
      rw [of_decide_eq_true hx]
      exact decide_eq_false hks.1

/-! ## Pools -/

/-- `ys` are the indicators `xs` taken together key by key, each key by a plan of its own. -/
structure Pools (xs ys : List Indicator) : Prop where
  nodup : (ys.map (·.key)).Nodup
  keys : ∀ k, k ∈ ys.map (·.key) ↔ k ∈ xs.map (·.key)
  plan : ∀ y ∈ ys, ∃ p : Plan, p.inputs.Perm (under y.key xs) ∧ p.result = some y

variable {f : Form} {xs ys : List Indicator}

/-- Of sums, those under one key are of that key, and of the form that all of them are. -/
theorem alike_under {k : Key} (hxs : ∀ x ∈ xs, Sums x.key f x.value.raw x) :
    ∀ x ∈ under k xs, x.key = k ∧ x.value.Proper ∧ x.value.form = f := by
  intro x hx
  obtain ⟨hmem, hkey⟩ := mem_under.1 hx
  exact ⟨hkey, (hxs x hmem).proper, (hxs x hmem).form⟩

/-- Each pool is the sum of what there is under its key. -/
theorem Pools.sums (h : Pools xs ys) (hxs : ∀ x ∈ xs, Sums x.key f x.value.raw x) :
    ∀ y ∈ ys, Sums y.key f (rawSum (under y.key xs)) y := by
  intro y hy
  obtain ⟨p, hperm, hp⟩ := h.plan y hy
  have hinputs : ∀ x ∈ p.inputs, Sums y.key f x.value.raw x := by
    intro x hx
    obtain ⟨hkey, hproper, hform⟩ := alike_under hxs x (hperm.subset hx)
    exact ⟨hkey, hproper, hform, rfl⟩
  obtain ⟨z, hz, hsum⟩ := p.result_sums hinputs
  rw [hp] at hz
  cases hz
  rw [← rawSum_perm hperm]
  exact hsum

/-- Pooling leaves the sum over any set of keys as it was. -/
theorem Pools.rawSum_filter (h : Pools xs ys) (hxs : ∀ x ∈ xs, Sums x.key f x.value.raw x) (p : Key → Bool) :
    rawSum (ys.filter fun y => p y.key) = rawSum (xs.filter fun x => p x.key) := by
  have hnodup : ((ys.filter fun y => p y.key).map (·.key)).Nodup := h.nodup.sublist (List.filter_sublist.map _)
  have hkeys : ∀ x ∈ xs, decide (x.key ∈ (ys.filter fun y => p y.key).map (·.key)) = p x.key := by
    intro x hx
    obtain ⟨y, hy, hkey⟩ := List.mem_map.1 ((h.keys x.key).2 (List.mem_map_of_mem hx))
    rw [Bool.eq_iff_iff, decide_eq_true_eq]
    constructor
    · rintro hmem
      obtain ⟨z, hz, hzkey⟩ := List.mem_map.1 hmem
      exact hzkey ▸ (List.mem_filter.1 hz).2
    · intro hp
      exact hkey ▸ List.mem_map_of_mem (List.mem_filter.2 ⟨hy, hkey ▸ hp⟩)
  have hraw : (ys.filter fun y => p y.key).map (fun y => y.value.raw) =
      ((ys.filter fun y => p y.key).map (·.key)).map fun k => rawSum (under k xs) := by
    rw [List.map_map]
    exact List.map_congr_left fun y hy => (h.sums hxs y (List.mem_filter.1 hy).1).raw
  show ((ys.filter fun y => p y.key).map fun y => y.value.raw).sum = _
  rw [hraw, sum_rawSum_under hnodup, List.filter_congr hkeys]

/-- A sum of what there is under its key has the figure of all of it combined. -/
theorem Sums.refresh_toOption {y : Indicator} (hy : Sums y.key f (rawSum (under y.key xs)) y)
    (hxs : ∀ x ∈ xs, Sums x.key f x.value.raw x) (hne : under y.key xs ≠ []) :
    y.refresh.toOption = combineAll (under y.key xs) := by
  obtain ⟨z, hz, hsum, hcurrent⟩ := hy.refresh
  rw [combineAll_eq hne (alike_under hxs) hcurrent hsum.raw, hz, ← hsum.key]
  rfl

/-- The pools that combining from the first indicator on makes. -/
def pooled (xs : List Indicator) : List Indicator := (xs.map (·.key)).dedup.filterMap fun k => combineAll (under k xs)

theorem mem_keys_iff {k : Key} : k ∈ xs.map (·.key) ↔ under k xs ≠ [] := by
  rw [Ne, List.eq_nil_iff_forall_not_mem, not_forall_not, List.mem_map]
  exact exists_congr fun x => mem_under.symm

theorem pools_pooled (hxs : ∀ x ∈ xs, Sums x.key f x.value.raw x) : Pools xs (pooled xs) := by
  have hcombined : ∀ k ∈ xs.map (·.key), ∃ y, combineAll (under k xs) = some y ∧ y.key = k ∧
      ∃ p : Plan, p.inputs.Perm (under k xs) ∧ p.result = some y := by
    intro k hk
    have hne := mem_keys_iff.1 hk
    obtain ⟨a, ha, -⟩ := combineAll_current hne (alike_under hxs)
    obtain ⟨x, rest, hcons⟩ := List.exists_cons_of_ne_nil hne
    refine ⟨⟨k, a⟩, ha, rfl, ((Plan.single x).through rest).refreshed, ?_, ?_⟩
    · rw [Plan.inputs, Plan.inputs_through, hcons]
      rfl
    · rw [Plan.result_refreshed_through, ← hcons, ha]
  have hkeys : (pooled xs).map (·.key) = (xs.map (·.key)).dedup := by
    suffices hsub : ∀ ks : List Key, (∀ k ∈ ks, k ∈ xs.map (·.key)) →
        (ks.filterMap fun k => combineAll (under k xs)).map (·.key) = ks from
      hsub _ fun k hk => List.mem_dedup.1 hk
    intro ks hks
    induction ks with
    | nil => rfl
    | cons k ks ih =>
      obtain ⟨y, hy, hkey, -⟩ := hcombined k (hks k (List.mem_cons_self ..))
      rw [List.filterMap_cons, hy, List.map_cons, hkey, ih fun j hj => hks j (List.mem_cons_of_mem _ hj)]
  refine ⟨hkeys ▸ List.nodup_dedup _, fun k => by rw [hkeys, List.mem_dedup], fun y hy => ?_⟩
  obtain ⟨k, hk, hy⟩ := List.mem_filterMap.1 hy
  obtain ⟨z, hz, hkey, hplan⟩ := hcombined k (List.mem_dedup.1 hk)
  obtain rfl : z = y := Option.some.inj (hz.symm.trans hy)
  exact hkey ▸ hplan

/-! ## In steps and at once -/

variable {l m : Level}

/-- A key of the coarser level holds the same raw figures, whether they came there in two steps or in one. -/
theorem rawSum_two_steps (hxs : ∀ x ∈ xs, Sums x.key f x.value.raw x ∧ ∃ y, x.rollup l = .ok y) (hlm : l ≤ m)
    {ps : List Indicator} (hps : Pools (rolledUp l xs) ps) (k : Key) :
    rawSum (under k (rolledUp m ps)) = rawSum (under k (rolledUp m xs)) := by
  have hwiden : ∀ x ∈ xs, (x.key.widened l).any (fun j => (j.widened m).any (· = k)) = (x.key.widened m).any (· = k) := by
    intro x hx
    obtain ⟨y, hy⟩ := (hxs x hx).2
    have hstep := rollup_key hy
    rw [hstep, Option.any_some, Key.widened_widened hstep hlm]
  calc rawSum (under k (rolledUp m ps))
      = rawSum (ps.filter fun p => (p.key.widened m).any (· = k)) := rawSum_filter_rolledUp m ps (· = k)
    _ = rawSum ((rolledUp l xs).filter fun u => (u.key.widened m).any (· = k)) :=
        hps.rawSum_filter (rolledUp_sums fun x hx => (hxs x hx).1) fun j => (j.widened m).any (· = k)
    _ = rawSum (xs.filter fun x => (x.key.widened l).any fun j => (j.widened m).any (· = k)) :=
        rawSum_filter_rolledUp l xs fun j => (j.widened m).any (· = k)
    _ = rawSum (xs.filter fun x => (x.key.widened m).any (· = k)) := by rw [List.filter_congr hwiden]
    _ = rawSum (under k (rolledUp m xs)) := (rawSum_filter_rolledUp m xs (· = k)).symm

theorem keys_two_steps (hxs : ∀ x ∈ xs, ∃ y, x.rollup l = .ok y) (hlm : l ≤ m) {ps : List Indicator}
    (hps : Pools (rolledUp l xs) ps) (k : Key) :
    k ∈ (rolledUp m ps).map (·.key) ↔ k ∈ (rolledUp m xs).map (·.key) := by
  rw [mem_keys_rolledUp, mem_keys_rolledUp]
  constructor
  · rintro ⟨j, hj, hk⟩
    obtain ⟨i, hi, hij⟩ := mem_keys_rolledUp.1 ((hps.keys j).1 hj)
    exact ⟨i, hi, (Key.widened_widened hij hlm).symm.trans hk⟩
  · rintro ⟨i, hi, hk⟩
    obtain ⟨x, hx, rfl⟩ := List.mem_map.1 hi
    obtain ⟨y, hy⟩ := hxs x hx
    have hj : y.key ∈ (rolledUp l xs).map (·.key) := mem_keys_rolledUp.2 ⟨x.key, hi, rollup_key hy⟩
    exact ⟨y.key, (hps.keys y.key).2 hj, (Key.widened_widened (rollup_key hy) hlm).trans hk⟩

/-- The figures of pools are those of all that another list holds under each key, if it holds the same under it. -/
theorem Pools.refresh {vs : List Indicator} (h : Pools xs ys) (hxs : ∀ x ∈ xs, Sums x.key f x.value.raw x)
    (hvs : ∀ v ∈ vs, Sums v.key f v.value.raw v) (hraw : ∀ k, rawSum (under k xs) = rawSum (under k vs))
    (hkeys : ∀ k, k ∈ xs.map (·.key) ↔ k ∈ vs.map (·.key)) :
    ys.mapM refresh = .ok ((ys.map (·.key)).filterMap fun k => combineAll (under k vs)) := by
  have hsums := h.sums hxs
  rw [mapM_eq_ok, List.filterMap_map]
  · congr 1
    apply List.filterMap_congr
    intro y hy
    have hsum := hsums y hy
    rw [hraw] at hsum
    exact hsum.refresh_toOption hvs (mem_keys_iff.1 ((hkeys _).1 ((h.keys _).1 (List.mem_map_of_mem hy))))
  · intro y hy
    obtain ⟨z, hz, -⟩ := (hsums y hy).refresh
    exact ⟨z, hz⟩

/-- Rolling up to a level and pooling, and then rolling up further and pooling again, gives the same indicators as
rolling up at once and pooling, whatever plans the pools are made by. Rolling up fails exactly for a window of no level
and for one of a coarser level than the target, and changes nothing but the window. -/
theorem rolled_in_steps (hlm : l ≤ m) (hxs : ∀ x ∈ xs, x.Made ∧ x.value.form = f ∧
      ∃ n, x.key.bucket.hasLevel n = true ∧ n ≤ l) :
    xs.mapM (·.rollup l) = .ok (rolledUp l xs) ∧ xs.mapM (·.rollup m) = .ok (rolledUp m xs) ∧
    (∃ ps, Pools (rolledUp l xs) ps) ∧ (∃ ws, Pools (rolledUp m xs) ws) ∧
    (∀ ps, Pools (rolledUp l xs) ps → ps.mapM (·.rollup m) = .ok (rolledUp m ps) ∧
      (∃ rs, Pools (rolledUp m ps) rs) ∧
      ∀ rs ws, Pools (rolledUp m ps) rs → Pools (rolledUp m xs) ws →
        ∃ zs zs', rs.mapM refresh = .ok zs ∧ ws.mapM refresh = .ok zs' ∧ zs.Perm zs') ∧
    (∀ (x : Indicator) (target : Level) (e : BucketError), x.rollup target = .error e ↔
      (∀ n, x.key.bucket.hasLevel n = false) ∧ e = .unknownLevel x.key.bucket ∨
        ∃ n, x.key.bucket.hasLevel n = true ∧ ¬ n ≤ target ∧ e = .finerTarget x.key.bucket n target) ∧
    (∀ (x y : Indicator) (target : Level), x.rollup target = .ok y →
      y.key.entity = x.key.entity ∧ y.value = x.value ∧ y.key.bucket.hasLevel target = true) := by
  have hsums : ∀ x ∈ xs, Sums x.key f x.value.raw x := fun x hx => (hxs x hx).1.sums (hxs x hx).2.1
  have hfine : ∀ x ∈ xs, ∃ y, x.rollup l = .ok y := fun x hx =>
    have ⟨_, hn, hle⟩ := (hxs x hx).2.2
    exists_rollup hn hle
  have hcoarse : ∀ x ∈ xs, ∃ y, x.rollup m = .ok y := fun x hx =>
    have ⟨_, hn, hle⟩ := (hxs x hx).2.2
    exists_rollup hn (Nat.le_trans hle hlm)
  have hfined := rolledUp_sums (l := l) hsums
  have hcoarsed := rolledUp_sums (l := m) hsums
  refine ⟨mapM_eq_ok hfine, mapM_eq_ok hcoarse, ⟨_, pools_pooled hfined⟩, ⟨_, pools_pooled hcoarsed⟩, ?_, ?_, ?_⟩
  · intro ps hps
    have hpooled : ∀ p ∈ ps, Sums p.key f p.value.raw p := fun p hp => (hps.sums hfined p hp).own
    have hrolls : ∀ p ∈ ps, ∃ y, p.rollup m = .ok y := by
      intro p hp
      obtain ⟨u, hu, hkey⟩ := List.mem_map.1 ((hps.keys p.key).1 (List.mem_map_of_mem hp))
      obtain ⟨x, hx, hroll⟩ := mem_rolledUp.1 hu
      have hlevel := hasLevel_of_rollup hroll
      rw [hkey] at hlevel
      exact exists_rollup hlevel hlm
    have hstepped := rolledUp_sums (l := m) hpooled
    refine ⟨mapM_eq_ok hrolls, ⟨_, pools_pooled hstepped⟩, fun rs ws hrs hws => ?_⟩
    have hraw := rawSum_two_steps (fun x hx => ⟨hsums x hx, hfine x hx⟩) hlm hps
    have hkeys := keys_two_steps hfine hlm hps
    have hsame : (rs.map (·.key)).Perm (ws.map (·.key)) := by
      rw [List.perm_ext_iff_of_nodup hrs.nodup hws.nodup]
      intro k
      rw [hrs.keys, hws.keys, hkeys]
    exact ⟨_, _, hrs.refresh hstepped hcoarsed hraw hkeys,
      hws.refresh hcoarsed hcoarsed (fun _ => rfl) (fun _ => Iff.rfl), hsame.filterMap _⟩
  · intro x target e
    rw [rollup_eq_error_iff, Bucket.widen_eq_error_iff]
  · intro x y target h
    obtain ⟨-, hentity, hvalue⟩ := rollup_eq_ok_iff.1 h
    exact ⟨hentity, hvalue, hasLevel_of_rollup h⟩

/-- Calls of two hours of one day. -/
def threeMinutes : List Indicator :=
  [.count "checkout" ⟨202403151427⟩ 1, .count "checkout" ⟨202403151459⟩ 2, .count "checkout" ⟨202403151500⟩ 4]

/-- The calls of each hour, and of both hours, are those of the day. -/
theorem rolled_in_steps_threeMinutes :
    Level.hour ≤ Level.day ∧
      (∀ x ∈ threeMinutes, x.Made ∧ x.value.form = (.count, none) ∧
        ∃ n, x.key.bucket.hasLevel n = true ∧ n ≤ .hour) ∧
      pooled (rolledUp .hour threeMinutes) =
        [.count "checkout" ⟨2024031514⟩ 3, .count "checkout" ⟨2024031515⟩ 4] ∧
      pooled (rolledUp .day (pooled (rolledUp .hour threeMinutes))) = [.count "checkout" ⟨20240315⟩ 7] ∧
      ∃ zs zs', (pooled (rolledUp .day (pooled (rolledUp .hour threeMinutes)))).mapM refresh = .ok zs ∧
        (pooled (rolledUp .day threeMinutes)).mapM refresh = .ok zs' ∧ zs.Perm zs' := by
  have hmade : ∀ x ∈ threeMinutes, x.Made ∧ x.value.form = (.count, none) ∧
      ∃ n, x.key.bucket.hasLevel n = true ∧ n ≤ .hour := by
    intro x hx
    simp only [threeMinutes, List.mem_cons, List.not_mem_nil, or_false] at hx
    rcases hx with rfl | rfl | rfl <;>
      exact ⟨.observed (.count (by decide) (by decide)), rfl, .minute, by decide, by decide⟩
  obtain ⟨-, -, -, -, hsteps, -, -⟩ := rolled_in_steps (l := .hour) (m := .day) (by decide) hmade
  have hsums : ∀ x ∈ threeMinutes, Sums x.key (.count, none) x.value.raw x :=
    fun x hx => (hmade x hx).1.sums (hmade x hx).2.1
  have hhours := pools_pooled (rolledUp_sums (l := .hour) hsums)
  have hpooled := fun p hp => (hhours.sums (rolledUp_sums hsums) p hp).own
  refine ⟨by decide, hmade, by decide +kernel, by decide +kernel, ?_⟩
  exact (hsteps _ hhours).2.2 _ _ (pools_pooled (rolledUp_sums hpooled)) (pools_pooled (rolledUp_sums hsums))

end Indicator

end MetricCascade
