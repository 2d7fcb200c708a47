/-
Installing tables. Making the missing tables of some layouts touches none that is there, and what passed its
check goes on passing it, so a list that was installed can be installed again and nothing happens. It is
refused for the first layout whose table was there before its turn and lacks one of its columns. Made anew,
every table is empty and has the columns of the last layout of its name.
-/
import MetricCascade.Proofs.Table.View

namespace MetricCascade

namespace Table

/-- The empty table with exactly the columns of a layout. -/
def made (l : Layout) : Table := { columns := l.columns.map (·.name) }

/-- The table has every column of the layout. -/
def Fits (t : Table) (l : Layout) : Prop := ∀ c ∈ l.columns, c.name ∈ t.columns

/-- The first column of the layout that the table does not have. -/
def FirstLacking (t : Table) (l : Layout) (c : Column) : Prop :=
  ∃ before after, l.columns = before ++ c :: after ∧ c.name ∉ t.columns ∧ ∀ d ∈ before, d.name ∈ t.columns

theorem made_fits (l : Layout) : (made l).Fits l := fun _ hc => List.mem_map_of_mem hc

theorem find?_lacking_eq_some_iff {t : Table} {l : Layout} {c : Column} :
    l.columns.find? (fun c => !t.columns.contains c.name) = some c ↔ t.FirstLacking l c := by
  rw [List.find?_eq_some_iff_append]
  constructor
  · rintro ⟨hlacks, before, after, hcolumns, hbefore⟩
    exact ⟨before, after, hcolumns, by simpa using hlacks, by simpa using hbefore⟩
  · rintro ⟨before, after, hcolumns, hlacks, hbefore⟩
    exact ⟨by simpa using hlacks, before, after, hcolumns, by simpa using hbefore⟩

theorem find?_lacking_eq_none_iff {t : Table} {l : Layout} :
    l.columns.find? (fun c => !t.columns.contains c.name) = none ↔ t.Fits l := by
  simp [Fits]

end Table

namespace Store

variable {s t u : Store} {l : Layout} {ls : List Layout} {e : StoreError}

/-! ## Checking -/

theorem checkColumns_eq_ok_iff :
    s.checkColumns l = .ok () ↔ ∃ table, s.tables.get? l.table = some table ∧ table.Fits l := by
  unfold checkColumns
  cases s.tables.get? l.table with
  | none => simp
  | some table =>
    simp only [Option.some.injEq, exists_eq_left', ← Table.find?_lacking_eq_none_iff]
    cases l.columns.find? fun c => !table.columns.contains c.name <;> simp

/-- A table that is there is refused for the first column that it lacks. -/
theorem checkColumns_eq_error_iff {table : Table} (h : s.tables.get? l.table = some table) :
    s.checkColumns l = .error e ↔ ∃ c, table.FirstLacking l c ∧ e = .columnMissing l.table c.name := by
  unfold checkColumns
  simp only [h, ← Table.find?_lacking_eq_some_iff]
  cases l.columns.find? fun c => !table.columns.contains c.name with
  | none => simp
  | some c => simp [eq_comm]

/-! ## What stays -/

/-- Every table of `s` is in `t` as it was, and no batch was written. -/
structure Grown (s t : Store) : Prop where
  tables : ∀ name table, s.tables.get? name = some table → t.tables.get? name = some table
  batches : t.batches = s.batches

theorem Grown.refl (s : Store) : Grown s s := ⟨fun _ _ h => h, rfl⟩

theorem Grown.trans (h : Grown s t) (h' : Grown t u) : Grown s u :=
  ⟨fun name table htable => h'.tables name table (h.tables name table htable), h'.batches.trans h.batches⟩

/-- A layout whose table passed its check goes on passing it. -/
theorem Grown.checkColumns (h : Grown s t) (hl : s.checkColumns l = .ok ()) : t.checkColumns l = .ok () := by
  obtain ⟨table, htable, hfits⟩ := checkColumns_eq_ok_iff.1 hl
  exact checkColumns_eq_ok_iff.2 ⟨table, h.tables _ _ htable, hfits⟩

theorem hasTable_of_checkColumns (h : s.checkColumns l = .ok ()) : s.hasTable l = true := by
  obtain ⟨table, htable, -⟩ := checkColumns_eq_ok_iff.1 h
  exact Option.isSome_iff_exists.2 ⟨table, htable⟩

/-! ## One layout -/

/-- A layout finds its table as it was, or a new one. -/
theorem installTable_cases (s : Store) (l : Layout) :
    (∃ table, s.tables.get? l.table = some table ∧ s.installTable false l = s) ∨
      s.tables.get? l.table = none ∧ s.installTable false l = s.createTable l := by
  unfold installTable hasTable Dict.contains
  cases s.tables.get? l.table with
  | none => exact .inr ⟨rfl, rfl⟩
  | some table => exact .inl ⟨table, rfl, rfl⟩

theorem get?_createTable (s : Store) (l : Layout) (name : String) :
    (s.createTable l).tables.get? name = if name = l.table then some (.made l) else s.tables.get? name :=
  Dict.get?_insert ..

theorem grown_installTable (s : Store) (l : Layout) : Grown s (s.installTable false l) := by
  rcases installTable_cases s l with ⟨table, -, hsame⟩ | ⟨hnone, hmade⟩
  · rw [hsame]
    exact .refl s
  · rw [hmade]
    refine ⟨fun name table htable => ?_, rfl⟩
    rw [get?_createTable, if_neg, htable]
    rintro rfl
    rw [hnone] at htable
    cases htable

/-- Made anew, the table of a layout is new, and every other one is as it was. -/
theorem get?_installTable_anew (s : Store) (l : Layout) (name : String) :
    (s.installTable true l).tables.get? name = if name = l.table then some (.made l) else s.tables.get? name := by
  unfold installTable
  split
  · rw [if_pos rfl, get?_createTable]
    split
    · rfl
    · rename_i hname
      exact (Dict.get?_erase ..).trans (if_neg hname)
  · exact get?_createTable ..

theorem batches_installTable (s : Store) (anew : Bool) (l : Layout) : (s.installTable anew l).batches = s.batches := by
  unfold installTable
  split
  · split <;> rfl
  · rfl

/-! ## Lists of layouts -/

theorem install_cons (s : Store) (anew : Bool) (l : Layout) (rest : List Layout) :
    s.install anew (l :: rest) =
      match (s.installTable anew l).checkColumns l with
      | .error e => (.error e, s.installTable anew l)
      | .ok () => (s.installTable anew l).install anew rest := rfl

/-- The rest of a list is installed where the first part was. -/
theorem install_append {anew : Bool} {before : List Layout} (h : s.install anew before = (.ok (), t))
    (rest : List Layout) : s.install anew (before ++ rest) = t.install anew rest := by
  induction before generalizing s with
  | nil =>
    cases h
    rfl
  | cons l before ih =>
    rw [install_cons] at h
    rw [List.cons_append, install_cons]
    split at h
    · cases h
    · exact ih h

theorem grown_install (s : Store) (ls : List Layout) : Grown s (s.install false ls).2 := by
  induction ls generalizing s with
  | nil => exact .refl s
  | cons l rest ih =>
    rw [install_cons]
    split
    · exact grown_installTable s l
    · exact (grown_installTable s l).trans (ih _)

/-- What was installed passes its check. -/
theorem checkColumns_of_install (h : s.install false ls = (.ok (), t)) : ∀ l ∈ ls, t.checkColumns l = .ok () := by
  induction ls generalizing s with
  | nil => exact fun _ hl => by cases hl
  | cons l rest ih =>
    rw [install_cons] at h
    split at h
    · cases h
    · rename_i hcheck
      intro m hm
      rcases List.mem_cons.1 hm with rfl | hm
      · have hgrown := grown_install (s.installTable false m) rest
        rw [h] at hgrown
        exact hgrown.checkColumns hcheck
      · exact ih h m hm

/-- Where every layout passes its check, there is nothing to do. -/
theorem install_of_checkColumns (h : ∀ l ∈ ls, s.checkColumns l = .ok ()) : s.install false ls = (.ok (), s) := by
  induction ls with
  | nil => rfl
  | cons l rest ih =>
    have hl := h l (List.mem_cons_self ..)
    have hsame : s.installTable false l = s := by
      unfold installTable
      rw [if_pos (hasTable_of_checkColumns hl)]
      rfl
    rw [install_cons, hsame, hl]
    exact ih fun m hm => h m (List.mem_cons_of_mem _ hm)

/-- A list is refused for the first layout that finds, once those before it are installed, a table that lacks one
of its columns. Nothing is done for that layout and for those after it. -/
theorem install_eq_error_iff : s.install false ls = (.error e, t) ↔
    ∃ before l after table c, ls = before ++ l :: after ∧ s.install false before = (.ok (), t) ∧
      t.tables.get? l.table = some table ∧ table.FirstLacking l c ∧ e = .columnMissing l.table c.name := by
  constructor
  · intro h
    induction ls generalizing s with
    | nil => cases h
    | cons l rest ih =>
      rw [install_cons] at h
      split at h
      · -- the layout itself: its table cannot be new, since a new one would pass
        rename_i e' herror
        cases h
        rcases installTable_cases s l with ⟨table, htable, hsame⟩ | ⟨-, hmade⟩
        · rw [hsame] at herror ⊢
          obtain ⟨c, hlacking, rfl⟩ := (checkColumns_eq_error_iff htable).1 herror
          exact ⟨[], l, rest, table, c, rfl, rfl, htable, hlacking, rfl⟩
        · have hpasses : (s.createTable l).checkColumns l = .ok () :=
            checkColumns_eq_ok_iff.2 ⟨.made l, (get?_createTable ..).trans (if_pos rfl), Table.made_fits l⟩
          rw [hmade, hpasses] at herror
          cases herror
      · rename_i hcheck
        obtain ⟨before, m, after, table, c, rfl, hbefore, hrest⟩ := ih h
        refine ⟨l :: before, m, after, table, c, rfl, ?_, hrest⟩
        rw [install_cons, hcheck]
        exact hbefore
  · rintro ⟨before, l, after, table, c, rfl, hbefore, htable, hlacking, rfl⟩
    have hsame : t.installTable false l = t := by
      unfold installTable hasTable Dict.contains
      rw [htable]
      rfl
    rw [install_append hbefore, install_cons, hsame, (checkColumns_eq_error_iff htable).2 ⟨c, hlacking, rfl⟩]

/-- Made anew, every list is installed: a table is that of the last layout of its name, and stays what it was if
there is none. -/
theorem install_anew (s : Store) (ls : List Layout) :
    ∃ t, s.install true ls = (.ok (), t) ∧ t.batches = s.batches ∧
      (∀ name, (∀ l ∈ ls, l.table ≠ name) → t.tables.get? name = s.tables.get? name) ∧
      ∀ before l after, ls = before ++ l :: after → (∀ m ∈ after, m.table ≠ l.table) →
        t.tables.get? l.table = some (.made l) := by
  induction ls generalizing s with
  | nil => exact ⟨s, rfl, rfl, fun _ _ => rfl, fun before l after h => by simp at h⟩
  | cons l rest ih =>
    obtain ⟨t, hrest, hbatches, hother, hlast⟩ := ih (s.installTable true l)
    have hmade : (s.installTable true l).tables.get? l.table = some (.made l) :=
      (get?_installTable_anew ..).trans (if_pos rfl)
    refine ⟨t, ?_, hbatches.trans (batches_installTable ..), fun name hname => ?_, fun before m after h hafter => ?_⟩
    · rw [install_cons, checkColumns_eq_ok_iff.2 ⟨_, hmade, Table.made_fits l⟩]
      exact hrest
    · rw [hother name fun m hm => hname m (List.mem_cons_of_mem _ hm), get?_installTable_anew, if_neg]
      exact (hname l (List.mem_cons_self ..)).symm
    · cases before with
      | nil =>
        obtain ⟨rfl, rfl⟩ := List.cons.inj h
        rw [hother _ hafter, hmade]
      | cons _ before =>
        obtain ⟨rfl, rfl⟩ := List.cons.inj h
        exact hlast before m after rfl hafter

/-- Installing what is missing is safe. If it succeeds, every layout has a table that passes its check, the tables
that were there are as they were, and installing the list once more does nothing. If it is refused, the tables
that were there are as they were too, and it is refused exactly for the first layout that finds, once those before
it are installed, a table that lacks one of its columns. Installing anew always succeeds and leaves the tables of
other names alone; where the layouts have tables of different names, each is empty and has its layout's columns. -/
theorem install_safe (s : Store) (ls : List Layout) :
    (∀ t, s.install false ls = (.ok (), t) →
      (∀ l ∈ ls, t.hasTable l = true ∧ t.checkColumns l = .ok ()) ∧ Grown s t ∧ t.install false ls = (.ok (), t)) ∧
    (∀ e t, s.install false ls = (.error e, t) → Grown s t) ∧
    (∀ e t, s.install false ls = (.error e, t) ↔
      ∃ before l after table c, ls = before ++ l :: after ∧ s.install false before = (.ok (), t) ∧
        t.tables.get? l.table = some table ∧ table.FirstLacking l c ∧ e = .columnMissing l.table c.name) ∧
    ∃ t, s.install true ls = (.ok (), t) ∧ t.batches = s.batches ∧
      (∀ name, (∀ l ∈ ls, l.table ≠ name) → t.tables.get? name = s.tables.get? name) ∧
      ((ls.map (·.table)).Nodup → ∀ l ∈ ls, t.tables.get? l.table = some (.made l)) := by
  have hgrown := grown_install s ls
  refine ⟨fun t h => ?_, fun e t h => ?_, fun e t => install_eq_error_iff, ?_⟩
  · rw [h] at hgrown
    have hchecked := checkColumns_of_install h
    exact ⟨fun l hl => ⟨hasTable_of_checkColumns (hchecked l hl), hchecked l hl⟩, hgrown, install_of_checkColumns hchecked⟩
  · rw [h] at hgrown
    exact hgrown
  · obtain ⟨t, hinstall, hbatches, hother, hlast⟩ := install_anew s ls
    refine ⟨t, hinstall, hbatches, hother, fun hnodup l hl => ?_⟩
    obtain ⟨before, after, rfl⟩ := List.append_of_mem hl
    refine hlast before l after rfl fun m hm heq => ?_
    rw [List.map_append, List.map_cons, List.nodup_append] at hnodup
    exact (List.nodup_cons.1 hnodup.2.1).1 (heq ▸ List.mem_map_of_mem hm)

/-- Two calls of one minute, in the only table that is there. -/
def callsKept : Store :=
  (({} : Store).createTable ⟨"calls", .count, .minute⟩).write
    (.storing .insert ⟨"calls", .count, .minute⟩ (.count "checkout" ⟨202403151427⟩ 2))

/-- The minutes and hours of calls can be installed beside the row that is there, and installed anew without it. An
average of calls finds the table that the count of calls has got in the same list, and is refused. -/
theorem install_safe_callsKept :
    (∃ t, callsKept.install false [⟨"calls", .count, .minute⟩, ⟨"calls", .count, .hour⟩] = (.ok (), t) ∧
      t.tables.get? "calls" = callsKept.tables.get? "calls" ∧
      t.install false [⟨"calls", .count, .minute⟩, ⟨"calls", .count, .hour⟩] = (.ok (), t)) ∧
    (∃ t, callsKept.install false [⟨"calls", .count, .hour⟩, ⟨"calls", .average, .hour⟩, ⟨"calls", .count, .day⟩] =
        (.error (.columnMissing "calls_hour" "summation"), t) ∧
      t.tables.get? "calls" = callsKept.tables.get? "calls") ∧
    ∃ t, callsKept.install true [⟨"calls", .count, .minute⟩, ⟨"calls", .count, .hour⟩] = (.ok (), t) ∧
      t.tables.get? "calls" = some (.made ⟨"calls", .count, .minute⟩) := by
  obtain ⟨hsafe, -, -, t, hanew, -, -, hmade⟩ :=
    install_safe callsKept [⟨"calls", .count, .minute⟩, ⟨"calls", .count, .hour⟩]
  obtain ⟨-, hrefused, -, -⟩ :=
    install_safe callsKept [⟨"calls", .count, .hour⟩, ⟨"calls", .average, .hour⟩, ⟨"calls", .count, .day⟩]
  refine ⟨?_, ?_, t, hanew, hmade (by decide) _ (List.mem_cons_self ..)⟩
  · obtain ⟨-, hgrown, hagain⟩ := hsafe _ rfl
    exact ⟨_, rfl, hgrown.tables _ _ rfl, hagain⟩
  · have hgrown := hrefused _ _ rfl
    exact ⟨_, rfl, hgrown.tables _ _ rfl⟩

end Store

end MetricCascade
