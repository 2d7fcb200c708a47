/-
Finite maps that keep the order in which their keys were first inserted. No key occurs twice; that
is a field of the type. Main statements: what `get?` finds after `insert` and `erase`.
-/
namespace MetricCascade

/-- A finite map as a list of pairs, oldest key first. -/
structure Dict (κ α : Type) where
  entries : List (κ × α) := []
  nodup : (entries.map (·.1)).Nodup := by simp

namespace Dict

variable {κ α : Type}

/-- The map without entries. -/
def empty : Dict κ α := {}

instance : EmptyCollection (Dict κ α) := ⟨empty⟩

instance : Inhabited (Dict κ α) := ⟨empty⟩

/-- The number of entries. -/
def size (d : Dict κ α) : Nat := d.entries.length

def isEmpty (d : Dict κ α) : Bool := d.entries.isEmpty

/-- The keys, oldest first. -/
def keys (d : Dict κ α) : List κ := d.entries.map (·.1)

/-- The values, in the order of their keys. -/
def values (d : Dict κ α) : List α := d.entries.map (·.2)

variable [DecidableEq κ]

/-- The first value paired with `k`. -/
def findIn (k : κ) : List (κ × α) → Option α
  | [] => none
  | (j, a) :: rest => if j = k then some a else findIn k rest

/-- Replaces the value paired with `k`, or adds the pair at the end. -/
def putIn (k : κ) (a : α) : List (κ × α) → List (κ × α)
  | [] => [(k, a)]
  | (j, b) :: rest => if j = k then (k, a) :: rest else (j, b) :: putIn k a rest

theorem mem_keys_putIn {k j : κ} {a : α} :
    ∀ {l : List (κ × α)}, j ∈ (putIn k a l).map (·.1) ↔ j = k ∨ j ∈ l.map (·.1)
  | [] => by simp [putIn]
  | (i, b) :: rest => by
    have ih := mem_keys_putIn (k := k) (j := j) (a := a) (l := rest)
    unfold putIn
    by_cases h : i = k
    · subst h; simp
    · simp only [h, if_false, List.map_cons, List.mem_cons, ih]
      exact or_left_comm

theorem nodup_putIn {k : κ} {a : α} :
    ∀ {l : List (κ × α)}, (l.map (·.1)).Nodup → ((putIn k a l).map (·.1)).Nodup
  | [], _ => by simp [putIn]
  | (i, b) :: rest, h => by
    simp only [List.map_cons, List.nodup_cons] at h
    unfold putIn
    by_cases hi : i = k
    · subst hi; simpa using h
    · simp only [hi, if_false, List.map_cons, List.nodup_cons, mem_keys_putIn, not_or]
      exact ⟨⟨not_false, h.1⟩, nodup_putIn h.2⟩

/-- The value stored under `k`. -/
def get? (d : Dict κ α) (k : κ) : Option α := findIn k d.entries

def contains (d : Dict κ α) (k : κ) : Bool := (d.get? k).isSome

/-- Stores `a` under `k`; a key that is there already keeps its place. -/
def insert (d : Dict κ α) (k : κ) (a : α) : Dict κ α :=
  ⟨putIn k a d.entries, nodup_putIn d.nodup⟩

/-- Removes the entry of `k`. -/
def erase (d : Dict κ α) (k : κ) : Dict κ α :=
  ⟨d.entries.filter (fun e => decide (e.1 ≠ k)),
    d.nodup.sublist (List.filter_sublist.map _)⟩

/-- The map of a list of pairs, in which a later pair replaces an earlier one of the same key. -/
def ofList (l : List (κ × α)) : Dict κ α := l.foldl (fun d e => d.insert e.1 e.2) empty

/-! ## What is found -/

theorem findIn_putIn_self {k : κ} {a : α} : ∀ {l : List (κ × α)}, findIn k (putIn k a l) = some a
  | [] => by simp [putIn, findIn]
  | (i, b) :: rest => by
    unfold putIn
    by_cases h : i = k
    · simp [h, findIn]
    · simp [h, findIn, findIn_putIn_self (l := rest)]

theorem findIn_putIn_of_ne {k j : κ} {a : α} (h : j ≠ k) :
    ∀ {l : List (κ × α)}, findIn j (putIn k a l) = findIn j l
  | [] => by simp [putIn, findIn, h.symm]
  | (i, b) :: rest => by
    unfold putIn
    by_cases hi : i = k
    · subst hi; simp [findIn, h.symm]
    · simp only [hi, if_false, findIn, findIn_putIn_of_ne h (l := rest)]

theorem findIn_eq_none_iff {k : κ} : ∀ {l : List (κ × α)}, findIn k l = none ↔ k ∉ l.map (·.1)
  | [] => by simp [findIn]
  | (i, b) :: rest => by
    unfold findIn
    by_cases h : i = k
    · simp [h]
    · simp [h, findIn_eq_none_iff (l := rest), Ne.symm h]

@[simp] theorem get?_empty (k : κ) : (empty : Dict κ α).get? k = none := rfl

@[simp] theorem get?_insert_self (d : Dict κ α) (k : κ) (a : α) : (d.insert k a).get? k = some a :=
  findIn_putIn_self

theorem get?_insert_of_ne (d : Dict κ α) {k j : κ} (a : α) (h : j ≠ k) :
    (d.insert k a).get? j = d.get? j :=
  findIn_putIn_of_ne h

theorem get?_insert (d : Dict κ α) (k j : κ) (a : α) :
    (d.insert k a).get? j = if j = k then some a else d.get? j := by
  by_cases h : j = k
  · subst h; simp
  · simp [h, get?_insert_of_ne d a h]

theorem findIn_filter_ne {k j : κ} :
    ∀ {l : List (κ × α)},
      findIn j (l.filter fun e => decide (e.1 ≠ k)) = if j = k then none else findIn j l
  | [] => by simp [findIn]
  | (i, b) :: rest => by
    have ih := findIn_filter_ne (k := k) (j := j) (l := rest)
    by_cases hi : i = k
    · subst hi
      rw [List.filter_cons_of_neg (by simp), ih]
      by_cases h : j = i
      · simp [h]
      · simp [h, findIn, Ne.symm h]
    · rw [List.filter_cons_of_pos (by simpa using hi)]
      by_cases h : i = j
      · subst h; simp [findIn, hi]
      · simp only [findIn, h, if_false, ih]

theorem get?_erase (d : Dict κ α) (k j : κ) :
    (d.erase k).get? j = if j = k then none else d.get? j :=
  findIn_filter_ne

theorem findIn_eq_some_iff {k : κ} {a : α} :
    ∀ {l : List (κ × α)}, (l.map (·.1)).Nodup → (findIn k l = some a ↔ (k, a) ∈ l)
  | [], _ => by simp [findIn]
  | (i, b) :: rest, h => by
    simp only [List.map_cons, List.nodup_cons] at h
    unfold findIn
    by_cases hi : i = k
    · subst hi
      have hno : (i, a) ∉ rest := fun hm => h.1 (List.mem_map.2 ⟨(i, a), hm, rfl⟩)
      simp [hno, eq_comm]
    · simp [hi, Ne.symm hi, findIn_eq_some_iff h.2]

theorem get?_eq_some_iff {d : Dict κ α} {k : κ} {a : α} : d.get? k = some a ↔ (k, a) ∈ d.entries :=
  findIn_eq_some_iff d.nodup

theorem findIn_cons (k : κ) (e : κ × α) (rest : List (κ × α)) :
    findIn k (e :: rest) = if e.1 = k then some e.2 else findIn k rest := rfl

theorem get?_foldl_insert {k : κ} :
    ∀ {l : List (κ × α)} {d : Dict κ α}, (l.map (·.1)).Nodup →
      (l.foldl (fun d e => d.insert e.1 e.2) d).get? k = (findIn k l).or (d.get? k)
  | [], d, _ => by simp [findIn]
  | e :: rest, d, h => by
    simp only [List.map_cons, List.nodup_cons] at h
    rw [List.foldl_cons, get?_foldl_insert h.2, get?_insert, findIn_cons]
    by_cases he : e.1 = k
    · have hno : findIn k rest = none := findIn_eq_none_iff.2 (he ▸ h.1)
      simp [he, hno]
    · simp [he, Ne.symm he]

/-- The map of a list without repeated keys holds what the list pairs. -/
theorem get?_ofList {l : List (κ × α)} (h : (l.map (·.1)).Nodup) (k : κ) :
    (ofList l).get? k = findIn k l := by
  unfold ofList
  rw [get?_foldl_insert h, get?_empty, Option.or_none]

theorem length_putIn {k : κ} {a : α} :
    ∀ {l : List (κ × α)},
      (putIn k a l).length = if (findIn k l).isSome then l.length else l.length + 1
  | [] => by simp [putIn, findIn]
  | e :: rest => by
    rw [findIn_cons]
    unfold putIn
    by_cases he : e.1 = k
    · simp [he]
    · simp only [he, if_false, List.length_cons, length_putIn (l := rest)]
      split <;> rfl

theorem map_fst_putIn {k : κ} {a : α} :
    ∀ {l : List (κ × α)},
      (putIn k a l).map (·.1) = if (findIn k l).isSome then l.map (·.1) else l.map (·.1) ++ [k]
  | [] => by simp [putIn, findIn]
  | e :: rest => by
    rw [findIn_cons]
    unfold putIn
    by_cases he : e.1 = k
    · simp [he]
    · simp only [he, if_false, List.map_cons, map_fst_putIn (l := rest)]
      split <;> rfl

/-- A new key stands last; a key that was there keeps its place. -/
theorem keys_insert (d : Dict κ α) (k : κ) (a : α) :
    (d.insert k a).keys = if d.contains k then d.keys else d.keys ++ [k] :=
  map_fst_putIn

theorem putIn_of_new {k : κ} {a : α} : ∀ {l : List (κ × α)}, findIn k l = none → putIn k a l = l ++ [(k, a)]
  | [], _ => rfl
  | e :: rest, h => by
    rw [findIn_cons] at h
    unfold putIn
    by_cases he : e.1 = k
    · simp [he] at h
    · rw [if_neg he] at h
      simp only [he, if_false, List.cons_append, putIn_of_new h]

theorem putIn_self {k : κ} {a : α} : ∀ {l : List (κ × α)}, findIn k l = some a → putIn k a l = l
  | [], h => by cases h
  | e :: rest, h => by
    rw [findIn_cons] at h
    rw [putIn]
    split at h
    · rename_i hk
      rw [if_pos hk, ← Option.some.inj h, ← hk]
    · rename_i hk
      rw [if_neg hk, putIn_self h]

/-- Putting in what is there already changes nothing. -/
theorem insert_self {d : Dict κ α} {k : κ} {a : α} (h : d.get? k = some a) : d.insert k a = d := by
  obtain ⟨entries, nodup⟩ := d
  simp only [insert, putIn_self h]

theorem values_insert_of_new {d : Dict κ α} {k : κ} (h : d.contains k = false) (a : α) :
    (d.insert k a).values = d.values ++ [a] := by
  have hnew : findIn k d.entries = none := Option.not_isSome_iff_eq_none.1 (by simpa [contains, get?] using h)
  have hentries : (d.insert k a).entries = d.entries ++ [(k, a)] := putIn_of_new hnew
  unfold values
  rw [hentries, List.map_append]
  rfl

theorem size_insert (d : Dict κ α) (k : κ) (a : α) :
    (d.insert k a).size = if d.contains k then d.size else d.size + 1 :=
  length_putIn

/-! ## How many there are -/

theorem countP_putIn {p : κ × α → Bool} {k : κ} {a : α} :
    ∀ {l : List (κ × α)}, findIn k l = none → (putIn k a l).countP p = l.countP p + if p (k, a) then 1 else 0
  | [], _ => by simp [putIn, List.countP_singleton]
  | (j, b) :: rest, h => by
    rw [findIn_cons] at h
    by_cases hj : j = k
    · simp [hj] at h
    · rw [if_neg hj] at h
      have ih := countP_putIn (p := p) (a := a) h
      simp only [putIn, hj, if_false, List.countP_cons, ih]
      omega

/-- A new key counts once. -/
theorem countP_insert {d : Dict κ α} {k : κ} (h : d.get? k = none) (a : α) (p : κ × α → Bool) :
    (d.insert k a).entries.countP p = d.entries.countP p + if p (k, a) then 1 else 0 :=
  countP_putIn h

theorem countP_filter_ne {p : κ × α → Bool} {k : κ} {a : α} :
    ∀ {l : List (κ × α)}, (l.map (·.1)).Nodup → findIn k l = some a →
      (l.filter fun e => decide (e.1 ≠ k)).countP p + (if p (k, a) then 1 else 0) = l.countP p
  | [], _, h => by cases h
  | (j, b) :: rest, hd, h => by
    simp only [List.map_cons, List.nodup_cons] at hd
    rw [findIn_cons] at h
    by_cases hj : j = k
    · -- the key is not there a second time, so the rest is left alone
      obtain rfl : b = a := by simpa [hj] using h
      subst hj
      have hrest : rest.filter (fun e => decide (e.1 ≠ j)) = rest := by
        rw [List.filter_eq_self]
        intro e he
        have hne : e.1 ≠ j := fun heq => hd.1 (heq ▸ List.mem_map_of_mem he)
        simpa using hne
      rw [List.filter_cons_of_neg (by simp), hrest, List.countP_cons]
    · rw [if_neg hj] at h
      have ih := countP_filter_ne (p := p) hd.2 h
      rw [List.filter_cons_of_pos (by simpa using hj), List.countP_cons, List.countP_cons]
      omega

/-- A key that is erased no longer counts. -/
theorem countP_erase {d : Dict κ α} {k : κ} {a : α} (h : d.get? k = some a) (p : κ × α → Bool) :
    (d.erase k).entries.countP p + (if p (k, a) then 1 else 0) = d.entries.countP p :=
  countP_filter_ne d.nodup h

theorem size_erase {d : Dict κ α} {k : κ} (h : d.contains k = true) : (d.erase k).size + 1 = d.size := by
  obtain ⟨a, ha⟩ := Option.isSome_iff_exists.1 h
  have hcount := countP_erase ha fun _ => true
  simpa [size] using hcount

theorem size_eq_zero_iff {d : Dict κ α} : d.size = 0 ↔ ∀ k, d.get? k = none := by
  constructor
  · intro h k
    have hnil : d.entries = [] := List.length_eq_zero_iff.1 h
    unfold get?
    rw [hnil]
    rfl
  · intro h
    unfold size
    rw [List.length_eq_zero_iff, List.eq_nil_iff_forall_not_mem]
    intro e he
    have hsome := get?_eq_some_iff.2 he
    rw [h e.1] at hsome
    cases hsome

theorem eq_empty_iff {d : Dict κ α} : d = ∅ ↔ ∀ k, d.get? k = none := by
  rw [← size_eq_zero_iff]
  constructor
  · rintro rfl
    rfl
  · intro h
    obtain ⟨entries, nodup⟩ := d
    obtain rfl : entries = [] := List.length_eq_zero_iff.1 h
    rfl

end Dict

end MetricCascade
