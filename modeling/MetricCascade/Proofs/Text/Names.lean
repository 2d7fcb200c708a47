/-
Names put together into one text, with a separator between each two. The text tells the names as long
as no name contains the separator behind it, or none the one before it; it cannot have come from other
names exactly if no name contains a separator next to it.
-/
import MetricCascade.Proofs.Table.KeyText

namespace MetricCascade

namespace Names

/-- A name, and further names each behind a separator, one after the other. -/
def spell : String → List (Char × String) → List Char
  | n, [] => n.toList
  | n, (c, m) :: rest => n.toList ++ c :: spell m rest

/-- No name contains the separator behind it. -/
def Ends : String → List (Char × String) → Prop
  | _, [] => True
  | n, (c, m) :: rest => c ∉ n.toList ∧ Ends m rest

/-- No name contains the separator before it. -/
def Begins : String → List (Char × String) → Prop
  | _, [] => True
  | _, (c, m) :: rest => c ∉ m.toList ∧ Begins m rest

instance decidableEnds : ∀ n rest, Decidable (Ends n rest)
  | _, [] => inferInstanceAs (Decidable True)
  | n, (c, m) :: rest =>
    have := decidableEnds m rest
    inferInstanceAs (Decidable (c ∉ n.toList ∧ Ends m rest))

instance decidableBegins : ∀ n rest, Decidable (Begins n rest)
  | _, [] => inferInstanceAs (Decidable True)
  | _, (c, m) :: rest =>
    have := decidableBegins m rest
    inferInstanceAs (Decidable (c ∉ m.toList ∧ Begins m rest))

variable {n n' : String} {rest rest' : List (Char × String)}

/-- Names with the same separators behind each other have the same separators each. -/
theorem cons_of_map_fst {c : Char} {m : String} (h : ((c, m) :: rest).map (·.1) = rest'.map (·.1)) :
    ∃ m' more, rest' = (c, m') :: more ∧ rest.map (·.1) = more.map (·.1) := by
  cases rest' with
  | nil => cases h
  | cons p more =>
    obtain ⟨hc, hmore⟩ := List.cons.inj h
    obtain ⟨d, m'⟩ := p
    obtain rfl : c = d := hc
    exact ⟨m', more, rfl, hmore⟩

/-! ## Names that are told -/

/-- If every name ends at the first separator behind it, the text tells the names. -/
theorem Ends.unique (h : Ends n rest) (h' : Ends n' rest') (hseps : rest.map (·.1) = rest'.map (·.1))
    (htext : spell n rest = spell n' rest') : n = n' ∧ rest = rest' := by
  induction rest generalizing n n' rest' with
  | nil =>
    obtain rfl : rest' = [] := List.map_eq_nil_iff.1 hseps.symm
    exact ⟨String.toList_inj.1 htext, rfl⟩
  | cons p rest ih =>
    obtain ⟨c, m⟩ := p
    obtain ⟨m', more, rfl, htails⟩ := cons_of_map_fst hseps
    obtain ⟨hn, htail⟩ := append_cons_cancel h.1 h'.1 htext
    obtain ⟨rfl, rfl⟩ := ih h.2 h'.2 htails htail
    exact ⟨String.toList_inj.1 hn, rfl⟩

/-- If no name contains the separator before it, no other reading of the end of the text has its first
separator further behind. -/
theorem Begins.latest (h : Begins n rest) (hseps : rest.map (·.1) = rest'.map (·.1)) {u : List Char}
    (htext : spell n rest = u ++ spell n' rest') : u ++ n'.toList <+: n.toList := by
  induction rest generalizing n n' rest' u with
  | nil =>
    obtain rfl : rest' = [] := List.map_eq_nil_iff.1 hseps.symm
    exact htext ▸ List.prefix_refl _
  | cons p rest ih =>
    obtain ⟨c, m⟩ := p
    obtain ⟨m', more, rfl, htails⟩ := cons_of_map_fst hseps
    have hsplit : n.toList ++ c :: spell m rest = (u ++ n'.toList) ++ c :: spell m' more :=
      htext.trans (List.append_assoc ..).symm
    rcases List.append_eq_append_iff.1 hsplit with ⟨t, hlonger, htail⟩ | ⟨t, hshorter, -⟩
    · cases t with
      | nil => exact ⟨[], by rw [hlonger, List.append_nil, List.append_nil]⟩
      | cons d t =>
        -- the other reading has its first separator inside the next name, which then contains it
        have hinner : spell m rest = (t ++ [c]) ++ spell m' more := by
          rw [List.append_assoc]
          exact (List.cons.inj htail).2
        exact absurd ((ih h.2 htails hinner).subset (by simp)) h.1
    · exact ⟨t, hshorter.symm⟩

/-- If no name contains a separator next to it, nothing else reads alike. -/
theorem unique_of_ends_begins (hends : Ends n rest) (hbegins : Begins n rest)
    (hseps : rest.map (·.1) = rest'.map (·.1)) (htext : spell n rest = spell n' rest') : n = n' ∧ rest = rest' := by
  induction rest generalizing n n' rest' with
  | nil =>
    obtain rfl : rest' = [] := List.map_eq_nil_iff.1 hseps.symm
    exact ⟨String.toList_inj.1 htext, rfl⟩
  | cons p rest ih =>
    obtain ⟨t, ht⟩ := hbegins.latest (u := []) hseps htext
    rw [List.nil_append] at ht
    obtain ⟨c, m⟩ := p
    obtain ⟨m', more, rfl, htails⟩ := cons_of_map_fst hseps
    have htail : t ++ c :: spell m rest = c :: spell m' more := by
      have hsplit : n.toList ++ c :: spell m rest = n'.toList ++ c :: spell m' more := htext
      rwa [← ht, List.append_assoc, List.append_cancel_left_eq] at hsplit
    cases t with
    | nil =>
      rw [List.append_nil] at ht
      obtain ⟨rfl, rfl⟩ := ih hends.2 hbegins.2 htails (List.cons.inj htail).2
      exact ⟨(String.toList_inj.1 ht).symm, rfl⟩
    | cons d t =>
      obtain rfl : d = c := (List.cons.inj htail).1
      exact absurd (ht ▸ by simp) hends.1

/-- If every name begins behind the last separator before it, the text tells the names. -/
theorem Begins.unique (h : Begins n rest) (h' : Begins n' rest') (hseps : rest.map (·.1) = rest'.map (·.1))
    (htext : spell n rest = spell n' rest') : n = n' ∧ rest = rest' := by
  induction rest generalizing n n' rest' with
  | nil =>
    obtain rfl : rest' = [] := List.map_eq_nil_iff.1 hseps.symm
    exact ⟨String.toList_inj.1 htext, rfl⟩
  | cons p rest ih =>
    have hle := h.latest (u := []) hseps htext
    have hge := h'.latest (u := []) hseps.symm htext.symm
    have hn : n.toList = n'.toList := hge.eq_of_length_le hle.length_le
    obtain ⟨c, m⟩ := p
    obtain ⟨m', more, rfl, htails⟩ := cons_of_map_fst hseps
    have htail : spell m rest = spell m' more := by
      have hsplit : n.toList ++ c :: spell m rest = n'.toList ++ c :: spell m' more := htext
      rw [hn] at hsplit
      exact (List.cons.inj (List.append_cancel_left hsplit)).2
    obtain ⟨rfl, rfl⟩ := ih h.2 h'.2 htails htail
    exact ⟨String.toList_inj.1 hn, rfl⟩

/-! ## Names that are not told -/

theorem spell_append (l : List Char) (m : String) (rest : List (Char × String)) :
    spell (String.ofList (l ++ m.toList)) rest = l ++ spell m rest := by
  cases rest <;> simp [spell]

/-- If some name contains a separator next to it, other names read alike. -/
theorem exists_alike (h : ¬ (Ends n rest ∧ Begins n rest)) :
    ∃ n' rest', rest'.map (·.1) = rest.map (·.1) ∧ spell n' rest' = spell n rest ∧ (n', rest') ≠ (n, rest) := by
  induction rest generalizing n with
  | nil => exact absurd ⟨trivial, trivial⟩ h
  | cons p rest ih =>
    obtain ⟨c, m⟩ := p
    by_cases hn : c ∈ n.toList
    · -- the name may as well end at the separator in it, and what follows belong to the next name
      obtain ⟨a, b, hab⟩ := List.append_of_mem hn
      refine ⟨String.ofList a, (c, String.ofList ((b ++ [c]) ++ m.toList)) :: rest, rfl, ?_, fun heq => ?_⟩
      · rw [spell, spell, spell_append, hab]
        simp
      · have hlength := congrArg String.length (congrArg Prod.fst heq)
        rw [← String.length_toList, ← String.length_toList, hab] at hlength
        simp at hlength
    · by_cases hm : c ∈ m.toList
      · -- the next name may as well begin behind the separator in it
        obtain ⟨a, b, hab⟩ := List.append_of_mem hm
        refine ⟨String.ofList (n.toList ++ c :: a), (c, String.ofList b) :: rest, rfl, ?_, fun heq => ?_⟩
        · have htail : spell m rest = (a ++ [c]) ++ spell (String.ofList b) rest := by
            rw [← spell_append, String.toList_ofList, List.append_assoc, List.singleton_append, ← hab,
              String.ofList_toList]
          rw [spell, spell, htail]
          simp
        · have hlength := congrArg String.length (congrArg Prod.fst heq)
          rw [← String.length_toList, ← String.length_toList] at hlength
          simp at hlength
      · have hrest : ¬ (Ends m rest ∧ Begins m rest) := fun hm' => h ⟨⟨hn, hm'.1⟩, hm, hm'.2⟩
        obtain ⟨m', rest', hseps, htext, hne⟩ := ih hrest
        refine ⟨n, (c, m') :: rest', by simp [hseps], by rw [spell, spell, htext], fun heq => hne ?_⟩
        simpa using heq

end Names

end MetricCascade
