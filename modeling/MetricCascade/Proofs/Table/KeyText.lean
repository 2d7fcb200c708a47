/-
The text of a key tells the key: the code of the window has no underscore, so the first one of the
text ends it, and the rest is the entity, whatever characters that has.
-/
import MetricCascade.Metric.Indicator
import Mathlib.Tactic
import Std.Data.String.ToInt

namespace MetricCascade

theorem underscore_notMem_repr (n : Int) : '_' ∉ n.repr.toList := by
  cases n with
  | ofNat m =>
    simp only [Int.repr, Nat.toList_repr]
    exact Nat.underscore_not_in_toDigits
  | negSucc m =>
    simp only [Int.repr, String.toList_append, Nat.toList_repr, List.mem_append, not_or]
    exact ⟨by decide, Nat.underscore_not_in_toDigits⟩

/-- What stands before the first `a` and what stands after it are told apart. -/
theorem append_cons_cancel {α : Type} {a : α} {s t : List α} :
    ∀ {l m : List α}, a ∉ l → a ∉ m → l ++ a :: s = m ++ a :: t → l = m ∧ s = t
  | [], [], _, _, h => by simpa using h
  | [], b :: m, _, hm, h => absurd (List.cons.inj h).1 (List.ne_of_not_mem_cons hm)
  | b :: l, [], hl, _, h => absurd (List.cons.inj h).1.symm (List.ne_of_not_mem_cons hl)
  | b :: l, c :: m, hl, hm, h => by
    obtain ⟨rfl, hrest⟩ := List.cons.inj h
    obtain ⟨rfl, hst⟩ := append_cons_cancel (List.not_mem_of_not_mem_cons hl)
      (List.not_mem_of_not_mem_cons hm) hrest
    exact ⟨rfl, hst⟩

namespace Key

theorem toList_text (k : Key) : k.text.toList = k.bucket.code.repr.toList ++ '_' :: k.entity.toList := by
  have htext : k.text = k.bucket.code.repr ++ "_" ++ k.entity := rfl
  rw [htext, String.toList_append, String.toList_append, List.append_assoc]
  rfl

/-- Two keys never share their text. -/
theorem text_injective {j k : Key} (h : j.text = k.text) : j = k := by
  have hlist := congrArg String.toList h
  rw [toList_text, toList_text] at hlist
  obtain ⟨hcode, hentity⟩ := append_cons_cancel (underscore_notMem_repr _) (underscore_notMem_repr _) hlist
  cases j with
  | mk e b =>
    cases k with
    | mk e' b' =>
      cases b; cases b'
      simp only at hcode hentity
      rw [String.toList_inj.1 hentity, Int.repr_injective (String.toList_inj.1 hcode)]

end Key

end MetricCascade
