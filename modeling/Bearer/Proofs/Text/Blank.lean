import Bearer.Text.Blank
import Mathlib.Data.List.Basic

namespace Bearer.Text

/-- No blank is a digit, a sign or anything else that a value in a document starts with. -/
theorem not_value_of_isBlank {c : Char} (h : isBlank c = true) :
    c.isDigit = false ∧ c ∉ ['-', '{', '[', '"', 't', 'f', 'n', '0'] := by
  constructor
  · have hd : ¬ c.isDigit = true := by
      intro hd
      simp only [Char.isDigit, Bool.and_eq_true, decide_eq_true_eq] at hd
      simp only [isBlank, Bool.or_eq_true, Bool.and_eq_true, decide_eq_true_eq] at h
      obtain ⟨hl, hu⟩ := hd
      have hl' : 48 ≤ c.toNat := hl
      have hu' : c.toNat ≤ 57 := hu
      omega
    simpa using hd
  · intro hc
    simp only [List.mem_cons, List.not_mem_nil, or_false] at hc
    rcases hc with rfl | rfl | rfl | rfl | rfl | rfl | rfl | rfl <;> cases h

theorem trimStart_append {before : List Char} (h : ∀ c ∈ before, isBlank c = true)
    (cs : List Char) : trimStart (before ++ cs) = trimStart cs :=
  List.dropWhile_append_of_pos h

theorem trimStart_of_head {cs : List Char} (h : ∀ c ∈ cs.head?, isBlank c = false) :
    trimStart cs = cs := by
  cases cs with
  | nil => rfl
  | cons c cs => exact List.dropWhile_cons_of_neg (by simp [h c rfl])

/-- The blanks around a text that has none are taken off, and nothing else is. -/
theorem trim_around {before cs after : List Char} (hbefore : ∀ c ∈ before, isBlank c = true)
    (hafter : ∀ c ∈ after, isBlank c = true) (hne : cs ≠ [])
    (hcs : ∀ c ∈ cs, isBlank c = false) :
    trim (String.ofList (before ++ cs ++ after)) = String.ofList cs := by
  have hstart (rest : List Char) : trimStart (cs ++ rest) = cs ++ rest := by
    refine trimStart_of_head fun c hc => hcs c ?_
    rw [List.head?_append_of_ne_nil _ hne] at hc
    exact List.mem_of_mem_head? hc
  have hend : trimStart cs.reverse = cs.reverse :=
    trimStart_of_head fun c hc => hcs c (List.mem_reverse.mp (List.mem_of_mem_head? hc))
  have hafter' : ∀ c ∈ after.reverse, isBlank c = true :=
    fun c hc => hafter c (List.mem_reverse.mp hc)
  rw [trim, String.toList_ofList, List.append_assoc, trimStart_append hbefore, hstart, trimEnd,
    List.reverse_append, trimStart_append hafter', hend, List.reverse_reverse]

end Bearer.Text
