import Bearer.Text.Form
import Bearer.Proofs.Text.Percent

namespace Bearer.Text.Form

section
variable {separator : Char} {p : List Char}

theorem splitAt_of_not_mem (h : separator ∉ p) : splitAt separator p = [p] := by
  induction p with
  | nil => rfl
  | cons c p ih =>
    rw [List.mem_cons, not_or] at h
    rw [splitAt, if_neg (Ne.symm h.1), ih h.2]

theorem splitAt_append (h : separator ∉ p) (cs : List Char) :
    splitAt separator (p ++ separator :: cs) = p :: splitAt separator cs := by
  induction p with
  | nil => rw [List.nil_append, splitAt, if_pos rfl]
  | cons c p ih =>
    rw [List.mem_cons, not_or] at h
    rw [List.cons_append, splitAt, if_neg (Ne.symm h.1), ih h.2]

/-- What stands before the first separator, and behind it. -/
theorem cut_append (h : separator ∉ p) (cs : List Char) :
    (p ++ separator :: cs).takeWhile (· ≠ separator) = p ∧
      ((p ++ separator :: cs).dropWhile (· ≠ separator)).drop 1 = cs := by
  have hp : ∀ c ∈ p, decide (c ≠ separator) = true := by
    rintro c hc
    rw [decide_eq_true_iff]
    rintro rfl
    exact h hc
  rw [List.takeWhile_append_of_pos hp, List.dropWhile_append_of_pos hp,
    List.takeWhile_cons_of_neg (by simp), List.dropWhile_cons_of_neg (by simp), List.append_nil]
  exact ⟨rfl, rfl⟩

end

theorem mem_encodeText {s : String} {c : Char} (h : c ∈ encodeText s) :
    c = '+' ∨ isSafe c = true ∨ c = '%' ∨ c ∈ "0123456789ABCDEF".toList := by
  obtain ⟨d, -, hd⟩ := List.mem_flatMap.mp h
  unfold encodeChar at hd
  split at hd
  · exact .inl (List.mem_singleton.mp hd)
  split at hd
  · next hsafe =>
    rw [List.mem_singleton] at hd
    exact .inr (.inl (hd ▸ hsafe))
  · exact .inr (.inr (Percent.mem_escapes hd))

/-- No mark that separates fields, or names from values, survives in a text. -/
theorem separators_not_mem_encodeText (s : String) : '&' ∉ encodeText s ∧ '=' ∉ encodeText s := by
  constructor <;> intro h <;> rcases mem_encodeText h with h | h | h | h <;> revert h <;> decide

theorem spaced_encodeChar (c : Char) :
    (encodeChar c).map (fun c => if c = '+' then ' ' else c) =
      if c = ' ' || isSafe c then [c] else (Utf8.encodeChar c).flatMap Percent.escape := by
  unfold encodeChar
  by_cases hspace : c = ' '
  · subst hspace
    rfl
  · simp only [if_neg hspace, decide_eq_false hspace, Bool.false_or]
    split
    · next hsafe =>
      have hplus : c ≠ '+' := by
        rintro rfl
        revert hsafe
        decide
      rw [List.map_singleton, if_neg hplus]
    · refine (List.map_congr_left fun d hd => if_neg ?_).trans (List.map_id _)
      rintro rfl
      rcases Percent.mem_escapes hd with h | h <;> revert h <;> decide

/-- Once plus signs are spaces again, a text is percent encoded but for its spaces. -/
theorem spaced_encodeText (s : String) :
    (encodeText s).map (fun c => if c = '+' then ' ' else c) =
      Percent.encode (fun c => c = ' ' || isSafe c) s.toList := by
  simp only [encodeText, Percent.encode, List.map_flatMap, spaced_encodeChar]

theorem decodeText_encodeText (s : String) : decodeText (encodeText s) = s := by
  rw [decodeText, spaced_encodeText, Percent.decode_encode (by decide), String.ofList_toList]

theorem decodeField_encodeField (f : String × String) : decodeField (encodeField f) = f := by
  obtain ⟨hname, hvalue⟩ := cut_append (separators_not_mem_encodeText f.1).2 (encodeText f.2)
  simp only [decodeField, encodeField]
  rw [hname, hvalue, decodeText_encodeText, decodeText_encodeText]

theorem not_mem_encodeField (f : String × String) : '&' ∉ encodeField f := by
  rw [encodeField, List.mem_append, List.mem_cons, not_or, not_or]
  exact ⟨(separators_not_mem_encodeText f.1).1, by decide, (separators_not_mem_encodeText f.2).1⟩

theorem splitAt_encode (f : String × String) (fs : Fields) :
    splitAt '&' (encode (f :: fs)) = (f :: fs).map encodeField := by
  induction fs generalizing f with
  | nil => exact splitAt_of_not_mem (not_mem_encodeField f)
  | cons g fs ih =>
    have hencode : encode (f :: g :: fs) = encodeField f ++ '&' :: encode (g :: fs) := rfl
    rw [hencode, splitAt_append (not_mem_encodeField f), ih]
    rfl

/-- A form that was written reads back, field by field. -/
theorem decode_encode (fs : Fields) : decode (encode fs) = fs := by
  cases fs with
  | nil => rfl
  | cons f fs =>
    have hfilled : ∀ p ∈ (f :: fs).map encodeField, (!p.isEmpty) = true := by
      intro p hp
      obtain ⟨g, -, rfl⟩ := List.mem_map.mp hp
      simp [encodeField]
    rw [decode, splitAt_encode, List.filter_eq_self.mpr hfilled, List.map_map]
    exact (List.map_congr_left fun g _ => decodeField_encodeField g).trans (List.map_id _)

theorem mem_encodeField {f : String × String} {c : Char} (h : c ∈ encodeField f) :
    c = '=' ∨ ∃ s, c ∈ encodeText s := by
  rcases List.mem_append.mp h with h | h
  · exact .inr ⟨f.1, h⟩
  · rcases List.mem_cons.mp h with h | h
    · exact .inl h
    · exact .inr ⟨f.2, h⟩

/-- A form that was written holds its own marks and those of its texts, no others. -/
theorem mem_encode : ∀ {fs : Fields} {c : Char}, c ∈ encode fs →
    c = '&' ∨ c = '=' ∨ ∃ s, c ∈ encodeText s
  | [_], _, h => .inr (mem_encodeField h)
  | f :: g :: fs, c, h => by
    rcases List.mem_append.mp h with h | h
    · exact .inr (mem_encodeField h)
    · rcases List.mem_cons.mp h with h | h
      · exact .inl h
      · exact mem_encode h

/-- Once a name has been given a value it has no other. -/
theorem filter_set_name (fs : Fields) (name value : String) :
    (set fs name value).filter (fun f => f.1 = name) = [(name, value)] := by
  induction fs with
  | nil => simp [set]
  | cons f fs ih =>
    rw [set]
    split
    · rw [List.filter_cons_of_pos (by simp), List.filter_filter]
      simp
    · next hname => rw [List.filter_cons_of_neg (by simpa using hname), ih]

/-- Giving a name a value leaves the fields of other names as they are. -/
theorem filter_set_others (fs : Fields) {name : String} (value : String) {p : String → Bool}
    (h : p name = false) :
    (set fs name value).filter (fun f => p f.1) = fs.filter (fun f => p f.1) := by
  have hname : ∀ f : String × String, p f.1 = true → f.1 ≠ name := by
    rintro f hf hsame
    rw [hsame, h] at hf
    cases hf
  induction fs with
  | nil => simp [set, h]
  | cons f fs ih =>
    rw [set]
    split
    · next hsame =>
      have hleft : ∀ g ∈ fs, (p g.1 && decide (g.1 ≠ name)) = p g.1 := by
        intro g _
        cases hg : p g.1
        · rfl
        · simpa using hname g hg
      rw [List.filter_cons_of_neg (by simp [h]), List.filter_cons_of_neg (by simp [hsame, h]),
        List.filter_filter, List.filter_congr hleft]
    · rw [List.filter_cons, List.filter_cons, ih]

/-- The fields after some have replaced those of their names, one after the other. -/
def setAll (fs given : Fields) : Fields := given.foldl (fun fs f => set fs f.1 f.2) fs

/-- Fields of other names are none the worse for it. -/
theorem filter_setAll_others (given : Fields) {p : String → Bool}
    (h : ∀ g ∈ given, p g.1 = false) (fs : Fields) :
    (setAll fs given).filter (fun f => p f.1) = fs.filter (fun f => p f.1) := by
  induction given generalizing fs with
  | nil => rfl
  | cons g given ih =>
    rw [List.forall_mem_cons] at h
    exact (ih h.2 _).trans (filter_set_others fs g.2 h.1)

/-- Every name is left with the value that it was given. -/
theorem filter_setAll_of_mem {given : Fields} (hnodup : (given.map Prod.fst).Nodup)
    {f : String × String} (hf : f ∈ given) (fs : Fields) :
    (setAll fs given).filter (fun g => g.1 = f.1) = [f] := by
  induction given generalizing fs with
  | nil => cases hf
  | cons g given ih =>
    rw [List.map_cons, List.nodup_cons] at hnodup
    rcases List.mem_cons.mp hf with rfl | hf
    · have hothers : ∀ g ∈ given, decide (g.1 = f.1) = false := fun g hg =>
        decide_eq_false fun hsame => hnodup.1 (hsame ▸ List.mem_map_of_mem hg)
      exact (filter_setAll_others (p := fun name => name = f.1) given hothers _).trans
        (filter_set_name fs f.1 f.2)
    · exact ih hnodup.2 hf _

end Bearer.Text.Form
