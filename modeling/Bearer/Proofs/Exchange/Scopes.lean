import Bearer.Exchange
import Bearer.Proofs.Text.Form

namespace Bearer.Exchange

/-- The longest runs of other characters than spaces in a text, in their order: each has spaces
or the start of the text before it, and spaces or the end of the text after it. -/
inductive Runs : List Char → List (List Char) → Prop
  | spaces {cs : List Char} (h : ∀ c ∈ cs, c = ' ') : Runs cs []
  | run {lead word rest : List Char} {words : List (List Char)} (hlead : ∀ c ∈ lead, c = ' ')
      (hfilled : word ≠ []) (hword : ' ' ∉ word) (hend : ∀ c ∈ rest.head?, c = ' ')
      (hrest : Runs rest words) : Runs (lead ++ word ++ rest) (word :: words)

/-- The parts of a text between its spaces that are not empty. -/
def parts (cs : List Char) : List (List Char) :=
  (Text.Form.splitAt ' ' cs).filter fun w => !w.isEmpty

theorem words_eq (scope : String) : words scope = (parts scope.toList).map String.ofList := rfl

theorem parts_space (cs : List Char) : parts (' ' :: cs) = parts cs := rfl

theorem parts_spaces {lead : List Char} (h : ∀ c ∈ lead, c = ' ') (cs : List Char) :
    parts (lead ++ cs) = parts cs := by
  induction lead with
  | nil => rfl
  | cons c lead ih =>
    rw [List.forall_mem_cons] at h
    rw [h.1, List.cons_append, parts_space, ih h.2]

theorem parts_word {word : List Char} (hfilled : word ≠ []) (hword : ' ' ∉ word) :
    parts word = [word] := by
  rw [parts, Text.Form.splitAt_of_not_mem hword, List.filter_cons_of_pos (by simpa using hfilled),
    List.filter_nil]

theorem parts_word_space {word : List Char} (hfilled : word ≠ []) (hword : ' ' ∉ word)
    (cs : List Char) : parts (word ++ ' ' :: cs) = word :: parts cs := by
  rw [parts, Text.Form.splitAt_append hword, List.filter_cons_of_pos (by simpa using hfilled),
    parts]

/-- There is one way only to take a text apart into runs. -/
theorem Runs.parts_eq {cs : List Char} {ws : List (List Char)} (h : Runs cs ws) :
    parts cs = ws := by
  induction h with
  | @spaces cs h =>
    rw [← List.append_nil cs, parts_spaces h]
    rfl
  | @run lead word rest ws hlead hfilled hword hend _ ih =>
    rw [List.append_assoc, parts_spaces hlead]
    cases rest with
    | nil =>
      rw [List.append_nil, parts_word hfilled hword, ← ih]
      rfl
    | cons c rest =>
      obtain rfl : c = ' ' := hend c rfl
      rw [parts_word_space hfilled hword, ← ih, parts_space]

/-- A space in front changes no run. -/
theorem Runs.space {cs : List Char} {ws : List (List Char)} (h : Runs cs ws) :
    Runs (' ' :: cs) ws := by
  cases h with
  | spaces h => exact .spaces (List.forall_mem_cons.mpr ⟨rfl, h⟩)
  | @run lead word rest ws hlead hfilled hword hend hrest =>
    have hlead' : ∀ c ∈ ' ' :: lead, c = ' ' := List.forall_mem_cons.mpr ⟨rfl, hlead⟩
    exact .run hlead' hfilled hword hend hrest

/-- Every text has its runs. -/
theorem runs_parts (cs : List Char) : Runs cs (parts cs) := by
  match cs with
  | [] => exact .spaces nofun
  | c :: cs =>
    by_cases hc : c = ' '
    · subst hc
      exact (runs_parts cs).space
    · -- the first run reaches up to the first space
      have hrest := runs_parts ((c :: cs).dropWhile (· ≠ ' '))
      have hword : ' ' ∉ (c :: cs).takeWhile (· ≠ ' ') := fun h => by
        simpa using List.all_eq_true.mp List.all_takeWhile ' ' h
      have hend : ∀ d ∈ ((c :: cs).dropWhile (· ≠ ' ')).head?, d = ' ' := fun d hd => by
        have hstop := List.head?_dropWhile_not (· ≠ ' ') (c :: cs)
        rw [Option.mem_def.mp hd] at hstop
        simpa using hstop
      have hrun := @Runs.run [] _ _ _ nofun (by simp [hc]) hword hend hrest
      rw [List.nil_append, List.takeWhile_append_dropWhile] at hrun
      rwa [hrun.parts_eq]
termination_by cs.length
decreasing_by
  · simp
  · have hle : (cs.dropWhile (· ≠ ' ')).length ≤ cs.length :=
      (List.dropWhile_sublist _).length_le
    simpa [hc] using Nat.lt_succ_of_le hle

theorem map_ofList_toList (ws : List String) : (ws.map String.toList).map String.ofList = ws := by
  rw [List.map_map]
  exact (List.map_congr_left fun w _ => String.ofList_toList).trans (List.map_id _)

/-- The words of a text are its runs. -/
theorem words_eq_iff {scope : String} {ws : List String} :
    words scope = ws ↔ Runs scope.toList (ws.map String.toList) := by
  constructor
  · rintro rfl
    rw [words_eq, List.map_map]
    have hsame : String.toList ∘ String.ofList = id := funext fun _ => String.toList_ofList
    rw [hsame, List.map_id]
    exact runs_parts _
  · intro h
    rw [words_eq, h.parts_eq, map_ofList_toList]

theorem parts_intercalate {ws : List (List Char)} (h : ∀ w ∈ ws, w ≠ [] ∧ ' ' ∉ w) :
    parts ([' '].intercalate ws) = ws := by
  induction ws with
  | nil => rfl
  | cons w ws ih =>
    rw [List.forall_mem_cons] at h
    obtain ⟨⟨hfilled, hword⟩, hrest⟩ := h
    cases ws with
    | nil => rw [List.intercalate_singleton, parts_word hfilled hword]
    | cons w' ws =>
      rw [List.intercalate_cons_cons, List.append_assoc, List.singleton_append,
        parts_word_space hfilled hword, ih hrest]

/-- Words that were joined by single spaces come apart again. -/
theorem words_intercalate {ws : List String} (h : ∀ w ∈ ws, w ≠ "" ∧ ' ' ∉ w.toList) :
    words (" ".intercalate ws) = ws := by
  have hparts : ∀ w ∈ ws.map String.toList, w ≠ [] ∧ ' ' ∉ w := by
    intro w hw
    obtain ⟨v, hv, rfl⟩ := List.mem_map.mp hw
    exact ⟨fun hnil => (h v hv).1 (String.toList_eq_nil_iff.mp hnil), (h v hv).2⟩
  have hjoined : (" ".intercalate ws).toList = [' '].intercalate (ws.map String.toList) :=
    String.toList_intercalate
  rw [words_eq, hjoined, parts_intercalate hparts, map_ofList_toList]

end Bearer.Exchange
