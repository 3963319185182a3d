import Bearer.Proofs.Http.Answers
import Bearer.Proofs.Number.Literal

namespace Bearer.Http

variable {data : Json.Members} {key context : String}

/-- What tells a whole number: the number, or its decimal text with blanks around it and zeros in
front of its digits. -/
inductive Tells (n : Int) : Json → Prop
  | number : Tells n (.number (.ofInt n))
  | text (lead : Nat) {before after : List Char} (hbefore : ∀ c ∈ before, Text.isBlank c = true)
      (hafter : ∀ c ∈ after, Text.isBlank c = true) :
      Tells n (.string (String.ofList (before ++ Double.decimalText n lead ++ after)))

theorem isBlankText_decimalText {n : Int} {lead : Nat} {before after : List Char} :
    Text.isBlankText (String.ofList (before ++ Double.decimalText n lead ++ after)) = false := by
  obtain ⟨c, cs, hcs⟩ := List.exists_cons_of_ne_nil (Double.decimalText_ne_nil n lead)
  have hc : Text.isBlank c = false :=
    Double.isBlank_decimalText c (hcs ▸ List.mem_cons_self)
  rw [Text.isBlankText, String.toList_ofList, List.all_eq_false]
  exact ⟨c, by simp [hcs], by simp [hc]⟩

theorem Tells.whole {n : Int} {j : Json} (hn : n.natAbs < 2 ^ 53) (h : Tells n j) :
    Whole j n := by
  cases h with
  | number =>
    rw [Double.ofInt_eq hn]
    exact .number n
  | text lead hbefore hafter =>
    refine .numeral isBlankText_decimalText ?_
    rw [Double.ofText_decimalText hn lead hbefore hafter, Double.ofInt_eq hn]

/-- Among the texts that tell a number is the one that is written of it. -/
theorem tells_text {n : Int} (hn : n.natAbs < 2 ^ 53) :
    Tells n (.string (Double.ofInt n).text) := by
  have htext : (Double.ofInt n).text = String.ofList ([] ++ Double.decimalText n 0 ++ []) := by
    rw [List.nil_append, List.append_nil, Double.decimalText_zero hn, Double.text]
  rw [htext]
  exact .text 0 nofun nofun

/-- A text means no whole number if it is blank, or has a character between its blanks that is
foreign to the literals of numbers. -/
theorem not_whole_text {s : String}
    (h : Text.isBlankText s = true ∨ ∃ c ∈ (Text.trim s).toList, Double.Foreign c) (n : Int) :
    ¬ Whole (.string s) n := by
  rintro (_ | ⟨hs, hn⟩)
  rcases h with hblank | ⟨c, hc, hforeign⟩
  · rw [hblank] at hs
    cases hs
  · exact Double.ofText_foreign hc hforeign n hn

/-- A field that is there and means no whole number is refused by its name. -/
theorem requireInteger_refuses {j : Json} (hget : Json.Members.get? data key = some j)
    (hnull : j ≠ .null) (h : ∀ n, ¬ Whole j n) :
    requireInteger data key context = (Fault.notAnInteger context key).raise := by
  unfold requireInteger
  simp only [lookup_eq_document.mpr ⟨hget, hnull⟩]
  cases hn : (numberOf j).toInt? with
  | none => rfl
  | some n => exact absurd ((whole_iff j n).mpr hn) (h n)

/-- Integers and their decimal text agree. A field that tells a whole number of up to fifty-three
binary digits, as a number or as text, is taken as that number, whatever its name; the text that
is written of the number is among those texts. A text that is blank, or that has a character
between its blanks that no literal has, is refused as malformed. -/
theorem integers_agree_with_text (data : Json.Members) (key context : String) :
    (∀ n : Int, n.natAbs ≤ 2 ^ 53 - 1 →
      Tells n (.string (Double.ofInt n).text) ∧
      ∀ j, Tells n j → Json.Members.get? data key = some j →
        requireInteger data key context = .ok (.finite n)) ∧
    ∀ s : String, Json.Members.get? data key = some (.string s) →
      (Text.isBlankText s = true ∨ ∃ c ∈ (Text.trim s).toList, Double.Foreign c) →
      requireInteger data key context = (Fault.notAnInteger context key).raise ∧
        Malformed (Fault.notAnInteger context key).thrown := by
  constructor
  · intro n hn
    have hreach : n.natAbs < 2 ^ 53 := by omega
    refine ⟨tells_text hreach, fun j hj hget => ?_⟩
    exact requireInteger_eq_ok.mpr ⟨j, n, hget, hj.whole hreach, rfl⟩
  · intro s hget hs
    exact ⟨requireInteger_refuses hget nofun (not_whole_text hs), rfl⟩

/-- The least of these numbers is taken under a name that every object answers to, from a text
with zeros in front as well; a blank is refused there, and a number with its unit. -/
theorem integers_agree_with_text_least :
    let least : Int := -9007199254740991
    let holding (j : Json) : Json.Members := [("constructor", j)]
    (least.natAbs ≤ 2 ^ 53 - 1 ∧
      Tells least (.string "\u2028-009007199254740991\ufeff") ∧
      requireInteger (holding (.number (.ofInt least))) "constructor" "error" =
        .ok (.finite least) ∧
      requireInteger (holding (.string "\u2028-009007199254740991\ufeff")) "constructor" "error" =
        .ok (.finite least)) ∧
    (Text.isBlankText "\u3000" = true ∧
      requireInteger (holding (.string "\u3000")) "constructor" "error" =
        (Fault.notAnInteger "error" "constructor").raise) ∧
    's' ∈ (Text.trim " 3600s").toList ∧ Double.Foreign 's' ∧
      requireInteger (holding (.string " 3600s")) "constructor" "error" =
        (Fault.notAnInteger "error" "constructor").raise := by
  intro least holding
  have hleast : least.natAbs ≤ 2 ^ 53 - 1 := by decide
  have htext : Tells least (.string "\u2028-009007199254740991\ufeff") := by
    have hspelt : "\u2028-009007199254740991\ufeff" =
        String.ofList (['\u2028'] ++ Double.decimalText least 2 ++ ['\ufeff']) := by decide
    rw [hspelt]
    exact .text 2 (List.forall_mem_singleton.mpr rfl) (List.forall_mem_singleton.mpr rfl)
  have hblank : Text.isBlankText "\u3000" = true := by decide
  have hunit : 's' ∈ (Text.trim " 3600s").toList ∧ Double.Foreign 's' := by decide
  obtain ⟨hnumber, -⟩ :=
    integers_agree_with_text (holding (.number (.ofInt least))) "constructor" "error"
  obtain ⟨hdecimal, -⟩ := integers_agree_with_text
    (holding (.string "\u2028-009007199254740991\ufeff")) "constructor" "error"
  obtain ⟨-, hempty⟩ :=
    integers_agree_with_text (holding (.string "\u3000")) "constructor" "error"
  obtain ⟨-, hspoilt⟩ :=
    integers_agree_with_text (holding (.string " 3600s")) "constructor" "error"
  have htaken := (hnumber least hleast).2 _ .number rfl
  have hread := (hdecimal least hleast).2 _ htext rfl
  exact ⟨⟨hleast, htext, htaken, hread⟩,
    ⟨hblank, (hempty _ rfl (.inl hblank)).1⟩,
    hunit.1, hunit.2, (hspoilt _ rfl (.inr ⟨'s', hunit⟩)).1⟩

end Bearer.Http
