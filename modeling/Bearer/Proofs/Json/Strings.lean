import Bearer.Json.Reader
import Bearer.Json.Writer
import Bearer.Proofs.Text.Units

namespace Bearer

namespace Json

open Text

/-- The four digits of a control character spell it. -/
theorem hexUnit?_control {n : Nat} (hn : n < 0x20) :
    hexUnit? '0' '0' (hexDigit (n / 16)) (hexDigit n) = some n := by
  have hall : ∀ m : Fin 0x20, hexUnit? '0' '0' (hexDigit (m / 16)) (hexDigit m) = some m.val := by
    decide
  exact hall ⟨n, hn⟩

/-- The three ways of writing a character: a one-letter escape, the digits of its unit, or
the character itself. -/
theorem escapeChar_forms (c : Char) :
    (c.toNat < 0x80 ∧ ∃ e, e ≠ 'u' ∧ escapeChar c = ['\\', e] ∧ shortEscape? e = some c.toNat) ∨
      (c.toNat < 0x20 ∧ escapeChar c =
        ['\\', 'u', '0', '0', hexDigit (c.toNat / 16), hexDigit c.toNat]) ∨
      (¬ c.toNat < 0x20 ∧ c ≠ '"' ∧ c ≠ '\\' ∧ escapeChar c = [c]) := by
  unfold escapeChar
  split
  · next h =>
    subst h
    exact .inl ⟨by decide, '"', by decide, rfl, rfl⟩
  split
  · next h =>
    subst h
    exact .inl ⟨by decide, '\\', by decide, rfl, rfl⟩
  split
  · next h => exact .inl ⟨by omega, 'b', by decide, rfl, by rw [h]; rfl⟩
  split
  · next h => exact .inl ⟨by omega, 't', by decide, rfl, by rw [h]; rfl⟩
  split
  · next h => exact .inl ⟨by omega, 'n', by decide, rfl, by rw [h]; rfl⟩
  split
  · next h => exact .inl ⟨by omega, 'f', by decide, rfl, by rw [h]; rfl⟩
  split
  · next h => exact .inl ⟨by omega, 'r', by decide, rfl, by rw [h]; rfl⟩
  split
  · next h => exact .inr (.inl ⟨h, rfl⟩)
  · next hquote hslash _ _ _ _ _ h => exact .inr (.inr ⟨h, hquote, hslash, rfl⟩)

/-- Each escaped character reads back as its own units. -/
theorem stringBody_escapeChar (c : Char) (cs : List Char) :
    stringBody (escapeChar c ++ cs)
      = (stringBody cs).map (fun r => (Units.ofChar c ++ r.1, r.2)) := by
  have hunit (h : c.toNat < 0x80) : Units.ofChar c = [c.toNat] := by
    rw [Units.ofChar, if_pos (by omega)]
  rcases escapeChar_forms c with ⟨hsmall, e, he, hform, hshort⟩ | ⟨hcontrol, hform⟩ |
    ⟨hplain, hquote, hslash, hform⟩
  · rw [hform, hunit hsmall, List.cons_append, List.cons_append, List.nil_append]
    rw [stringBody.eq_4 e cs (fun _ _ _ _ _ hu _ => he hu), hshort]
    cases stringBody cs <;> rfl
  · rw [hform, hunit (by omega)]
    simp only [List.cons_append, List.nil_append, stringBody, hexUnit?_control hcontrol]
    cases stringBody cs <;> rfl
  · rw [hform, List.cons_append, List.nil_append, stringBody.eq_5 c cs hquote
      (fun _ _ _ _ _ hc _ => hslash hc) (fun _ _ hc _ => hslash hc),
      if_neg (not_or.mpr ⟨hplain, hslash⟩)]
    cases stringBody cs <;> rfl

theorem stringBody_escape (s rest : List Char) :
    stringBody (s.flatMap escapeChar ++ '"' :: rest) = some (Units.encode s, rest) := by
  induction s with
  | nil => rfl
  | cons c cs ih =>
    rw [List.flatMap_cons, List.append_assoc, stringBody_escapeChar, ih]
    rfl

theorem writeString_append (s : String) (rest : List Char) :
    writeString s ++ rest = '"' :: (s.toList.flatMap escapeChar ++ '"' :: rest) := by
  simp [writeString]

/-- A written string reads back, whatever comes after it. -/
theorem stringRest_escape (s : String) (rest : List Char) :
    stringRest (s.toList.flatMap escapeChar ++ '"' :: rest) = some (s, rest) := by
  rw [stringRest, stringBody_escape, Option.map_some, Units.decode_encode, String.ofList_toList]

end Json
end Bearer
