import Bearer.Text.Percent
import Bearer.Proofs.Text.Utf8

namespace Bearer.Text.Percent

theorem hexDigit_lt {n : Nat} (h : n < 16) :
    hexValue? (hexDigit n) = some n ∧ hexDigit n ∈ "0123456789ABCDEF".toList := by
  have hall : ∀ m : Fin 16, hexValue? (hexDigit m) = some m.val ∧
      hexDigit m ∈ "0123456789ABCDEF".toList := by decide
  exact hall ⟨n, h⟩

theorem bytes_escape (b : UInt8) (cs : List Char) : bytes (escape b ++ cs) = b :: bytes cs := by
  have hb : b.toNat < 256 := b.toNat_lt
  have hbyte : (b.toNat / 16 * 16 + b.toNat % 16).toUInt8 = b := by
    rw [Nat.div_add_mod']
    exact UInt8.ofNat_toNat
  simp only [escape, List.cons_append, List.nil_append, bytes,
    (hexDigit_lt (show b.toNat / 16 < 16 by omega)).1,
    (hexDigit_lt (show b.toNat % 16 < 16 by omega)).1, hbyte]

theorem bytes_escapes (bs : List UInt8) (cs : List Char) :
    bytes (bs.flatMap escape ++ cs) = bs ++ bytes cs := by
  induction bs with
  | nil => rfl
  | cons b bs ih => rw [List.flatMap_cons, List.append_assoc, bytes_escape, ih, List.cons_append]

theorem bytes_cons {c : Char} (hc : c ≠ '%') (cs : List Char) :
    bytes (c :: cs) = Utf8.encodeChar c ++ bytes cs :=
  bytes.eq_3 c cs fun _ _ _ h _ => hc h

section
variable {safe : Char → Bool}

theorem bytes_encode (hsafe : safe '%' = false) (s cs : List Char) :
    bytes (encode safe s ++ cs) = Utf8.encode s ++ bytes cs := by
  induction s with
  | nil => rfl
  | cons c s ih =>
    rw [encode, List.flatMap_cons, List.append_assoc, ← encode, Utf8.encode, List.flatMap_cons,
      List.append_assoc, ← Utf8.encode, ← ih]
    split
    · next hc =>
      refine bytes_cons ?_ _
      rintro rfl
      rw [hsafe] at hc
      cases hc
    · exact bytes_escapes _ _

theorem decode_encode (hsafe : safe '%' = false) (s : List Char) : decode (encode safe s) = s := by
  have hbytes : bytes (encode safe s) = Utf8.encode s := by
    simpa [bytes] using bytes_encode hsafe s []
  rw [decode, hbytes, Utf8.decode_encode]

theorem mem_escape {b : UInt8} {c : Char} (h : c ∈ escape b) :
    c = '%' ∨ c ∈ "0123456789ABCDEF".toList := by
  have hb : b.toNat < 256 := b.toNat_lt
  simp only [escape, List.mem_cons, List.not_mem_nil, or_false] at h
  rcases h with rfl | rfl | rfl
  · exact .inl rfl
  · exact .inr (hexDigit_lt (by omega)).2
  · exact .inr (hexDigit_lt (by omega)).2

theorem mem_escapes {bs : List UInt8} {c : Char} (h : c ∈ bs.flatMap escape) :
    c = '%' ∨ c ∈ "0123456789ABCDEF".toList := by
  obtain ⟨b, -, hb⟩ := List.mem_flatMap.mp h
  exact mem_escape hb

theorem mem_encode {s : List Char} {c : Char} (h : c ∈ encode safe s) :
    safe c = true ∨ c = '%' ∨ c ∈ "0123456789ABCDEF".toList := by
  obtain ⟨d, -, hd⟩ := List.mem_flatMap.mp h
  split at hd
  · next hsafe =>
    rw [List.mem_singleton] at hd
    exact .inl (hd ▸ hsafe)
  · exact .inr (mem_escapes hd)

end

theorem decode_encodeComponent (s : String) :
    String.ofList (decode (encodeComponent s).toList) = s := by
  rw [encodeComponent, String.toList_ofList, decode_encode (by decide), String.ofList_toList]

/-- No mark outside the safe set survives in a component, but for the percent sign. -/
theorem not_mem_encodeComponent {c : Char} (hsafe : isComponentSafe c = false) (hc : c ≠ '%')
    (hdigit : c ∉ "0123456789ABCDEF".toList) (s : String) : c ∉ (encodeComponent s).toList := by
  rw [encodeComponent, String.toList_ofList]
  intro h
  rcases mem_encode h with h | h | h
  · rw [hsafe] at h
    cases h
  · exact hc h
  · exact hdigit h

end Bearer.Text.Percent
