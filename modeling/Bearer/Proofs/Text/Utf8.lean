import Bearer.Text.Utf8

namespace Bearer.Text.Utf8

theorem toNat_toUInt8 {n : Nat} (h : n < 256) : n.toUInt8.toNat = n :=
  UInt8.toNat_ofNat_of_lt' h

theorem lead?_one {n : Nat} (h : n < 0x80) : lead? n.toUInt8 = some ⟨0, n, 0x80, 0xBF⟩ := by
  simp only [lead?, toNat_toUInt8 (show n < 256 by omega), if_pos h]

theorem lead?_two {k : Nat} (hlow : 2 ≤ k) (hhigh : k < 0x20) :
    lead? (0xC0 + k).toUInt8 = some ⟨1, k, 0x80, 0xBF⟩ := by
  simp only [lead?, toNat_toUInt8 (show 0xC0 + k < 256 by omega)]
  rw [if_neg (by omega), if_pos (by omega), Nat.add_sub_cancel_left]

/-- The first of three bytes lets in the second byte of any character that starts with it. -/
theorem lead?_three {n : Nat} (hlow : 0x800 ≤ n) (hhigh : n < 0x10000)
    (hpair : n < 0xD800 ∨ 0xDFFF < n) : ∃ least most,
      lead? (0xE0 + n / 0x1000).toUInt8 = some ⟨2, n / 0x1000, least, most⟩ ∧
        least ≤ 0x80 + n / 0x40 % 0x40 ∧ 0x80 + n / 0x40 % 0x40 ≤ most := by
  simp only [lead?, toNat_toUInt8 (show 0xE0 + n / 0x1000 < 256 by omega)]
  rw [if_neg (by omega), if_neg (by omega)]
  split
  · next h =>
    have hbits : n / 0x1000 = 0 := by omega
    exact ⟨0xA0, 0xBF, by rw [hbits], by omega, by omega⟩
  split
  · next h =>
    have hbits : n / 0x1000 = 0xD := by omega
    exact ⟨0x80, 0x9F, by rw [hbits], by omega, by omega⟩
  · rw [if_pos (by omega), Nat.add_sub_cancel_left]
    exact ⟨0x80, 0xBF, rfl, by omega, by omega⟩

/-- The first of four bytes lets in the second byte of any character that starts with it. -/
theorem lead?_four {n : Nat} (hlow : 0x10000 ≤ n) (hhigh : n < 0x110000) : ∃ least most,
      lead? (0xF0 + n / 0x40000).toUInt8 = some ⟨3, n / 0x40000, least, most⟩ ∧
        least ≤ 0x80 + n / 0x1000 % 0x40 ∧ 0x80 + n / 0x1000 % 0x40 ≤ most := by
  simp only [lead?, toNat_toUInt8 (show 0xF0 + n / 0x40000 < 256 by omega)]
  rw [if_neg (by omega), if_neg (by omega), if_neg (by omega), if_neg (by omega),
    if_neg (by omega)]
  split
  · next h =>
    have hbits : n / 0x40000 = 0 := by omega
    exact ⟨0x90, 0xBF, by rw [hbits], by omega, by omega⟩
  split
  · next h =>
    rw [Nat.add_sub_cancel_left]
    exact ⟨0x80, 0xBF, rfl, by omega, by omega⟩
  · next h =>
    have hbits : n / 0x40000 = 4 := by omega
    exact ⟨0x80, 0x8F, by rw [hbits, if_pos (by omega)], by omega, by omega⟩

variable {bits least most b : Nat} {bs : List UInt8}

theorem read_first {k : Nat} (h : lead? b.toUInt8 = some ⟨k + 1, bits, least, most⟩) :
    read .idle (b.toUInt8 :: bs) = read (.within (k + 1) bits least most) bs := by
  rw [read, h]

theorem read_between {k : Nat} (hleast : least ≤ b) (hmost : b ≤ most) (hb : b < 256) :
    read (.within (k + 2) bits least most) (b.toUInt8 :: bs) =
      read (.within (k + 1) (bits * 0x40 + (b - 0x80)) 0x80 0xBF) bs := by
  rw [read, toNat_toUInt8 hb, if_pos ⟨hleast, hmost⟩]
  exact if_neg (by omega)

theorem read_last (hleast : least ≤ b) (hmost : b ≤ most) (hb : b < 256) :
    read (.within 1 bits least most) (b.toUInt8 :: bs) =
      Char.ofNat (bits * 0x40 + (b - 0x80)) :: read .idle bs := by
  rw [read, toNat_toUInt8 hb, if_pos ⟨hleast, hmost⟩]
  exact if_pos (by omega)

theorem read_encodeChar (c : Char) (bs : List UInt8) :
    read .idle (encodeChar c ++ bs) = c :: read .idle bs := by
  have hvalid : c.toNat < 0xD800 ∨ 0xDFFF < c.toNat ∧ c.toNat < 0x110000 := c.valid
  have hchar {n : Nat} (h : n = c.toNat) : Char.ofNat n = c := by rw [h, Char.ofNat_toNat]
  unfold encodeChar
  generalize hn : c.toNat = n at hvalid hchar ⊢
  dsimp only
  split
  · next h =>
    simp only [List.cons_append, List.nil_append]
    rw [read, lead?_one h]
    exact congrArg (· :: _) (hchar rfl)
  split
  · next h =>
    simp only [List.cons_append, List.nil_append]
    rw [read_first (lead?_two (by omega) (by omega)), read_last (by omega) (by omega) (by omega),
      hchar (by omega)]
  split
  · next h =>
    obtain ⟨least, most, hlead, hleast, hmost⟩ := lead?_three (by omega) h (by omega)
    simp only [List.cons_append, List.nil_append]
    rw [read_first hlead, read_between hleast hmost (by omega),
      read_last (by omega) (by omega) (by omega), hchar (by omega)]
  · next h =>
    obtain ⟨least, most, hlead, hleast, hmost⟩ :=
      lead?_four (show 0x10000 ≤ n by omega) (by omega)
    simp only [List.cons_append, List.nil_append]
    rw [read_first hlead, read_between hleast hmost (by omega),
      read_between (by omega) (by omega) (by omega), read_last (by omega) (by omega) (by omega),
      hchar (by omega)]

/-- Text that was written as bytes reads back. -/
@[simp] theorem decode_encode (cs : List Char) : decode (encode cs) = cs := by
  induction cs with
  | nil => rfl
  | cons c cs ih =>
    rw [encode, List.flatMap_cons, decode, read_encodeChar]
    exact congrArg (c :: ·) ih

end Bearer.Text.Utf8
