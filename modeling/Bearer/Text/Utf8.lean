import Bearer.Text.Units

namespace Bearer.Text.Utf8

def encodeChar (c : Char) : List UInt8 :=
  let n := c.toNat
  if n < 0x80 then [n.toUInt8]
  else if n < 0x800 then [(0xC0 + n / 0x40).toUInt8, (0x80 + n % 0x40).toUInt8]
  else if n < 0x10000 then
    [(0xE0 + n / 0x1000).toUInt8, (0x80 + n / 0x40 % 0x40).toUInt8, (0x80 + n % 0x40).toUInt8]
  else
    [(0xF0 + n / 0x40000).toUInt8, (0x80 + n / 0x1000 % 0x40).toUInt8,
     (0x80 + n / 0x40 % 0x40).toUInt8, (0x80 + n % 0x40).toUInt8]

def encode (cs : List Char) : List UInt8 := cs.flatMap encodeChar

/-- What the first byte of a sequence announces: how many bytes follow, the bits it
brings, and the range of the second byte, which keeps out overlong forms, halves of
pairs and what lies beyond the last character. -/
structure Lead where
  following : Nat
  bits : Nat
  least : Nat
  most : Nat

def lead? (b : UInt8) : Option Lead :=
  let n := b.toNat
  if n < 0x80 then some ⟨0, n, 0x80, 0xBF⟩
  else if 0xC2 ≤ n ∧ n ≤ 0xDF then some ⟨1, n - 0xC0, 0x80, 0xBF⟩
  else if n = 0xE0 then some ⟨2, 0, 0xA0, 0xBF⟩
  else if n = 0xED then some ⟨2, 0xD, 0x80, 0x9F⟩
  else if 0xE1 ≤ n ∧ n ≤ 0xEF then some ⟨2, n - 0xE0, 0x80, 0xBF⟩
  else if n = 0xF0 then some ⟨3, 0, 0x90, 0xBF⟩
  else if 0xF1 ≤ n ∧ n ≤ 0xF3 then some ⟨3, n - 0xF0, 0x80, 0xBF⟩
  else if n = 0xF4 then some ⟨3, 4, 0x80, 0x8F⟩
  else none

/-- Between two sequences, or inside one that still needs some bytes. -/
inductive Progress where
  | idle
  | within (following bits least most : Nat)

/-- Reads on from inside or between sequences; a byte that breaks a sequence is
looked at again as the start of the next one. -/
def read : Progress → List UInt8 → List Char
  | .idle, [] => []
  | .within .., [] => [Units.replacement]
  | .idle, b :: bs =>
    match lead? b with
    | none => Units.replacement :: read .idle bs
    | some ⟨0, bits, _, _⟩ => Char.ofNat bits :: read .idle bs
    | some ⟨k + 1, bits, least, most⟩ => read (.within (k + 1) bits least most) bs
  | .within k bits least most, b :: bs =>
    if least ≤ b.toNat ∧ b.toNat ≤ most then
      let bits := bits * 0x40 + (b.toNat - 0x80)
      if k ≤ 1 then Char.ofNat bits :: read .idle bs
      else read (.within (k - 1) bits 0x80 0xBF) bs
    else
      Units.replacement ::
        match lead? b with
        | none => Units.replacement :: read .idle bs
        | some ⟨0, bits, _, _⟩ => Char.ofNat bits :: read .idle bs
        | some ⟨k + 1, bits, least, most⟩ => read (.within (k + 1) bits least most) bs

/-- The text that the bytes hold, repaired: every maximal part of a broken sequence becomes one
replacement character, and no byte is lost or read twice. -/
def decode (bs : List UInt8) : List Char := read .idle bs

end Bearer.Text.Utf8
