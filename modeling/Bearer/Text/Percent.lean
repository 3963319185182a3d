import Bearer.Text.Utf8

namespace Bearer.Text.Percent

def hexDigit (n : Nat) : Char :=
  if n < 10 then Char.ofNat ('0'.toNat + n) else Char.ofNat ('A'.toNat + (n - 10))

def hexValue? (c : Char) : Option Nat :=
  let n := c.toNat
  if '0'.toNat ≤ n ∧ n ≤ '9'.toNat then some (n - '0'.toNat)
  else if 'A'.toNat ≤ n ∧ n ≤ 'F'.toNat then some (n - 'A'.toNat + 10)
  else if 'a'.toNat ≤ n ∧ n ≤ 'f'.toNat then some (n - 'a'.toNat + 10)
  else none

def escape (b : UInt8) : List Char :=
  ['%', hexDigit (b.toNat / 16), hexDigit (b.toNat % 16)]

/-- Encodes the characters that are not safe, byte by byte: a percent sign and two capital
hexadecimal digits each. -/
def encode (safe : Char → Bool) (cs : List Char) : List Char :=
  cs.flatMap (fun c => if safe c then [c] else (Utf8.encodeChar c).flatMap escape)

/-- The bytes behind a percent-encoded text; a percent sign without two digits after
it stands for itself. -/
def bytes : List Char → List UInt8
  | [] => []
  | '%' :: a :: b :: cs =>
    match hexValue? a, hexValue? b with
    | some x, some y => (x * 16 + y).toUInt8 :: bytes cs
    | _, _ => Utf8.encodeChar '%' ++ bytes (a :: b :: cs)
  | c :: cs => Utf8.encodeChar c ++ bytes cs

def decode (cs : List Char) : List Char := Utf8.decode (bytes cs)

/-- Letters, digits and the marks that need no encoding inside one component. -/
def isComponentSafe (c : Char) : Bool :=
  c.isAlphanum || "-_.!~*'()".toList.contains c

def encodeComponent (s : String) : String :=
  String.ofList (encode isComponentSafe s.toList)

end Bearer.Text.Percent
