namespace Bearer.Text.Base64

def digit (n : Nat) : Char :=
  if n < 26 then Char.ofNat ('A'.toNat + n)
  else if n < 52 then Char.ofNat ('a'.toNat + (n - 26))
  else if n < 62 then Char.ofNat ('0'.toNat + (n - 52))
  else if n = 62 then '+'
  else '/'

def value? (c : Char) : Option Nat :=
  let n := c.toNat
  if 'A'.toNat ≤ n ∧ n ≤ 'Z'.toNat then some (n - 'A'.toNat)
  else if 'a'.toNat ≤ n ∧ n ≤ 'z'.toNat then some (n - 'a'.toNat + 26)
  else if '0'.toNat ≤ n ∧ n ≤ '9'.toNat then some (n - '0'.toNat + 52)
  else if c = '+' ∨ c = '-' then some 62
  else if c = '/' ∨ c = '_' then some 63
  else none

/-- Bytes in the standard alphabet, padded. -/
def encode : List UInt8 → List Char
  | [] => []
  | [a] =>
    let n := a.toNat * 16
    [digit (n / 64), digit (n % 64), '=', '=']
  | [a, b] =>
    let n := (a.toNat * 256 + b.toNat) * 4
    [digit (n / 4096), digit (n / 64 % 64), digit (n % 64), '=']
  | a :: b :: c :: bs =>
    let n := (a.toNat * 256 + b.toNat) * 256 + c.toNat
    digit (n / 262144) :: digit (n / 4096 % 64) :: digit (n / 64 % 64) :: digit (n % 64)
      :: encode bs

/-- The bytes of a row of six-bit values. -/
def join : List Nat → List UInt8
  | a :: b :: c :: d :: vs =>
    let n := ((a * 64 + b) * 64 + c) * 64 + d
    (n / 65536).toUInt8 :: (n / 256 % 256).toUInt8 :: (n % 256).toUInt8 :: join vs
  | [a, b, c] =>
    let n := (a * 64 + b) * 64 + c
    [(n / 1024).toUInt8, (n / 4 % 256).toUInt8]
  | [a, b] => [((a * 64 + b) / 16).toUInt8]
  | _ => []

/-- The bytes that letters of both alphabets spell. What belongs to neither is skipped, reading
stops at the first padding sign, and bits that fill no byte are dropped. -/
def decode (cs : List Char) : List UInt8 :=
  join ((cs.takeWhile (· ≠ '=')).filterMap value?)

def toSafe (c : Char) : Char :=
  if c = '+' then '-' else if c = '/' then '_' else c

/-- The alphabet that is safe in addresses, without padding. -/
def encodeSafe (bs : List UInt8) : List Char :=
  ((encode bs).takeWhile (· ≠ '=')).map toSafe

def encodeString (bs : List UInt8) : String := String.ofList (encode bs)

end Bearer.Text.Base64
