import Bearer.Text.Units

namespace Bearer.Url.Punycode

def base : Nat := 36
def leastThreshold : Nat := 1
def mostThreshold : Nat := 26
def skew : Nat := 38
def damp : Nat := 700
def firstBias : Nat := 72
def firstPoint : Nat := 128

def digit (n : Nat) : Char :=
  if n < 26 then Char.ofNat ('a'.toNat + n) else Char.ofNat ('0'.toNat + (n - 26))

/-- Divides a difference down until it is small; the fuel bounds the divisions. -/
def shrink : Nat → Nat → Nat → Nat × Nat
  | 0, delta, k => (delta, k)
  | fuel + 1, delta, k =>
    if (base - leastThreshold) * mostThreshold / 2 < delta then
      shrink fuel (delta / (base - leastThreshold)) (k + base)
    else (delta, k)

/-- The bias after a character, given how many there are by now. -/
def adapt (delta count : Nat) (first : Bool) : Nat :=
  let delta := if first then delta / damp else delta / 2
  let delta := delta + delta / count
  let (delta, k) := shrink delta delta 0
  k + (base - leastThreshold + 1) * delta / (delta + skew)

def threshold (k bias : Nat) : Nat :=
  if k ≤ bias + leastThreshold then leastThreshold
  else if bias + mostThreshold ≤ k then mostThreshold
  else k - bias

/-- A number in digits of growing weight; the fuel bounds their count. -/
def number : Nat → Nat → Nat → Nat → List Char
  | 0, _, _, _ => []
  | fuel + 1, q, k, bias =>
    let t := threshold k bias
    if q < t then [digit q]
    else digit (t + (q - t) % (base - t)) :: number fuel ((q - t) / (base - t)) (k + base) bias

structure Progress where
  delta : Nat
  bias : Nat
  /-- How many characters are written. -/
  handled : Nat
  written : List Char

/-- Looks at one character while the characters of one point are written. -/
def visit (basics point : Nat) (p : Progress) (c : Nat) : Progress :=
  if c < point then { p with delta := p.delta + 1 }
  else if c = point then
    { delta := 0
      bias := adapt p.delta (p.handled + 1) (p.handled = basics)
      handled := p.handled + 1
      written := p.written ++ number (p.delta + 1) p.delta base p.bias }
  else p

/-- Writes the characters beyond ASCII, by growing point. -/
def points (cs : List Nat) (basics : Nat) : List Nat → Nat → Progress → Progress
  | [], _, p => p
  | point :: rest, next, p =>
    let p := { p with delta := p.delta + (point - next) * (p.handled + 1) }
    let p := cs.foldl (visit basics point) p
    points cs basics rest (point + 1) { p with delta := p.delta + 1 }

/-- A label in ASCII, without its mark. -/
def encode (label : List Char) : List Char :=
  let cs := label.map Char.toNat
  let basic := label.filter (fun c => c.toNat < firstPoint)
  let beyond := ((cs.filter (firstPoint ≤ ·)).eraseDups).mergeSort
  let start : Progress :=
    { delta := 0, bias := firstBias, handled := basic.length
      written := if basic.isEmpty then [] else basic ++ ['-'] }
  (points cs basic.length beyond firstPoint start).written

end Bearer.Url.Punycode
