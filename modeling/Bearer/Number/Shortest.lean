import Bearer.Number.Double

namespace Bearer.Double

/-- A decimal `coefficient * 10 ^ exponent`. -/
structure Decimal where
  coefficient : Nat
  exponent : Int
deriving DecidableEq

def pow10 (e : Int) : Rat := mkRat (Nat.pow 10 e.toNat) (Nat.pow 10 (-e).toNat)

namespace Decimal

def value (d : Decimal) : Rat := d.coefficient * pow10 d.exponent

def strip (d : Decimal) : Nat → Decimal
  | 0 => d
  | fuel + 1 =>
    if d.coefficient ≠ 0 ∧ d.coefficient % 10 = 0 then
      strip ⟨d.coefficient / 10, d.exponent + 1⟩ fuel
    else d

end Decimal

/-- The rationals that round to one number, with or without the two ends. -/
structure Interval where
  low : Rat
  high : Rat
  closed : Bool

def Interval.has (i : Interval) (q : Rat) : Bool :=
  if i.closed then i.low ≤ q && q ≤ i.high else i.low < q && q < i.high

/-- What rounds to the positive number `a`: half a place on both sides, a quarter
below a power of two, and the ends when the last binary place is even. -/
def interval (a : Rat) : Interval :=
  let e := lastPlace a.num.natAbs a.den
  let m := (a / scale 1 e).num.natAbs
  let half := scale 1 (e - 1)
  let below := if m = Nat.pow 2 52 ∧ -1074 < e then scale 1 (e - 2) else half
  ⟨a - below, a + half, m % 2 = 0⟩

def leadingExponent (a : Rat) : Int :=
  let guess : Int := ((a.num.natAbs.log2 : Int) - (a.den.log2 : Int)) * 30103 / 100000
  ([guess + 1, guess, guess - 1].find? (fun e => pow10 e ≤ a)).getD (guess - 2)

/-- The better of the two neighbours of `a` on the grid of `10 ^ exponent` among
those that round to `a`. -/
def onGrid (a : Rat) (i : Interval) (exponent : Int) : Option Decimal :=
  let k := (a / pow10 exponent).floor.toNat
  let lower : Decimal := ⟨k, exponent⟩
  let upper : Decimal := ⟨k + 1, exponent⟩
  if i.has lower.value then
    if i.has upper.value then
      let below := a - lower.value
      let above := upper.value - a
      if below < above then some lower
      else if above < below then some upper
      else if k % 2 = 0 then some lower
      else some upper
    else some lower
  else if i.has upper.value then some upper
  else none

/-- The shortest decimal of a positive number, and of the shortest ones the nearest. Each grid
of decimals is tried in turn; seventeen digits always suffice. -/
def shortest (a : Rat) : Decimal :=
  let i := interval a
  let first := leadingExponent a
  let found := (List.range 17).findSome? (fun (k : Nat) => onGrid a i (first - k))
  (found.getD ⟨(a / pow10 (first - 16)).floor.toNat, first - 16⟩).strip 20

end Bearer.Double
