namespace Bearer

/-- A number of 64 binary digits, held exactly: a finite one is the rational that it stands for.
Negative zero is not told apart from zero, since no reading of a number in this library depends
on it. -/
inductive Double where
  | nan
  | infinite (negative : Bool)
  | finite (value : Rat)
deriving DecidableEq

namespace Double

instance : Inhabited Double := ⟨nan⟩

/-- A quotient rounded to a whole number, halves to the even neighbour. -/
def roundDiv (n d : Nat) : Nat :=
  let k := n / d
  let r := n % d
  if d < 2 * r then k + 1
  else if 2 * r = d then k + k % 2
  else k

/-- The power of two with an exponent, one if the exponent is negative. -/
def twoTo (e : Int) : Nat := Nat.pow 2 e.toNat

/-- The binary exponent of the last place that is kept of the quotient `n / d`:
fifty-three places, but none below the smallest. -/
def lastPlace (n d : Nat) : Int :=
  let e : Int := max (-1074) ((n.log2 : Int) - (d.log2 : Int) - 53)
  if n * twoTo (-e) < Nat.pow 2 53 * (d * twoTo e) then e else e + 1

def scale (m : Nat) (e : Int) : Rat :=
  mkRat (m * twoTo e : Nat) (twoTo (-e))

/-- The nearest number of fifty-three binary places to `n / d`, as far as the
exponent allows. -/
def nearest (n d : Nat) : Rat :=
  let e := lastPlace n d
  scale (roundDiv (n * twoTo (-e)) (d * twoTo e)) e

/-- The number that stands for a rational: the nearest one, or an infinity. -/
def ofRat (q : Rat) : Double :=
  if q.num = 0 then finite 0
  else
    let a := nearest q.num.natAbs q.den
    if (Nat.pow 2 1024 : Nat) ≤ a then infinite (q.num < 0)
    else if q.num < 0 then finite (-a)
    else finite a

def ofInt (n : Int) : Double := ofRat n

def ofNat (n : Nat) : Double := ofInt n

instance (n : Nat) : OfNat Double n := ⟨ofNat n⟩

protected def neg : Double → Double
  | nan => nan
  | infinite s => infinite (!s)
  | finite a => finite (-a)

protected def add : Double → Double → Double
  | finite a, finite b => ofRat (a + b)
  | infinite s, infinite t => if s = t then infinite s else nan
  | infinite s, finite _ => infinite s
  | finite _, infinite t => infinite t
  | _, _ => nan

protected def mul : Double → Double → Double
  | finite a, finite b => ofRat (a * b)
  | infinite s, infinite t => infinite (s != t)
  | infinite s, finite b => if b = 0 then nan else infinite (s != decide (b < 0))
  | finite a, infinite t => if a = 0 then nan else infinite (decide (a < 0) != t)
  | _, _ => nan

protected def div : Double → Double → Double
  | finite a, finite b =>
    if b ≠ 0 then ofRat (a / b)
    else if a = 0 then nan
    else infinite (a < 0)
  | infinite s, finite b => infinite (s != decide (b < 0))
  | finite _, infinite _ => finite 0
  | _, _ => nan

instance : Neg Double := ⟨Double.neg⟩
instance : Add Double := ⟨Double.add⟩
instance : Mul Double := ⟨Double.mul⟩
instance : Div Double := ⟨Double.div⟩
instance : Sub Double := ⟨fun x y => x + -y⟩

/-- Strictly less; never so of something that is not a number. -/
def lt : Double → Double → Bool
  | finite a, finite b => a < b
  | infinite s, infinite t => s && !t
  | infinite s, finite _ => s
  | finite _, infinite t => !t
  | _, _ => false

/-- At most; never so of something that is not a number. -/
def le : Double → Double → Bool
  | finite a, finite b => a ≤ b
  | infinite s, infinite t => s || !t
  | infinite s, finite _ => s
  | finite _, infinite t => !t
  | _, _ => false

def toInt? : Double → Option Int
  | finite a => if a.den = 1 then some a.num else none
  | _ => none

/-- The whole part of a finite number, cut toward zero. -/
def truncate? : Double → Option Int
  | finite a => some (a.num.tdiv a.den)
  | _ => none

/-- The greatest whole number not above a finite number; other numbers stay. -/
def floor : Double → Double
  | finite a => ofInt (a.num.fdiv a.den)
  | x => x

end Double
end Bearer
