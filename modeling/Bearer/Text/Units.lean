namespace Bearer.Text
namespace Units

abbrev Unit16 := Nat

def isHigh (u : Unit16) : Bool := 0xD800 ≤ u && u < 0xDC00

def isLow (u : Unit16) : Bool := 0xDC00 ≤ u && u < 0xE000

/-- Stands for whatever is no character. -/
def replacement : Char := '\uFFFD'

def ofChar (c : Char) : List Unit16 :=
  if c.toNat < 0x10000 then [c.toNat]
  else
    let n := c.toNat - 0x10000
    [0xD800 + n / 0x400, 0xDC00 + n % 0x400]

/-- The 16-bit units of a text. -/
def encode (cs : List Char) : List Unit16 := cs.flatMap ofChar

/-- A high unit joins the low unit after it; a unit left alone becomes the
replacement character. -/
def decode : List Unit16 → List Char
  | [] => []
  | u :: us =>
    if isHigh u then
      match us with
      | v :: vs =>
        if isLow v then Char.ofNat (0x10000 + (u - 0xD800) * 0x400 + (v - 0xDC00)) :: decode vs
        else replacement :: decode (v :: vs)
      | [] => [replacement]
    else if isLow u then replacement :: decode us
    else Char.ofNat u :: decode us

/-- Strictly before, unit by unit. -/
def before (s t : String) : Bool := decide (encode s.toList < encode t.toList)

end Units

/-- A text as a program holds it: any units, whether or not they make characters. -/
structure Utf16 where
  units : List UInt16
deriving DecidableEq

namespace Utf16

def ofString (s : String) : Utf16 := ⟨(Units.encode s.toList).map UInt16.ofNat⟩

instance : Coe String Utf16 := ⟨ofString⟩

def numbers (t : Utf16) : List Units.Unit16 := t.units.map UInt16.toNat

/-- The characters of a text, in which the replacement stands for every half of a pair that is left
alone. Forms and addresses are written so. -/
def repaired (t : Utf16) : String := String.ofList (Units.decode t.numbers)

/-- Texts with another one between them. -/
def joined (separator : Utf16) (ts : List Utf16) : Utf16 :=
  ⟨separator.units.intercalate (ts.map units)⟩

end Utf16
end Bearer.Text
