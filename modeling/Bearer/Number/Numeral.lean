import Bearer.Number.Shortest
import Bearer.Text.Blank

namespace Bearer.Double

def digitValue (c : Char) : Nat := c.toNat - '0'.toNat

def ofDigits (ds : List Char) : Nat := ds.foldl (fun n c => n * 10 + digitValue c) 0

/-- The number nearest to a decimal. The two guards only cut short what overflows
or vanishes in any case. -/
def ofDecimal (negative : Bool) (digits : List Char) (exponent : Int) : Double :=
  let significant := digits.dropWhile (· = '0')
  let size : Int := significant.length + exponent
  if significant.isEmpty ∨ size < -400 then finite 0
  else if 400 < size then infinite negative
  else
    let a : Rat := ofDigits significant * pow10 exponent
    ofRat (if negative then -a else a)

def zeros (n : Nat) : List Char := List.replicate n '0'

/-- The digits of a positive decimal around its point, or with an exponent. -/
def layout (d : Decimal) : List Char :=
  let digits := (Nat.toDigits 10 d.coefficient)
  let k := digits.length
  let point : Int := k + d.exponent
  if k ≤ point ∧ point ≤ 21 then digits ++ zeros (point.toNat - k)
  else if 0 < point ∧ point ≤ 21 then
    digits.take point.toNat ++ '.' :: digits.drop point.toNat
  else if -6 < point ∧ point ≤ 0 then '0' :: '.' :: zeros (-point).toNat ++ digits
  else
    let exponent := point - 1
    let sign := if exponent < 0 then '-' else '+'
    let size := Nat.toDigits 10 exponent.natAbs
    match digits with
    | [d] => d :: 'e' :: sign :: size
    | d :: ds => d :: '.' :: ds ++ 'e' :: sign :: size
    | [] => []

def chars : Double → List Char
  | nan => "NaN".toList
  | infinite negative => (if negative then "-Infinity" else "Infinity").toList
  | finite a =>
    if a = 0 then ['0']
    else if a < 0 then '-' :: layout (shortest (-a))
    else layout (shortest a)

/-- The shortest decimal that reads back, positional between `1e-6` and `1e21` and with an
exponent elsewhere. -/
def text (x : Double) : String := String.ofList x.chars

instance : ToString Double := ⟨text⟩

def takeDigits (cs : List Char) : List Char × List Char := cs.span Char.isDigit

def readExponent? : List Char → Option (Int × List Char)
  | [] => some (0, [])
  | c :: cs =>
    if c = 'e' ∨ c = 'E' then
      let (negative, rest) := match cs with
        | '-' :: r => (true, r)
        | '+' :: r => (false, r)
        | r => (false, r)
      match takeDigits rest with
      | ([], _) => none
      | (ds, rest) => some (if negative then -(ofDigits ds : Int) else ofDigits ds, rest)
    else some (0, c :: cs)

/-- The strict grammar: no leading zeros, digits on both sides of a point. Answers
the number and what follows it. -/
def read? (cs : List Char) : Option (Double × List Char) := do
  let (negative, cs) := match cs with
    | '-' :: r => (true, r)
    | r => (false, r)
  let (whole, cs) ← match cs with
    | '0' :: r => some (['0'], r)
    | r => match takeDigits r with
      | ([], _) => none
      | (ds, r) => some (ds, r)
  let (fraction, cs) ← match cs with
    | '.' :: r => match takeDigits r with
      | ([], _) => none
      | (ds, r) => some (ds, r)
    | r => some ([], r)
  let (exponent, cs) ← readExponent? cs
  some (ofDecimal negative (whole ++ fraction) (exponent - fraction.length), cs)

def digitInBase? (base : Nat) (c : Char) : Option Nat :=
  let n := c.toNat
  let v := if '0'.toNat ≤ n ∧ n ≤ '9'.toNat then some (n - '0'.toNat)
    else if 'a'.toNat ≤ n ∧ n ≤ 'z'.toNat then some (n - 'a'.toNat + 10)
    else if 'A'.toNat ≤ n ∧ n ≤ 'Z'.toNat then some (n - 'A'.toNat + 10)
    else none
  v.filter (· < base)

/-- A whole number in another base, at least one digit long. -/
def readInBase (base : Nat) (cs : List Char) : Double :=
  match cs.mapM (digitInBase? base) with
  | none | some [] => nan
  | some ds => ofNat (ds.foldl (fun n d => n * base + d) 0)

/-- A decimal numeral with an optional sign; at least one digit around the point. -/
def readDecimal (cs : List Char) : Double :=
  let (negative, cs) := match cs with
    | '-' :: r => (true, r)
    | '+' :: r => (false, r)
    | r => (false, r)
  if cs = "Infinity".toList then infinite negative
  else
    let (whole, cs) := takeDigits cs
    let (fraction, cs) := match cs with
      | '.' :: r => takeDigits r
      | r => ([], r)
    if whole.isEmpty ∧ fraction.isEmpty then nan
    else match readExponent? cs with
      | some (exponent, []) =>
        ofDecimal negative (whole ++ fraction) (exponent - fraction.length)
      | _ => nan

/-- The lenient grammar: blanks around, a bare point at either end, an infinity, and the bases
sixteen, eight and two; blank text is zero. -/
def ofText (s : String) : Double :=
  match (Text.trim s).toList with
  | [] => finite 0
  | '0' :: 'x' :: cs | '0' :: 'X' :: cs => readInBase 16 cs
  | '0' :: 'o' :: cs | '0' :: 'O' :: cs => readInBase 8 cs
  | '0' :: 'b' :: cs | '0' :: 'B' :: cs => readInBase 2 cs
  | cs => readDecimal cs

end Bearer.Double
