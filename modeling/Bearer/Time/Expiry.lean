import Bearer.Number.Numeral
import Bearer.Time.Calendar

namespace Bearer

/-- When something ends: never, at an instant, or at an instant that cannot be told. -/
inductive Expiry where
  | never
  | invalid
  | at (ms : Int)
deriving DecidableEq

namespace Expiry

open Time

/-- The instant a number names: cut to whole milliseconds, and invalid beyond the
furthest instants. -/
def ofNumber (x : Double) : Expiry :=
  match x.truncate? with
  | some ms => if isValid ms then .at ms else invalid
  | none => invalid

def toNumber? : Expiry → Option Double
  | never => none
  | invalid => some .nan
  | .at ms => some (Double.ofInt ms)

/-- A number in decimal with zeros in front up to a width. -/
def padded (width n : Nat) : String := String.ofList (Nat.toDigits 10 n |> pad)
where
  pad (ds : List Char) : List Char := List.replicate (width - ds.length) '0' ++ ds

def yearText (year : Int) : String :=
  if 0 ≤ year ∧ year ≤ 9999 then padded 4 year.toNat
  else (if year < 0 then "-" else "+") ++ padded 6 year.natAbs

/-- The text of an instant in ISO 8601, with a sign and six digits for the years that four
digits cannot hold. -/
def instantText (ms : Int) : String :=
  let date := Date.ofDays (ms / msPerDay)
  let time := (ms % msPerDay).toNat
  yearText date.year ++ "-" ++ padded 2 date.month ++ "-" ++ padded 2 date.day ++ "T"
    ++ padded 2 (time / 3600000) ++ ":" ++ padded 2 (time / 60000 % 60) ++ ":"
    ++ padded 2 (time / 1000 % 60) ++ "." ++ padded 3 (time % 1000) ++ "Z"

end Expiry
end Bearer
