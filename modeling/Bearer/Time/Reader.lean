import Bearer.Text.Blank
import Bearer.Text.Units
import Bearer.Time.Expiry

namespace Bearer.Time

inductive Word where
  | month (n : Nat)
  | halfDay (offset : Nat)
  | zone (hours : Int)
  | separator
  | other
deriving DecidableEq

inductive Token where
  | number (value length : Nat)
  | symbol (c : Char)
  | word (w : Word) (length : Nat)
  | blank
  | other
deriving DecidableEq

namespace Token

def months : List String :=
  ["jan", "feb", "mar", "apr", "may", "jun", "jul", "aug", "sep", "oct", "nov", "dec"]

def zones : List (String × Int) :=
  [("ut", 0), ("utc", 0), ("z", 0), ("gmt", 0), ("est", -5), ("edt", -4), ("cst", -6),
   ("cdt", -5), ("mst", -7), ("mdt", -6), ("pst", -8), ("pdt", -7)]

/-- Three letters tell a month; the other words are read whole. -/
def classify (letters : List Nat) : Word :=
  let lower := letters.map (fun u => u ||| 0x20)
  let word := String.ofList ((lower.take 3).map Char.ofNat)
  match months.findIdx? (· = word) with
  | some i => .month (i + 1)
  | none =>
    if 3 < letters.length then .other
    else if word = "am" then .halfDay 0
    else if word = "pm" then .halfDay 12
    else if word = "t" then .separator
    else match zones.find? (fun z => z.1 = word) with
      | some z => .zone z.2
      | none => .other

def isDigit (u : Nat) : Bool := 0x30 ≤ u && u ≤ 0x39

def isBlank (u : Nat) : Bool := Text.isBlank (Char.ofNat u)

/-- Letters, and whatever else sorts from the capital A on. -/
def isLetter (u : Nat) : Bool := 0x41 ≤ u && !isBlank u

/-- A number keeps nine digits after its leading zeros. -/
def numberValue (digits : List Nat) : Nat :=
  ((digits.dropWhile (· = 0x30)).take 9).foldl (fun n u => n * 10 + (u - 0x30)) 0

/-- What follows a parenthesis that opened, its partner passed over. -/
def afterParentheses : Nat → List Nat → List Nat
  | _, [] => []
  | depth, u :: us =>
    if u = 0x28 then afterParentheses (depth + 1) us
    else if u = 0x29 then
      if depth ≤ 1 then us else afterParentheses (depth - 1) us
    else afterParentheses depth us

theorem afterParentheses_length (depth : Nat) (us : List Nat) :
    (afterParentheses depth us).length ≤ us.length := by
  fun_induction afterParentheses depth us <;> simp_all <;> omega

theorem length_dropWhile_le (p : Nat → Bool) (us : List Nat) :
    (us.dropWhile p).length ≤ us.length := (List.dropWhile_sublist p).length_le

/-- The tokens of a text in 16-bit units. -/
def scan (us : List Nat) : List Token :=
  match us with
  | [] => []
  | u :: us =>
    if isDigit u then
      let digits := u :: us.takeWhile isDigit
      .number (numberValue digits) digits.length :: scan (us.dropWhile isDigit)
    else if [':', '-', '+', '.', ')'].any (fun c => c.toNat = u) then
      .symbol (Char.ofNat u) :: scan us
    else if isLetter u then
      let letters := u :: us.takeWhile isLetter
      .word (classify letters) letters.length :: scan (us.dropWhile isLetter)
    else if isBlank u then .blank :: scan us
    else if u = 0x28 then .other :: scan (afterParentheses 1 us)
    else .other :: scan us
termination_by us.length
decreasing_by
  all_goals grind [length_dropWhile_le, afterParentheses_length]

def isSign : Token → Bool
  | .symbol c => c = '+' || c = '-'
  | _ => false

def isZulu : Token → Bool
  | .word (.zone _) length => length = 1
  | _ => false

end Token

structure Parts where
  /-- Up to three numbers of the date, in the order they were written. -/
  date : List Int := []
  month : Option Nat := none
  /-- Whether the date stands as year, month, day. -/
  ordered : Bool := false
  /-- Up to four numbers of the time: hour, minute, second, millisecond. -/
  time : List Nat := []
  halfDay : Option Nat := none
  sign : Option Bool := none
  zoneHour : Option Nat := none
  zoneMinute : Option Nat := none

namespace Parts

def addDate (p : Parts) (n : Int) : Option Parts :=
  if p.date.length < 3 then some { p with date := p.date ++ [n] } else none

def addTime (p : Parts) (n : Nat) : Option Parts :=
  if p.time.length < 4 then some { p with time := p.time ++ [n] } else none

/-- Adds the last number of the time; what is left of it is zero. -/
def closeTime (p : Parts) (n : Nat) : Parts :=
  { p with time := ((p.time ++ [n]) ++ [0, 0, 0, 0]).take 4 }

/-- Whether a number can be the next part of a time that has begun. -/
def expectsTime (p : Parts) (n : Nat) : Bool :=
  match p.time.length with
  | 1 => n < 60
  | 2 => n < 60
  | 3 => n < 1000
  | _ => false

def expectsZoneMinute (p : Parts) (n : Nat) : Bool :=
  p.zoneHour.isSome && p.zoneMinute.isNone && n < 60

def setZone (p : Parts) (hours : Int) : Parts :=
  { p with sign := some (decide (0 ≤ hours)), zoneHour := some hours.natAbs, zoneMinute := some 0 }

def isUniversal (p : Parts) : Bool := p.zoneHour = some 0 && p.zoneMinute = some 0

/-- Year, month and day. Two numbers without a year fall into the year one; years
below one hundred are recent ones, unless the form is that of the standard. -/
def civil? (p : Parts) : Option Date := do
  let numbers := (p.date ++ [1, 1, 1]).take 3
  let (a, b, c) ← match p.date, numbers with
    | _ :: _, [a, b, c] => some (a, b, c)
    | _, _ => none
  let isDay (n : Int) : Bool := 1 ≤ n && n ≤ 31
  let (year, month, day) := match p.month with
    | some m => if isDay a then (b, (m : Int), a) else (a, (m : Int), b)
    | none => if p.ordered || !isDay a then (a, b, c) else (c, a, b)
  let year := if p.ordered then year
    else if 0 ≤ year ∧ year ≤ 49 then year + 2000
    else if 50 ≤ year ∧ year ≤ 99 then year + 1900
    else year
  if 1 ≤ month ∧ month ≤ 12 ∧ isDay day then some ⟨year, month.toNat, day.toNat⟩ else none

def clock? (p : Parts) : Option Int := do
  let (hour, minute, second, ms) ← match (p.time ++ [0, 0, 0, 0]).take 4 with
    | [a, b, c, d] => some (a, b, c, d)
    | _ => none
  let hour ← match p.halfDay with
    | none => some hour
    | some offset => if hour ≤ 12 then some (hour % 12 + offset) else none
  let whole := hour = 24 ∧ minute = 0 ∧ second = 0 ∧ ms = 0
  if (hour < 24 ∧ minute < 60 ∧ second < 60 ∧ ms < 1000) ∨ whole then
    some (hour * msPerHour + minute * msPerMinute + second * msPerSecond + ms)
  else none

/-- How far the clock is ahead of universal time. -/
def offset? (p : Parts) : Option Int :=
  match p.sign with
  | none => some 0
  | some ahead =>
    let seconds := p.zoneHour.getD 0 * 3600 + p.zoneMinute.getD 0 * 60
    if seconds ≤ 2147483647 then
      some (if ahead then seconds * msPerSecond else -(seconds * msPerSecond))
    else none

def instant? (p : Parts) : Option Int := do
  let date ← p.civil?
  let clock ← p.clock?
  let offset ← p.offset?
  let ms := date.toDays * msPerDay + clock - offset
  if isValid ms then some ms else none

end Parts

/-- The digits after a point as milliseconds. -/
def fraction (value length : Nat) : Nat :=
  if length = 1 then value * 100
  else if length = 2 then value * 10
  else value / Nat.pow 10 (min length 9 - 3)

/-- How the standard form ended: to the end of the text, with a mistake after which
no other form is tried, or somewhere where the loose form goes on. -/
inductive Standard where
  | complete (p : Parts)
  | wrong
  | continue (p : Parts) (rest : List Token)

/-- The offset after a time of the standard form, and the end of the text. -/
def standardZone (p : Parts) (toks : List Token) : Standard :=
  let sealed (p : Parts) (rest : List Token) : Standard :=
    if rest.isEmpty then .complete p else .wrong
  match toks with
  | .word (.zone h) 1 :: rest => sealed (p.setZone h) rest
  | .symbol c :: rest =>
    if c = '+' ∨ c = '-' then
      let p := { p with sign := some (decide (c = '+')) }
      match rest with
      | .number n 4 :: rest =>
        if n / 100 < 24 ∧ n % 100 < 60 then
          sealed { p with zoneHour := some (n / 100), zoneMinute := some (n % 100) } rest
        else .wrong
      | .number h 2 :: .symbol ':' :: .number m 2 :: rest =>
        if h < 24 ∧ m < 60 then
          sealed { p with zoneHour := some h, zoneMinute := some m } rest
        else .wrong
      | _ => .wrong
    else .wrong
  | rest => sealed p rest

/-- The time of the standard form; the hour twenty-four only as the end of a day. -/
def standardTime (p : Parts) (toks : List Token) : Standard :=
  match toks with
  | .number hour 2 :: .symbol ':' :: .number minute 2 :: rest =>
    if 24 < hour ∨ 59 < minute ∨ (hour = 24 ∧ 0 < minute) then .wrong
    else match rest with
      | .symbol ':' :: .number second 2 :: rest =>
        if 59 < second ∨ (hour = 24 ∧ 0 < second) then .wrong
        else match rest with
          | .symbol '.' :: .number value length :: rest =>
            if hour = 24 ∧ 0 < value then .wrong
            else standardZone { p with time := [hour, minute, second, fraction value length] } rest
          | .symbol '.' :: _ => .wrong
          | rest => standardZone { p with time := [hour, minute, second] } rest
      | .symbol ':' :: _ => .wrong
      | rest => standardZone { p with time := [hour, minute] } rest
  | _ => .wrong

def standardEnd (p : Parts) (toks : List Token) : Standard :=
  match toks with
  | [] => .complete (p.setZone 0)
  | .word .separator _ :: rest => standardTime p rest
  | rest => .continue p rest

def standardMonth (p : Parts) (toks : List Token) : Standard :=
  match toks with
  | .symbol '-' :: .number month 2 :: rest =>
    if 1 ≤ month ∧ month ≤ 12 then
      let p := { p with date := p.date ++ [(month : Int)] }
      match rest with
      | .symbol '-' :: .number day 2 :: rest =>
        if 1 ≤ day ∧ day ≤ 31 then
          standardEnd { p with date := p.date ++ [(day : Int)] } rest
        else .continue p (.number day 2 :: rest)
      | .symbol '-' :: rest => .continue p rest
      | rest => standardEnd p rest
    else .continue p (.number month 2 :: rest)
  | .symbol '-' :: rest => .continue p rest
  | rest => standardEnd p rest

/-- The standard form: a year of four digits, or of six with a sign. -/
def standard (toks : List Token) : Standard :=
  match toks with
  | .number year 4 :: rest => standardMonth { date := [(year : Int)] } rest
  | .symbol c :: .number year 6 :: rest =>
    if (c = '+' ∨ c = '-') ∧ ¬(c = '-' ∧ year = 0) then
      standardMonth { date := [if c = '-' then -(year : Int) else year] } rest
    else if c = '-' then .continue {} (.symbol c :: rest)
    else .continue {} toks
  | toks => .continue {} toks

/-- Whether a time that just ended may be followed by this. -/
def endsTime : List Token → Bool
  | [] => true
  | t :: _ => t = .blank || t.isZulu || t.isSign

/-- A dash after a part of the date belongs to it. -/
def passDash : List Token → List Token
  | .symbol '-' :: toks => toks
  | toks => toks

/-- A point after a colon or a number belongs to it. -/
def passPoint : List Token → List Token
  | .symbol '.' :: toks => toks
  | toks => toks

theorem passDash_length (toks : List Token) : (passDash toks).length ≤ toks.length := by
  unfold passDash; split <;> simp

theorem passPoint_length (toks : List Token) : (passPoint toks).length ≤ toks.length := by
  unfold passPoint; split <;> simp

def startsWithNumber : List Token → Bool
  | .number _ _ :: _ => true
  | _ => false

def startsWithColon : List Token → Bool
  | .symbol ':' :: _ => true
  | _ => false

/-- The loose form, from some token on; `begun` once a number has been read. -/
def loose (p : Parts) (begun : Bool) (toks : List Token) : Option Parts :=
  match toks with
  | [] => some p
  | .number n _ :: .symbol ':' :: .symbol ':' :: toks =>
    if p.time.isEmpty then loose { p with time := [n, 0] } true toks else none
  | .number n _ :: .symbol ':' :: toks =>
    match p.addTime n with
    | some p => loose p true (passPoint toks)
    | none => none
  | .number n _ :: .symbol '.' :: toks =>
    if p.expectsTime n then
      match p.addTime n, toks with
      | some p, .number value length :: toks =>
        loose (p.closeTime (fraction value length)) true toks
      | _, _ => none
    else if p.expectsZoneMinute n then loose { p with zoneMinute := some n } true toks
    else match p.addDate n with
      | some p => loose p true (passDash toks)
      | none => none
  | .number n _ :: toks =>
    if p.expectsZoneMinute n then loose { p with zoneMinute := some n } true toks
    else if p.expectsTime n then
      if endsTime toks then loose (p.closeTime n) true toks else none
    else match p.addDate n with
      | some p => loose p true (passDash toks)
      | none => none
  | .word (.month m) _ :: toks => loose { p with month := some m } begun (passDash toks)
  | .word w _ :: toks =>
    match w, p.time.isEmpty, begun with
    | .halfDay offset, false, _ => loose { p with halfDay := some offset } begun toks
    | .zone hours, _, true => loose (p.setZone hours) begun toks
    | _, _, _ => if begun || startsWithNumber toks then none else loose p begun toks
  | .symbol c :: toks =>
    if (c = '+' ∨ c = '-') ∧ (p.isUniversal ∨ ¬p.time.isEmpty) then
      let p := { p with sign := some (decide (c = '+')) }
      match toks with
      | .number n length :: toks =>
        if startsWithColon toks then
          loose { p with zoneHour := some n, zoneMinute := none } true toks
        else if length ≤ 2 then loose { p with zoneHour := some n, zoneMinute := some 0 } true toks
        else if length ≤ 4 then
          loose { p with zoneHour := some (n / 100), zoneMinute := some (n % 100) } true toks
        else none
      | toks =>
        if startsWithColon toks then
          loose { p with zoneHour := some 0, zoneMinute := none } true toks
        else none
    else if (c = '+' ∨ c = '-' ∨ c = ')') ∧ begun then none
    else loose p begun toks
  | _ :: toks => loose p begun toks
termination_by toks.length
decreasing_by
  all_goals grind [passDash_length, passPoint_length]

/-- The instant that a text names, in milliseconds since 1970. A text in the form of ISO 8601
means what that standard says, universal time being assumed where no offset is given, and every
month having thirty-one days. Any other text is read loosely: numbers with colons make up the
time, other numbers and the names of months the date, signs and zone names the offset, and words
before the first number are passed over. -/
def read? (text : String) : Option Int :=
  let units := (Text.Units.encode text.toList).takeWhile (· ≠ 0)
  match standard (Token.scan units) with
  | .complete p => { p with ordered := true : Parts }.instant?
  | .wrong => none
  | .continue p rest => (loose p (!p.date.isEmpty) rest).bind Parts.instant?

end Bearer.Time
