namespace Bearer.Time

def msPerSecond : Int := 1000
def msPerMinute : Int := 60000
def msPerHour : Int := 3600000
def msPerDay : Int := 86400000

/-- A date of the Gregorian calendar, carried on in both directions. -/
structure Date where
  year : Int
  month : Nat
  day : Nat
deriving DecidableEq

/-- Days from the first of January 1970 to the first of March of a year. -/
def marchDays (year : Int) : Int :=
  365 * year + year / 4 - year / 100 + year / 400 - 719468

/-- Days from the first of March to the start of a month, counted from March. -/
def monthDays (fromMarch : Nat) : Nat := (153 * fromMarch + 2) / 5

/-- Days since the first of January 1970. The day may lie beyond the end of its
month, and then falls into the next one. -/
def Date.toDays (d : Date) : Int :=
  let year := if d.month ≤ 2 then d.year - 1 else d.year
  let fromMarch := (d.month + 9) % 12
  marchDays year + monthDays fromMarch + d.day - 1

/-- The day that lies so many days after the first of January 1970. Four hundred
years repeat after 146097 days; within them years start in March, so that the
leap day comes last. -/
def Date.ofDays (days : Int) : Date :=
  let shifted := days + 719468
  let era := shifted / 146097
  let dayOfEra := (shifted % 146097).toNat
  let yearOfEra := (dayOfEra - dayOfEra / 1460 + dayOfEra / 36524 - dayOfEra / 146096) / 365
  let dayOfYear := dayOfEra - (365 * yearOfEra + yearOfEra / 4 - yearOfEra / 100)
  let fromMarch := (5 * dayOfYear + 2) / 153
  let day := dayOfYear - monthDays fromMarch + 1
  let month := if fromMarch < 10 then fromMarch + 3 else fromMarch - 9
  let year := yearOfEra + era * 400
  ⟨if month ≤ 2 then year + 1 else year, month, day⟩

/-- The furthest instant that can be told, on both sides of 1970. -/
def furthest : Int := 8640000000000000

def isValid (ms : Int) : Bool := -furthest ≤ ms && ms ≤ furthest

end Bearer.Time
