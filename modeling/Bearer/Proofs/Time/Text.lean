import Mathlib.Algebra.Group.Nat.Defs
import Bearer.Proofs.Time.Calendar
import Bearer.Time.Reader

namespace Bearer

open Text (Units.encode)

namespace Expiry
variable {width n : Nat}

theorem padded_chars (width n : Nat) : (padded width n).toList =
    List.replicate (width - (Nat.toDigits 10 n).length) '0' ++ Nat.toDigits 10 n :=
  String.toList_ofList

theorem isDigit_of_mem_padded {c : Char} (h : c ∈ (padded width n).toList) :
    c.isDigit = true := by
  rw [padded_chars, List.mem_append] at h
  rcases h with h | h
  · rw [List.eq_of_mem_replicate h]
    rfl
  · exact Nat.isDigit_of_mem_toDigits (by decide) (by decide) h

theorem length_padded (hwidth : 0 < width) (hn : n < 10 ^ width) :
    (padded width n).toList.length = width := by
  have hlength : (Nat.toDigits 10 n).length ≤ width :=
    (Nat.length_toDigits_le_iff (by decide) hwidth).mpr hn
  rw [padded_chars, List.length_append, List.length_replicate]
  omega

end Expiry

namespace Time.Token

open Expiry (padded padded_chars isDigit_of_mem_padded length_padded)

/-- A text of seven bits, with no null in it. -/
def IsPlain (s : String) : Prop := ∀ c ∈ s.toList, 0 < c.toNat ∧ c.toNat < 0x80

instance (s : String) : Decidable (IsPlain s) :=
  List.decidableBAll _ s.toList

theorem isPlain_append {s t : String} : IsPlain (s ++ t) ↔ IsPlain s ∧ IsPlain t := by
  simp only [IsPlain, String.toList_append, List.forall_mem_append]

theorem units_plain {s : String} (h : IsPlain s) :
    (Units.encode s.toList).takeWhile (· ≠ 0) = s.toList.map Char.toNat := by
  unfold IsPlain at h
  generalize s.toList = cs at h ⊢
  induction cs with
  | nil => rfl
  | cons c cs ih =>
    obtain ⟨hpos, hlt⟩ := h c List.mem_cons_self
    have hc : Text.Units.ofChar c = [c.toNat] := if_pos (Nat.lt_trans hlt (by decide))
    rw [Units.encode, List.flatMap_cons, hc, List.singleton_append, List.takeWhile_cons,
      if_pos (decide_eq_true (Nat.ne_of_gt hpos)), List.map_cons]
    exact congrArg _ (ih fun d hd => h d (List.mem_cons_of_mem _ hd))

theorem isDigit_toNat (c : Char) : isDigit c.toNat = c.isDigit := by
  rw [isDigit, Char.isDigit]
  rfl

theorem isPlain_padded (width n : Nat) : IsPlain (padded width n) := by
  intro c hc
  have hdigit := isDigit_of_mem_padded hc
  rw [← isDigit_toNat, isDigit, Bool.and_eq_true, decide_eq_true_eq, decide_eq_true_eq] at hdigit
  omega

theorem isPlain_instantText (ms : Int) : IsPlain (Expiry.instantText ms) := by
  have hmarks : IsPlain "-" ∧ IsPlain "T" ∧ IsPlain ":" ∧ IsPlain "." ∧ IsPlain "Z" := by decide
  have hyear (year : Int) : IsPlain (Expiry.yearText year) := by
    unfold Expiry.yearText
    split
    · exact isPlain_padded 4 _
    · split
      · exact isPlain_append.mpr ⟨by decide, isPlain_padded 6 _⟩
      · exact isPlain_append.mpr ⟨by decide, isPlain_padded 6 _⟩
  simp only [Expiry.instantText, isPlain_append, isPlain_padded, hyear, hmarks, and_self]

/-- A run of digits that no digit follows is one number. -/
theorem scan_digits {cs rest : List Char} (hcs : cs ≠ []) (hdigits : ∀ c ∈ cs, c.isDigit = true)
    (hrest : ∀ c ∈ rest.head?, c.isDigit = false) :
    scan ((cs ++ rest).map Char.toNat) =
      .number (numberValue (cs.map Char.toNat)) cs.length :: scan (rest.map Char.toNat) := by
  obtain ⟨c, cs, rfl⟩ := List.exists_cons_of_ne_nil hcs
  have hall : ∀ u ∈ cs.map Char.toNat, isDigit u = true := by
    intro u hu
    obtain ⟨d, hd, rfl⟩ := List.mem_map.mp hu
    rw [isDigit_toNat]
    exact hdigits d (List.mem_cons_of_mem _ hd)
  have hends : (rest.map Char.toNat).takeWhile isDigit = [] ∧
      (rest.map Char.toNat).dropWhile isDigit = rest.map Char.toNat := by
    cases rest with
    | nil => exact ⟨rfl, rfl⟩
    | cons d rest =>
      have hd : isDigit d.toNat = false := by
        rw [isDigit_toNat]
        exact hrest d rfl
      exact ⟨by simp [hd], by simp [hd]⟩
  have hc : isDigit c.toNat = true := by
    rw [isDigit_toNat]
    exact hdigits c List.mem_cons_self
  rw [List.cons_append, List.map_cons, List.map_append, scan, if_pos hc,
    List.takeWhile_append_of_pos hall, List.dropWhile_append_of_pos hall, hends.1, hends.2]
  simp

/-- Zeros in front add nothing to a number, and nine digits are kept as they are. -/
theorem numberValue_short {us : List Nat} (h : us.length ≤ 9) :
    numberValue us = us.foldl (fun n u => n * 10 + (u - 0x30)) 0 := by
  have hkept : (us.dropWhile (· = 0x30)).take 9 = us.dropWhile (· = 0x30) :=
    List.take_of_length_le (Nat.le_trans (List.dropWhile_sublist _).length_le h)
  rw [numberValue, hkept]
  clear h hkept
  induction us with
  | nil => rfl
  | cons u us ih =>
    by_cases hu : u = 0x30
    · simpa [hu] using ih
    · simp [hu]

theorem numberValue_padded {width n : Nat} (hwidth : 0 < width) (hnine : width ≤ 9)
    (hn : n < 10 ^ width) : numberValue ((padded width n).toList.map Char.toNat) = n := by
  have hzeros (k : Nat) :
      (List.replicate k '0').foldl (fun n c => n * 10 + (c.toNat - 0x30)) 0 = 0 := by
    induction k with
    | zero => rfl
    | succ k ih => rw [List.replicate_succ, List.foldl_cons]; exact ih
  rw [numberValue_short (by rw [List.length_map, length_padded hwidth hn]; exact hnine),
    List.foldl_map, padded_chars, List.foldl_append, hzeros]
  have hvalue := Nat.ofDigitChars_toDigits (b := 10) (n := n) (by decide) (by decide)
  rw [Nat.ofDigitChars] at hvalue
  simpa [Nat.mul_comm] using hvalue

/-- A number of a width is read as that number and that width. -/
theorem scan_padded {width n : Nat} (hwidth : 0 < width) (hnine : width ≤ 9)
    (hn : n < 10 ^ width) {rest : List Char} (hrest : ∀ c ∈ rest.head?, c.isDigit = false) :
    scan (((padded width n).toList ++ rest).map Char.toNat) =
      .number n width :: scan (rest.map Char.toNat) := by
  have hne : (padded width n).toList ≠ [] :=
    List.ne_nil_of_length_pos (by rw [length_padded hwidth hn]; exact hwidth)
  rw [scan_digits hne (fun c hc => isDigit_of_mem_padded hc) hrest,
    numberValue_padded hwidth hnine hn, length_padded hwidth hn]

theorem scan_symbol {c : Char} (hc : c ∈ [':', '-', '+', '.', ')']) (rest : List Char) :
    scan ((c :: rest).map Char.toNat) = .symbol c :: scan (rest.map Char.toNat) := by
  have hdigit : isDigit c.toNat = false := by
    simp only [List.mem_cons, List.not_mem_nil, or_false] at hc
    rcases hc with rfl | rfl | rfl | rfl | rfl <;> rfl
  have hsymbol : [':', '-', '+', '.', ')'].any (fun d => d.toNat = c.toNat) = true :=
    List.any_eq_true.mpr ⟨c, hc, by simp⟩
  rw [List.map_cons, scan, if_neg (by simp [hdigit]), if_pos hsymbol, Char.ofNat_toNat]

/-- A letter before a digit or the end is a word of its own. -/
theorem scan_letter {c : Char} (hc : c = 'T' ∨ c = 'Z') {rest : List Char}
    (hrest : ∀ d ∈ rest.head?, d.isDigit = true) :
    scan ((c :: rest).map Char.toNat) =
      .word (classify [c.toNat]) 1 :: scan (rest.map Char.toNat) := by
  have hends : (rest.map Char.toNat).takeWhile isLetter = [] ∧
      (rest.map Char.toNat).dropWhile isLetter = rest.map Char.toNat := by
    cases rest with
    | nil => exact ⟨rfl, rfl⟩
    | cons d rest =>
      have hd : isLetter d.toNat = false := by
        have hdigit := hrest d rfl
        rw [← isDigit_toNat, isDigit, Bool.and_eq_true, decide_eq_true_eq, decide_eq_true_eq]
          at hdigit
        rw [isLetter, decide_eq_false (by omega), Bool.false_and]
      exact ⟨by simp [hd], by simp [hd]⟩
  have hdigit : isDigit c.toNat = false := by rcases hc with rfl | rfl <;> rfl
  have hsymbol : [':', '-', '+', '.', ')'].any (fun d => d.toNat = c.toNat) = false := by
    rcases hc with rfl | rfl <;> rfl
  have hletter : isLetter c.toNat = true := by rcases hc with rfl | rfl <;> rfl
  rw [List.map_cons, scan, if_neg (by simp [hdigit]), if_neg (by simp [hsymbol]), if_pos hletter,
    hends.1, hends.2]
  rfl

theorem head_padded {width n : Nat} (hwidth : 0 < width) (hn : n < 10 ^ width)
    (rest : List Char) : ∀ d ∈ ((padded width n).toList ++ rest).head?, d.isDigit = true := by
  intro d hd
  obtain ⟨c, cs, hcs⟩ := List.exists_cons_of_length_pos
    (show 0 < (padded width n).toList.length by rw [length_padded hwidth hn]; exact hwidth)
  rw [hcs] at hd
  obtain rfl : c = d := Option.some.inj hd
  exact isDigit_of_mem_padded (by rw [hcs]; exact List.mem_cons_self)

end Time.Token

namespace Time

open Token

/-- A year of four digits, or a sign and a year of six. -/
def yearTokens (year : Int) : List Token :=
  if 0 ≤ year ∧ year ≤ 9999 then [.number year.toNat 4]
  else [.symbol (if year < 0 then '-' else '+'), .number year.natAbs 6]

/-- The date and the milliseconds of its day, in universal time. -/
def instantTokens (date : Date) (time : Nat) : List Token :=
  yearTokens date.year ++
    [.symbol '-', .number date.month 2, .symbol '-', .number date.day 2, .word .separator 1,
     .number (time / 3600000) 2, .symbol ':', .number (time / 60000 % 60) 2, .symbol ':',
     .number (time / 1000 % 60) 2, .symbol '.', .number (time % 1000) 3, .word (.zone 0) 1]

theorem scan_yearText {year : Int} (h : year.natAbs < 1000000) {rest : List Char}
    (hrest : ∀ c ∈ rest.head?, c.isDigit = false) :
    scan (((Expiry.yearText year).toList ++ rest).map Char.toNat) =
      yearTokens year ++ scan (rest.map Char.toNat) := by
  unfold Expiry.yearText yearTokens
  split
  · exact scan_padded (by decide) (by decide) (by omega) hrest
  · have hdigits : scan (((Expiry.padded 6 year.natAbs).toList ++ rest).map Char.toNat) =
        .number year.natAbs 6 :: scan (rest.map Char.toNat) :=
      scan_padded (by decide) (by decide) h hrest
    have hminus : "-".toList = ['-'] := rfl
    have hplus : "+".toList = ['+'] := rfl
    rw [String.toList_append, List.append_assoc]
    split
    · rw [hminus, List.singleton_append, scan_symbol (by decide), hdigits]
      rfl
    · rw [hplus, List.singleton_append, scan_symbol (by decide), hdigits]
      rfl

/-- A date and the milliseconds of a day that their text can hold. -/
structure Tellable (date : Date) (time : Nat) : Prop where
  year : date.year.natAbs < 1000000
  month : 1 ≤ date.month ∧ date.month ≤ 12
  day : 1 ≤ date.day ∧ date.day ≤ 31
  time : time < 86400000

theorem scan_instantText {ms : Int}
    (h : Tellable (Date.ofDays (ms / msPerDay)) (ms % msPerDay).toNat) :
    scan ((Expiry.instantText ms).toList.map Char.toNat) =
      instantTokens (Date.ofDays (ms / msPerDay)) (ms % msPerDay).toNat := by
  obtain ⟨hyear, ⟨-, hmonth⟩, ⟨-, hday⟩, htime⟩ := h
  have two {n : Nat} (hn : n < 100) {c : Char} (hc : c.isDigit = false) (rest : List Char) :
      scan (((Expiry.padded 2 n).toList ++ c :: rest).map Char.toNat) =
        .number n 2 :: scan ((c :: rest).map Char.toNat) :=
    scan_padded (by decide) (by decide) hn (by rintro d ⟨⟩; exact hc)
  have hdash : "-".toList = ['-'] := rfl
  have hseparator : "T".toList = ['T'] := rfl
  have hcolon : ":".toList = [':'] := rfl
  have hpoint : ".".toList = ['.'] := rfl
  have hzone : "Z".toList = ['Z'] := rfl
  simp only [Expiry.instantText, String.toList_append, List.append_assoc, hdash, hseparator,
    hcolon, hpoint, hzone, List.cons_append, List.nil_append]
  rw [scan_yearText hyear (by rintro d ⟨⟩; rfl), scan_symbol (by decide),
    two (by omega) rfl, scan_symbol (by decide), two (by omega) rfl,
    scan_letter (.inl rfl) (head_padded (by decide) (by omega) _), two (by omega) rfl,
    scan_symbol (by decide), two (by omega) rfl, scan_symbol (by decide), two (by omega) rfl,
    scan_symbol (by decide), scan_padded (by decide) (by decide) (by omega) (by rintro d ⟨⟩; rfl),
    scan_letter (.inr rfl) (by rintro d ⟨⟩)]
  have hend : scan ([].map Char.toNat) = [] := by rw [List.map_nil, scan]
  rw [hend]
  rfl

/-- What the tokens of an instant say. -/
def tokenParts (date : Date) (time : Nat) : Parts :=
  { date := [date.year, date.month, date.day]
    time := [time / 3600000, time / 60000 % 60, time / 1000 % 60, time % 1000]
    sign := some true
    zoneHour := some 0
    zoneMinute := some 0 }

theorem standard_yearTokens (year : Int) (rest : List Token) :
    standard (yearTokens year ++ rest) = standardMonth { date := [year] } rest := by
  unfold yearTokens
  split
  · have hyear : (year.toNat : Int) = year := by omega
    rw [List.singleton_append, standard, hyear]
  · by_cases hneg : year < 0
    · have hyear : -(year.natAbs : Int) = year := by omega
      have hnonzero : ¬ ('-' = '-' ∧ year.natAbs = 0) := by omega
      rw [if_pos hneg, List.cons_append, List.singleton_append, standard,
        if_pos ⟨.inr rfl, hnonzero⟩, if_pos rfl, hyear]
    · have hyear : (year.natAbs : Int) = year := by omega
      have hsign : ¬ '+' = '-' := by decide
      rw [if_neg hneg, List.cons_append, List.singleton_append, standard,
        if_pos ⟨.inl rfl, fun h => hsign h.1⟩, if_neg hsign, hyear]

theorem standard_instantTokens {date : Date} {time : Nat} (h : Tellable date time) :
    standard (instantTokens date time) = .complete (tokenParts date time) := by
  obtain ⟨-, hmonth, hday, htime⟩ := h
  have hhour : time / 3600000 < 24 := by omega
  have hminute : time / 60000 % 60 < 60 := Nat.mod_lt _ (by decide)
  have hsecond : time / 1000 % 60 < 60 := Nat.mod_lt _ (by decide)
  have hfraction : fraction (time % 1000) 3 = time % 1000 := by
    simp [fraction]
  rw [instantTokens, standard_yearTokens]
  simp only [standardMonth, hmonth, hday, and_self, if_true, standardEnd, standardTime,
    standardZone, hfraction]
  rw [if_neg (by omega), if_neg (by omega), if_neg (by omega)]
  rfl

theorem instant?_tokenParts {date : Date} {time : Nat} (h : Tellable date time)
    (hvalid : isValid (date.toDays * msPerDay + time) = true) :
    { tokenParts date time with ordered := true : Parts }.instant? =
      some (date.toDays * msPerDay + time) := by
  obtain ⟨-, hmonth, hday, htime⟩ := h
  have hcivil : { tokenParts date time with ordered := true : Parts }.civil? = some date := by
    have hdate : 1 ≤ (date.month : Int) ∧ (date.month : Int) ≤ 12 ∧
        1 ≤ (date.day : Int) ∧ (date.day : Int) ≤ 31 := by omega
    simpa [Parts.civil?, tokenParts] using hdate
  have hclock : { tokenParts date time with ordered := true : Parts }.clock? =
      some (time : Int) := by
    have hparts : time / 3600000 < 24 ∧ ((time / 60000 % 60 : Nat) : Int) < 60 ∧
        ((time / 1000 % 60 : Nat) : Int) < 60 ∧ ((time % 1000 : Nat) : Int) < 1000 := by omega
    have hsum : ((time / 3600000 : Nat) : Int) * msPerHour +
        ((time / 60000 % 60 : Nat) : Int) * msPerMinute +
        ((time / 1000 % 60 : Nat) : Int) * msPerSecond + ((time % 1000 : Nat) : Int) = time := by
      unfold msPerHour msPerMinute msPerSecond
      omega
    change (if _ then some _ else none) = _
    rw [if_pos (.inl hparts), hsum]
  have hoffset : { tokenParts date time with ordered := true : Parts }.offset? = some 0 := by
    simp [Parts.offset?, tokenParts]
  rw [Parts.instant?, hcivil, hclock, hoffset]
  change (if _ then some _ else none) = _
  rw [Int.sub_zero, if_pos hvalid]

theorem tellable_of_isValid {ms : Int} (h : isValid ms = true) :
    Tellable (Date.ofDays (ms / msPerDay)) (ms % msPerDay).toNat := by
  have hbounds : -furthest ≤ ms ∧ ms ≤ furthest := by simpa [isValid] using h
  unfold furthest at hbounds
  unfold msPerDay
  have hdays : (ms / 86400000).natAbs ≤ 100000000 := by omega
  obtain ⟨hmonth, hday, hyear⟩ := Date.ofDays_bounds hdays
  exact ⟨hyear, hmonth, hday, by omega⟩

/-- The text of an instant names that instant. -/
theorem read?_instantText {ms : Int} (h : isValid ms = true) :
    read? (Expiry.instantText ms) = some ms := by
  have htellable := tellable_of_isValid h
  have hms : (Date.ofDays (ms / msPerDay)).toDays * msPerDay + (ms % msPerDay).toNat = ms := by
    rw [Date.toDays_ofDays]
    unfold msPerDay
    omega
  have hparts := instant?_tokenParts htellable (by rw [hms]; exact h)
  rw [hms] at hparts
  simp only [read?, units_plain (isPlain_instantText ms), scan_instantText htellable,
    standard_instantTokens htellable]
  exact hparts

end Time
end Bearer
