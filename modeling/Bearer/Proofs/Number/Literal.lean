import Bearer.Proofs.Number.Whole
import Bearer.Proofs.Text.Blank

namespace Bearer.Double

/-- The digits of a base up to sixteen, the letters among them in either case. -/
def digitSigns (base : Nat) : List Char :=
  "0123456789".toList.take base ++ "abcdef".toList.take (base - 10)
    ++ "ABCDEF".toList.take (base - 10)

/-- The marks behind a zero that tell another base than ten. -/
def marks : List (Char × Nat) := [('x', 16), ('X', 16), ('o', 8), ('O', 8), ('b', 2), ('B', 2)]

def Digits (base : Nat) (ds : List Char) : Prop := ds ≠ [] ∧ ds ⊆ digitSigns base

def IsSign (sign : List Char) : Prop := sign = [] ∨ sign = ['-'] ∨ sign = ['+']

/-- The power of ten at the end of a literal, which may be missing. -/
inductive Exponent : List Char → Prop
  | none : Exponent []
  | power {e : Char} {sign ds : List Char} (he : e = 'e' ∨ e = 'E') (hsign : IsSign sign)
      (hds : Digits 10 ds) : Exponent (e :: (sign ++ ds))

/-- The literals of numbers: decimals with digits before a point, behind it or on both sides, and
whole numbers in another base. Digits are not grouped, no suffix tells a kind of number and an
infinity has no literal, so that the marks of all these are foreign. -/
inductive Literal : List Char → Prop
  | whole {ds es : List Char} (hds : Digits 10 ds) (hes : Exponent es) : Literal (ds ++ es)
  | pointed {ds fs es : List Char} (hds : Digits 10 ds) (hfs : fs ⊆ digitSigns 10)
      (hes : Exponent es) : Literal (ds ++ '.' :: (fs ++ es))
  | fraction {fs es : List Char} (hfs : Digits 10 fs) (hes : Exponent es) :
      Literal ('.' :: (fs ++ es))
  | inBase {mark : Char} {base : Nat} {ds : List Char} (hmark : (mark, base) ∈ marks)
      (hds : Digits base ds) : Literal ('0' :: mark :: ds)

/-- No literal contains this character. -/
def Foreign (c : Char) : Prop := ∀ l, Literal l → c ∉ l

def literalSigns : List Char := "0123456789abcdefABCDEFxXoO.+-".toList

theorem digitSigns_subset {base : Nat} : digitSigns base ⊆ literalSigns := by
  have hdigits : "0123456789".toList ⊆ literalSigns := by decide
  have hlower : "abcdef".toList ⊆ literalSigns := by decide
  have hupper : "ABCDEF".toList ⊆ literalSigns := by decide
  intro c hc
  rw [digitSigns, List.mem_append, List.mem_append] at hc
  rcases hc with (hc | hc) | hc
  · exact hdigits (List.mem_of_mem_take hc)
  · exact hlower (List.mem_of_mem_take hc)
  · exact hupper (List.mem_of_mem_take hc)

theorem IsSign.signs {sign : List Char} (h : IsSign sign) : sign ⊆ literalSigns := by
  rcases h with rfl | rfl | rfl <;> decide

theorem Exponent.signs {es : List Char} (h : Exponent es) : es ⊆ literalSigns := by
  cases h with
  | none => exact List.nil_subset _
  | power he hsign hds =>
    refine List.cons_subset.mpr ⟨?_, List.append_subset.mpr ⟨hsign.signs, ?_⟩⟩
    · rcases he with rfl | rfl <;> decide
    · exact List.Subset.trans hds.2 digitSigns_subset

theorem Literal.signs {l : List Char} (h : Literal l) : l ⊆ literalSigns := by
  have hpoint : '.' ∈ literalSigns := by decide
  have hzero : '0' ∈ literalSigns := by decide
  have hmarks : ∀ m ∈ marks, m.1 ∈ literalSigns := by decide
  have hdigits {base : Nat} {ds : List Char} (hds : ds ⊆ digitSigns base) : ds ⊆ literalSigns :=
    List.Subset.trans hds digitSigns_subset
  cases h with
  | whole hds hes => exact List.append_subset.mpr ⟨hdigits hds.2, hes.signs⟩
  | pointed hds hfs hes =>
    refine List.append_subset.mpr ⟨hdigits hds.2, List.cons_subset.mpr ⟨hpoint, ?_⟩⟩
    exact List.append_subset.mpr ⟨hdigits hfs, hes.signs⟩
  | fraction hfs hes =>
    exact List.cons_subset.mpr ⟨hpoint, List.append_subset.mpr ⟨hdigits hfs.2, hes.signs⟩⟩
  | inBase hmark hds =>
    exact List.cons_subset.mpr ⟨hzero, List.cons_subset.mpr ⟨hmarks _ hmark, hdigits hds.2⟩⟩

/-- A character is foreign to literals exactly if it is none of these signs: each of them occurs
in a decimal with a power of ten, or in a whole number in another base. -/
theorem foreign_iff {c : Char} : Foreign c ↔ c ∉ literalSigns := by
  constructor
  · intro h hc
    have hone : Digits 10 ['1'] := ⟨nofun, by decide⟩
    have hpower {sign : List Char} (hsign : IsSign sign) : Exponent ('e' :: (sign ++ ['1'])) :=
      .power (.inl rfl) hsign hone
    have hplus : Literal (['1'] ++ 'e' :: (['+'] ++ ['1'])) :=
      .whole hone (hpower (.inr (.inr rfl)))
    have hminus : Literal (['1'] ++ '.' :: ([] ++ 'e' :: (['-'] ++ ['1']))) :=
      .pointed hone nofun (hpower (.inr (.inl rfl)))
    have hfilled : ∀ m ∈ marks, digitSigns m.2 ≠ [] := by decide
    have hmarks : ∀ m ∈ marks, Literal ('0' :: m.1 :: digitSigns m.2) :=
      fun m hm => .inBase hm ⟨hfilled m hm, List.Subset.refl _⟩
    have hall : literalSigns ⊆ "1e+1".toList ++ "1.e-1".toList ++
        marks.flatMap fun m => '0' :: m.1 :: digitSigns m.2 := by decide
    have hcovered := hall hc
    rw [List.mem_append, List.mem_append, List.mem_flatMap] at hcovered
    rcases hcovered with (hc | hc) | ⟨m, hm, hc⟩
    · exact h _ hplus hc
    · exact h _ hminus hc
    · exact h _ (hmarks m hm) hc
  · exact fun h l hl hc => h (hl.signs hc)

instance : DecidablePred Foreign := fun _ => decidable_of_iff _ foreign_iff.symm

theorem lt_of_digitInBase? {base : Nat} {c : Char} (h : (digitInBase? base c).isSome = true) :
    c.toNat < 123 := by
  by_contra hlarge
  have hnone : digitInBase? base c = none := by
    have h0 : '0'.toNat = 48 ∧ '9'.toNat = 57 := by decide
    have ha : 'a'.toNat = 97 ∧ 'z'.toNat = 122 := by decide
    have hA : 'A'.toNat = 65 ∧ 'Z'.toNat = 90 := by decide
    unfold digitInBase?
    dsimp only
    rw [if_neg (by omega), if_neg (by omega), if_neg (by omega)]
    rfl
  rw [hnone] at h
  cases h

/-- The digits that are read are those of the grammar. -/
theorem mem_digitSigns {base : Nat} (hbase : base ∈ [16, 10, 8, 2]) {c : Char}
    (h : (digitInBase? base c).isSome = true) : c ∈ digitSigns base := by
  have hall : ∀ b ∈ [16, 10, 8, 2], ∀ n < 123,
      (digitInBase? b (Char.ofNat n)).isSome = true → Char.ofNat n ∈ digitSigns b := by
    decide
  have hbound := lt_of_digitInBase? h
  rw [← Char.ofNat_toNat c] at h ⊢
  exact hall base hbase c.toNat hbound h

theorem digitInBase?_isDigit {c : Char} (h : c.isDigit = true) :
    (digitInBase? 10 c).isSome = true := by
  rw [Char.isDigit, Bool.and_eq_true, decide_eq_true_eq, decide_eq_true_eq] at h
  have hrange : '0'.toNat ≤ c.toNat ∧ c.toNat ≤ '9'.toNat := h
  have hsmall : c.toNat - '0'.toNat < 10 := by
    have h9 : '9'.toNat = '0'.toNat + 9 := by decide
    omega
  unfold digitInBase?
  dsimp only
  rw [if_pos hrange, Option.filter_some, if_pos (decide_eq_true hsmall)]
  rfl

theorem isSome_of_mapM {f : Char → Option Nat} {cs : List Char} {ds : List Nat}
    (h : cs.mapM f = some ds) : ds.length = cs.length ∧ ∀ c ∈ cs, (f c).isSome = true := by
  induction cs generalizing ds with
  | nil =>
    cases h
    exact ⟨rfl, nofun⟩
  | cons c cs ih =>
    rw [List.mapM_cons] at h
    obtain ⟨d, hd, h⟩ := Option.bind_eq_some_iff.mp h
    obtain ⟨ds', hds', h⟩ := Option.bind_eq_some_iff.mp h
    cases h
    obtain ⟨hlength, hall⟩ := ih hds'
    exact ⟨congrArg (· + 1) hlength, List.forall_mem_cons.mpr ⟨by rw [hd]; rfl, hall⟩⟩

theorem readInBase_finite {base : Nat} {cs : List Char} {a : Rat} (hbase : base ∈ [16, 10, 8, 2])
    (h : readInBase base cs = finite a) : Digits base cs := by
  unfold readInBase at h
  split at h
  · cases h
  · cases h
  · next ds hfilled hds =>
    obtain ⟨hlength, hall⟩ := isSome_of_mapM hds
    refine ⟨?_, fun c hc => mem_digitSigns hbase (hall c hc)⟩
    rintro rfl
    exact hfilled (List.length_eq_zero_iff.mp hlength)

theorem takeDigits_eq {cs ds rest : List Char} (h : takeDigits cs = (ds, rest)) :
    cs = ds ++ rest ∧ ds ⊆ digitSigns 10 := by
  rw [takeDigits, List.span_eq_takeWhile_dropWhile] at h
  cases h
  refine ⟨List.takeWhile_append_dropWhile.symm, fun c hc => ?_⟩
  have hdigit : c.isDigit = true := List.all_eq_true.mp List.all_takeWhile c hc
  exact mem_digitSigns (by decide) (digitInBase?_isDigit hdigit)

/-- Whether a minus stands in front, and what is left when the sign is off: so start a numeral and
its exponent alike. -/
def takeSign : List Char → Bool × List Char
  | '-' :: r => (true, r)
  | '+' :: r => (false, r)
  | r => (false, r)

theorem takeSign_eq {cs rest : List Char} {negative : Bool} (h : takeSign cs = (negative, rest)) :
    ∃ sign, IsSign sign ∧ cs = sign ++ rest := by
  unfold takeSign at h
  split at h
  · cases h
    exact ⟨['-'], .inr (.inl rfl), rfl⟩
  · cases h
    exact ⟨['+'], .inr (.inr rfl), rfl⟩
  · cases h
    exact ⟨[], .inl rfl, rfl⟩

theorem readExponent?_whole {cs : List Char} {e : Int} (h : readExponent? cs = some (e, [])) :
    Exponent cs := by
  unfold readExponent? at h
  split at h
  · exact .none
  · next c cs =>
    split at h
    · next hc =>
      split at h
      next negative rest hsign =>
      obtain ⟨sign, hsigned, rfl⟩ := takeSign_eq hsign
      split at h
      · cases h
      · next ds rest' hfilled hdigits =>
        obtain ⟨rfl, hds⟩ := takeDigits_eq hdigits
        cases h
        rw [List.append_nil]
        exact .power hc hsigned ⟨hfilled, hds⟩
    · cases h

/-- What is read as a decimal is a literal behind its sign. -/
theorem readDecimal_finite {cs : List Char} {a : Rat} (h : readDecimal cs = finite a) :
    ∃ sign l, cs = sign ++ l ∧ IsSign sign ∧ Literal l := by
  unfold readDecimal at h
  split at h
  next negative rest hsign =>
  obtain ⟨sign, hsigned, rfl⟩ := takeSign_eq hsign
  refine ⟨sign, rest, rfl, hsigned, ?_⟩
  split at h
  · cases h
  · split at h
    next whole afterWhole hwhole =>
    obtain ⟨rfl, hds⟩ := takeDigits_eq hwhole
    split at h
    next fraction afterFraction hfraction =>
    split at h
    · cases h
    · next hfilled =>
      split at h
      · next exponent hexponent =>
        have hes := readExponent?_whole hexponent
        split at hfraction
        · obtain ⟨rfl, hfs⟩ := takeDigits_eq hfraction
          rcases Decidable.em (whole = []) with rfl | hwhole
          · refine .fraction ⟨?_, hfs⟩ hes
            rintro rfl
            exact hfilled ⟨rfl, rfl⟩
          · exact .pointed ⟨hwhole, hds⟩ hfs hes
        · cases hfraction
          refine .whole ⟨?_, hds⟩ hes
          rintro rfl
          exact hfilled ⟨rfl, rfl⟩
      · cases h

/-- Text that is read as a finite number is blank, or it has a sign, which may be missing, and a
literal between its blanks. -/
theorem ofText_finite {s : String} {a : Rat} (h : ofText s = finite a) :
    (Text.trim s).toList = [] ∨
      ∃ sign l, (Text.trim s).toList = sign ++ l ∧ IsSign sign ∧ Literal l := by
  have hbase {mark : Char} {base : Nat} {cs : List Char} (hmark : (mark, base) ∈ marks)
      (hread : readInBase base cs = finite a) : ∃ sign l, '0' :: mark :: cs = sign ++ l ∧
        IsSign sign ∧ Literal l := by
    have hknown : ∀ m ∈ marks, m.2 ∈ [16, 10, 8, 2] := by decide
    exact ⟨[], _, rfl, .inl rfl, .inBase hmark (readInBase_finite (hknown _ hmark) hread)⟩
  unfold ofText at h
  split at h
  case h_1 hnil => exact .inl hnil
  case h_8 => exact .inr (readDecimal_finite h)
  -- six marks are left, two for each base
  all_goals next hcs => exact .inr (hcs ▸ hbase (by decide) h)

/-- No text with a foreign character between its blanks is a finite number. -/
theorem ofText_foreign {s : String} {c : Char} (hc : c ∈ (Text.trim s).toList)
    (hforeign : Foreign c) (a : Rat) : ofText s ≠ finite a := by
  intro h
  rcases ofText_finite h with hnil | ⟨sign, l, hcs, hsign, hl⟩
  · rw [hnil] at hc
    cases hc
  · rw [hcs, List.mem_append] at hc
    rcases hc with hc | hc
    · exact foreign_iff.mp hforeign (hsign.signs hc)
    · exact hforeign l hl hc

/-- The decimal text of a whole number: its sign, if it is negative, then as many zeros as one
likes, and its digits. -/
def decimalText (n : Int) (lead : Nat) : List Char :=
  (if n < 0 then ['-'] else []) ++ (zeros lead ++ Nat.toDigits 10 n.natAbs)

/-- Without more zeros it is the text that is written of the number. -/
theorem decimalText_zero {n : Int} (hn : n.natAbs < 2 ^ 53) :
    decimalText n 0 = (ofInt n).chars := by
  rw [chars_ofInt hn]
  rfl

theorem ofDecimal_zeros (negative : Bool) (lead : Nat) (ds : List Char) (e : Int) :
    ofDecimal negative (zeros lead ++ ds) e = ofDecimal negative ds e := by
  have hzeros : ∀ c ∈ zeros lead, decide (c = '0') = true :=
    fun c hc => decide_eq_true (List.eq_of_mem_replicate hc)
  simp only [ofDecimal, List.dropWhile_append_of_pos hzeros]

theorem takeSign_digits (negative : Bool) {c : Char} {cs : List Char} (hc : c.isDigit = true) :
    takeSign ((if negative then ['-'] else []) ++ c :: cs) = (negative, c :: cs) := by
  have hother (d : Char) (hd : d.isDigit = false) : c ≠ d := by
    rintro rfl
    rw [hc] at hd
    cases hd
  cases negative with
  | true => rfl
  | false =>
    simp only [Bool.false_eq_true, if_false, List.nil_append]
    unfold takeSign
    split
    · next h => exact absurd (List.cons.inj h).1 (hother '-' rfl)
    · next h => exact absurd (List.cons.inj h).1 (hother '+' rfl)
    · rfl

/-- A sign and digits alone are read as the number that the digits have. -/
theorem readDecimal_digits (negative : Bool) {ds : List Char} (hne : ds ≠ [])
    (hds : ∀ c ∈ ds, c.isDigit = true) :
    readDecimal ((if negative then ['-'] else []) ++ ds) = ofDecimal negative ds 0 := by
  have htake : takeDigits ds = (ds, []) := by
    have hend : Stops [] := nofun
    have hstops := takeDigits_stops hds hend
    rwa [List.append_nil] at hstops
  obtain ⟨c, cs, rfl⟩ := List.exists_cons_of_ne_nil hne
  have hc : c.isDigit = true := hds c List.mem_cons_self
  have hinfinity : c :: cs ≠ "Infinity".toList := by
    intro h
    rw [(List.cons.inj h).1] at hc
    cases hc
  unfold readDecimal
  split
  next signed rest hread =>
  cases hread.symm.trans (takeSign_digits negative hc)
  rw [if_neg hinfinity, htake]
  simp [readExponent?]

/-- A text that is not marked for another base is read as a decimal. -/
theorem ofText_eq_readDecimal {s : String} (hne : (Text.trim s).toList ≠ [])
    (hmark : ∀ m cs, (Text.trim s).toList = '0' :: m :: cs → m.isDigit = true) :
    ofText s = readDecimal (Text.trim s).toList := by
  unfold ofText
  split
  case h_1 hnil => exact absurd hnil hne
  case h_8 => rfl
  all_goals next hcs => cases hmark _ _ hcs

theorem isDigit_of_mem_zeros {lead n : Nat} {c : Char}
    (hc : c ∈ zeros lead ++ Nat.toDigits 10 n) : c.isDigit = true := by
  rcases List.mem_append.mp hc with hc | hc
  · rw [List.eq_of_mem_replicate hc]
    rfl
  · exact Nat.isDigit_of_mem_toDigits (by decide) (by decide) hc

theorem decimalText_ne_nil (n : Int) (lead : Nat) : decimalText n lead ≠ [] :=
  List.append_ne_nil_of_right_ne_nil _
    (List.append_ne_nil_of_right_ne_nil _ Nat.toDigits_ne_nil)

theorem isBlank_decimalText {n : Int} {lead : Nat} :
    ∀ c ∈ decimalText n lead, Text.isBlank c = false := by
  intro c hc
  rw [← Bool.not_eq_true]
  intro hblank
  obtain ⟨hdigit, hmark⟩ := Text.not_value_of_isBlank hblank
  rw [decimalText, List.mem_append] at hc
  rcases hc with hc | hc
  · split at hc
    · rw [List.mem_singleton.mp hc] at hmark
      exact hmark List.mem_cons_self
    · cases hc
  · rw [isDigit_of_mem_zeros hc] at hdigit
    cases hdigit

/-- A zero in front is followed by another digit, if by anything. -/
theorem isDigit_of_decimalText {n : Int} {lead : Nat} {c : Char} {cs : List Char}
    (h : decimalText n lead = '0' :: c :: cs) : c.isDigit = true := by
  rw [decimalText] at h
  split at h
  · exact absurd (List.cons.inj h).1 (by decide)
  · rw [List.nil_append] at h
    exact isDigit_of_mem_zeros (h ▸ List.mem_cons_of_mem _ List.mem_cons_self)

theorem readDecimal_decimalText {n : Int} (hn : n.natAbs < 2 ^ 53) (lead : Nat) :
    readDecimal (decimalText n lead) = ofInt n := by
  have hdigits : zeros lead ++ Nat.toDigits 10 n.natAbs ≠ [] :=
    List.append_ne_nil_of_right_ne_nil _ Nat.toDigits_ne_nil
  have hread (negative : Bool) := readDecimal_digits negative hdigits fun _ => isDigit_of_mem_zeros
  have hvalue (negative : Bool) : ofDecimal negative (zeros lead ++ Nat.toDigits 10 n.natAbs) 0 =
      ofInt (if negative then -n.natAbs else n.natAbs) := by
    rw [ofDecimal_zeros, ofDecimal_toDigits hn]
  rw [decimalText]
  rcases lt_or_ge n 0 with hneg | hpos
  · have habs : -(n.natAbs : Int) = n := by omega
    rw [if_pos hneg]
    exact (hread true).trans ((hvalue true).trans (congrArg ofInt habs))
  · have habs : (n.natAbs : Int) = n := by omega
    rw [if_neg hpos.not_gt]
    exact (hread false).trans ((hvalue false).trans (congrArg ofInt habs))

/-- Whole numbers within reach are read from their decimal text, whatever zeros stand in front of
the digits and whatever blanks around the text. -/
theorem ofText_decimalText {n : Int} (hn : n.natAbs < 2 ^ 53) (lead : Nat)
    {before after : List Char} (hbefore : ∀ c ∈ before, Text.isBlank c = true)
    (hafter : ∀ c ∈ after, Text.isBlank c = true) :
    ofText (String.ofList (before ++ decimalText n lead ++ after)) = ofInt n := by
  have htrim : (Text.trim (String.ofList (before ++ decimalText n lead ++ after))).toList =
      decimalText n lead := by
    rw [Text.trim_around hbefore hafter (decimalText_ne_nil n lead) isBlank_decimalText,
      String.toList_ofList]
  rw [ofText_eq_readDecimal, htrim, readDecimal_decimalText hn]
  · rw [htrim]
    exact decimalText_ne_nil n lead
  · rw [htrim]
    exact fun _ _ => isDigit_of_decimalText

end Bearer.Double
