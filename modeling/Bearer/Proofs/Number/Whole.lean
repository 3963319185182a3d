import Mathlib.Algebra.Order.Field.Rat
import Mathlib.Data.Rat.Cast.Order
import Mathlib.Tactic.IntervalCases
import Mathlib.Tactic.Linarith
import Mathlib.Tactic.Positivity
import Mathlib.Tactic.Ring
import Bearer.Time.Expiry

namespace Bearer

namespace Double

theorem pow10_nat (x : Nat) : pow10 (x : Int) = ((10 ^ x : Nat) : Rat) := by
  simp [pow10, Rat.mkRat_eq_div]

theorem scale_of_nonpos (m : Nat) {e : Int} (he : e ≤ 0) :
    scale m e = m / (2 ^ (-e).toNat : Nat) := by
  simp [scale, twoTo, Rat.mkRat_eq_div, Int.toNat_of_nonpos he]

theorem lastPlace_nonpos {n : Nat} (hn : n < 2 ^ 53) : lastPlace n 1 ≤ 0 := by
  have hlog : n.log2 ≤ 52 := by
    rcases Nat.eq_zero_or_pos n with rfl | hpos
    · simp
    · have := (Nat.log2_lt (Nat.ne_of_gt hpos)).mpr hn
      omega
  have hone : Nat.log2 1 = 0 := by decide
  unfold lastPlace
  simp only [hone]
  split <;> omega

theorem nearest_nat {n : Nat} (hn : n < 2 ^ 53) : nearest n 1 = n := by
  have he := lastPlace_nonpos hn
  have hgrid : twoTo (lastPlace n 1) = 1 := by simp [twoTo, Int.toNat_of_nonpos he]
  have hround (m : Nat) : roundDiv m 1 = m := by simp [roundDiv, Nat.mod_one]
  simp only [nearest]
  rw [hgrid, Nat.mul_one, hround, scale_of_nonpos _ he]
  simp [twoTo]

theorem ofInt_eq {n : Int} (hn : n.natAbs < 2 ^ 53) : ofInt n = finite n := by
  have hsmall (k : Nat) (hk : 53 ≤ k) :
      ¬ ((Nat.pow 2 k : Nat) : Rat) ≤ ((n.natAbs : Nat) : Rat) := by
    rw [Nat.cast_le, Nat.not_le]
    exact Nat.lt_of_lt_of_le hn (Nat.pow_le_pow_right (by decide) hk)
  rw [ofInt, ofRat, Rat.num_intCast, Rat.den_intCast, nearest_nat hn,
    if_neg (hsmall 1024 (by decide))]
  split
  · next h => simp [h]
  · split
    · next h =>
      have habs : ((n.natAbs : Nat) : Rat) = -(n : Rat) := by
        rw [← Int.cast_natCast, Int.ofNat_natAbs_of_nonpos (Int.le_of_lt h), Int.cast_neg]
      rw [habs, neg_neg]
    · next h =>
      have habs : ((n.natAbs : Nat) : Rat) = (n : Rat) := by
        rw [← Int.cast_natCast, Int.natAbs_of_nonneg (Int.not_lt.mp h)]
      rw [habs]

theorem ofNat_eq {n : Nat} (hn : n < 2 ^ 53) : ofNat n = finite n := by
  have hof := ofInt_eq (n := (n : Int)) hn
  rwa [Rat.intCast_natCast] at hof

theorem floor_ofNat {n : Nat} (hn : n < 2 ^ 53) : (ofNat n).floor = ofNat n := by
  rw [ofNat_eq hn, floor, Rat.num_natCast, Rat.den_natCast, Nat.cast_one, Int.fdiv_one,
    ofInt_eq (by omega), Rat.intCast_natCast]

theorem Interval.of_has {i : Interval} {q : Rat} (h : i.has q = true) : i.low ≤ q ∧ q ≤ i.high := by
  unfold Interval.has at h
  cases hc : i.closed <;> simp only [hc, Bool.false_eq_true, if_false, if_true, Bool.and_eq_true,
    decide_eq_true_eq] at h
  · exact ⟨h.1.le, h.2.le⟩
  · exact h

theorem Interval.has_of_lt {i : Interval} {q : Rat} (hlow : i.low < q) (hhigh : q < i.high) :
    i.has q = true := by
  unfold Interval.has
  cases i.closed <;> simp [hlow, hhigh, hlow.le, hhigh.le]

/-- What rounds to a whole number lies around it, no further than half of one. -/
theorem interval_around {n : Nat} (hn : n < 2 ^ 53) :
    ((n : Rat) - 1 / 2 ≤ (interval n).low ∧ (interval n).low < n) ∧
      ((n : Rat) < (interval n).high ∧ (interval n).high ≤ n + 1 / 2) := by
  have he := lastPlace_nonpos hn
  have hplace (d : Int) (hd : 1 ≤ d) :
      0 < scale 1 (lastPlace n 1 - d) ∧ scale 1 (lastPlace n 1 - d) ≤ 1 / 2 := by
    rw [scale_of_nonpos 1 (by omega), Nat.cast_one]
    have hexp : 1 ≤ (-(lastPlace n 1 - d)).toNat := by omega
    have hpow : (2 : Rat) ≤ ((2 ^ (-(lastPlace n 1 - d)).toNat : Nat) : Rat) := by
      exact_mod_cast (Nat.pow_le_pow_right (by decide) hexp : 2 ^ 1 ≤ _)
    exact ⟨by positivity, one_div_le_one_div_of_le (by norm_num) hpow⟩
  obtain ⟨hhalf, hhalf'⟩ := hplace 1 (by omega)
  obtain ⟨hquarter, hquarter'⟩ := hplace 2 (by omega)
  have hbelow (p : Prop) [Decidable p] :
      0 < (if p then scale 1 (lastPlace n 1 - 2) else scale 1 (lastPlace n 1 - 1)) ∧
        (if p then scale 1 (lastPlace n 1 - 2) else scale 1 (lastPlace n 1 - 1)) ≤ 1 / 2 := by
    split
    · exact ⟨hquarter, hquarter'⟩
    · exact ⟨hhalf, hhalf'⟩
  simp only [interval, Rat.num_natCast, Rat.den_natCast, Int.natAbs_natCast]
  exact ⟨⟨sub_le_sub_left (hbelow _).2 _, sub_lt_self _ (hbelow _).1⟩,
    lt_add_of_pos_right _ hhalf, (add_le_add_iff_left _).mpr hhalf'⟩

theorem onGrid_has {a : Rat} {i : Interval} {e : Int} {d : Decimal} (h : onGrid a i e = some d) :
    d.exponent = e ∧ i.has d.value = true := by
  unfold onGrid at h
  dsimp only at h
  split at h
  · next hlow =>
    split at h
    · next hup =>
      split at h
      · cases h
        exact ⟨rfl, hlow⟩
      · split at h
        · cases h
          exact ⟨rfl, hup⟩
        · split at h
          · cases h
            exact ⟨rfl, hlow⟩
          · cases h
            exact ⟨rfl, hup⟩
    · cases h
      exact ⟨rfl, hlow⟩
  · split at h
    · next hup =>
      cases h
      exact ⟨rfl, hup⟩
    · cases h

theorem onGrid_zero {n : Nat} (hn : n < 2 ^ 53) : ∃ d, onGrid n (interval n) 0 = some d := by
  obtain ⟨⟨-, hlow⟩, hhigh, -⟩ := interval_around hn
  have hself : (interval n).has (n : Rat) = true := Interval.has_of_lt hlow hhigh
  have hfloor : ((n : Rat) / pow10 0).floor.toNat = n := by
    have hone : pow10 0 = 1 := by decide
    rw [hone, div_one, Rat.floor_def, Rat.num_natCast, Rat.den_natCast, Nat.cast_one, Int.ediv_one,
      Int.toNat_natCast]
  have hvalue : (⟨n, 0⟩ : Decimal).value = (n : Rat) := by
    have hone : pow10 0 = 1 := by decide
    rw [Decimal.value, hone, mul_one]
  unfold onGrid
  simp only [hfloor, hvalue, hself, if_true]
  split
  · split
    · exact ⟨_, rfl⟩
    · split
      · exact ⟨_, rfl⟩
      · split <;> exact ⟨_, rfl⟩
  · exact ⟨_, rfl⟩

/-- What is found among the multiples of a power of ten is the number itself: nothing
else that rounds to a whole number is whole. -/
theorem onGrid_whole {n e : Nat} {d : Decimal} (hn : n < 2 ^ 53)
    (h : onGrid n (interval n) e = some d) : d.exponent = e ∧ d.coefficient * 10 ^ e = n := by
  obtain ⟨hexp, hhas⟩ := onGrid_has h
  refine ⟨hexp, ?_⟩
  obtain ⟨⟨hlow, -⟩, -, hhigh⟩ := interval_around hn
  obtain ⟨hle, hge⟩ := Interval.of_has hhas
  rw [Decimal.value, hexp, pow10_nat, ← Nat.cast_mul] at hle hge
  generalize d.coefficient * 10 ^ e = m at hle hge
  have hup : (m : Rat) < (n + 1 : Nat) := by push_cast; linarith
  have hdown : (n : Rat) < (m + 1 : Nat) := by push_cast; linarith
  have hup' := Nat.cast_lt.mp hup
  have hdown' := Nat.cast_lt.mp hdown
  omega

/-- The grids that are tried go down to the whole numbers. -/
theorem leadingExponent_range {n : Nat} (hpos : 0 < n) (hn : n < 2 ^ 53) :
    0 ≤ leadingExponent n ∧ leadingExponent n ≤ 16 := by
  have hlog : n.log2 ≤ 52 := by
    have := (Nat.log2_lt (Nat.ne_of_gt hpos)).mpr hn
    omega
  have hone : Nat.log2 1 = 0 := by decide
  have hleast : pow10 0 ≤ (n : Rat) := by
    have : pow10 0 = 1 := by decide
    rw [this]
    exact_mod_cast hpos
  simp only [leadingExponent, Rat.num_natCast, Rat.den_natCast, Int.natAbs_natCast, hone]
  generalize hg : ((n.log2 : Int) - ((0 : Nat) : Int)) * 30103 / 100000 = guess
  have hguess : 0 ≤ guess ∧ guess ≤ 15 := by omega
  rcases hfound : [guess + 1, guess, guess - 1].find? (fun e => pow10 e ≤ n) with - | e
  · have hnone := List.find?_eq_none.mp hfound
    have hother (e : Int) (he : e ∈ [guess + 1, guess, guess - 1]) : e ≠ 0 := by
      rintro rfl
      exact hnone 0 he (by simpa using hleast)
    have h0 := hother guess (by simp)
    have h1 := hother (guess - 1) (by simp)
    simp only [Option.getD_none]
    omega
  · have hmem := List.mem_of_find?_eq_some hfound
    simp only [List.mem_cons, List.not_mem_nil, or_false] at hmem
    simp only [Option.getD_some]
    rcases hmem with rfl | rfl | rfl
    · omega
    · omega
    · -- the lowest of the three is tried only when the middle one is above the number
      refine ⟨?_, by omega⟩
      by_contra hneg
      have hzero : guess = 0 := by omega
      subst hzero
      simp [hleast] at hfound

theorem Decimal.strip_spec (d : Decimal) (fuel : Nat) :
    ∃ x : Nat, (d.strip fuel).exponent = d.exponent + x ∧
      (d.strip fuel).coefficient * 10 ^ x = d.coefficient := by
  induction fuel generalizing d with
  | zero => exact ⟨0, by simp [strip]⟩
  | succ fuel ih =>
    unfold strip
    split
    · next h =>
      obtain ⟨x, hx, hc⟩ := ih ⟨d.coefficient / 10, d.exponent + 1⟩
      refine ⟨x + 1, by rw [hx]; push_cast; ring, ?_⟩
      rw [Nat.pow_succ, ← Nat.mul_assoc, hc]
      exact Nat.div_mul_cancel (Nat.dvd_of_mod_eq_zero h.2)
    · exact ⟨0, by simp⟩

/-- The shortest decimal of a whole number is the number. -/
theorem shortest_nat {n : Nat} (hpos : 0 < n) (hn : n < 2 ^ 53) :
    ∃ c x : Nat, shortest n = ⟨c, x⟩ ∧ c * 10 ^ x = n := by
  obtain ⟨hfirst, hlast⟩ := leadingExponent_range hpos hn
  obtain ⟨lead, hlead⟩ := Int.eq_ofNat_of_zero_le hfirst
  obtain ⟨d₀, hd₀⟩ := onGrid_zero hn
  -- the whole numbers are among the grids, so the search stops there at the latest
  have hsplit : List.range 17 =
      List.range (lead + 1) ++ (List.range (16 - lead)).map (lead + 1 + ·) := by
    rw [← List.range_add]
    congr 1
    omega
  obtain ⟨d, hfound⟩ : ∃ d, (List.range (lead + 1)).findSome?
      (fun (k : Nat) => onGrid n (interval n) (leadingExponent n - k)) = some d := by
    apply Option.isSome_iff_exists.mp
    rw [List.findSome?_isSome_iff]
    refine ⟨lead, List.self_mem_range_succ, ?_⟩
    rw [hlead, Int.sub_self, hd₀]
    rfl
  obtain ⟨k, hk, hgrid⟩ := List.exists_of_findSome?_eq_some hfound
  obtain ⟨e, he⟩ : ∃ e : Nat, leadingExponent n - k = e := by
    apply Int.eq_ofNat_of_zero_le
    have := List.mem_range.mp hk
    omega
  obtain ⟨hexp, hd⟩ := onGrid_whole hn (he ▸ hgrid)
  obtain ⟨x, hx, hc⟩ := d.strip_spec 20
  refine ⟨(d.strip 20).coefficient, e + x, ?_, ?_⟩
  · simp only [shortest, hsplit, List.findSome?_append, hfound, Option.some_or, Option.getD_some]
    rw [Nat.cast_add, ← hexp, ← hx]
  · rw [Nat.pow_add, Nat.mul_comm (10 ^ e), ← Nat.mul_assoc, hc, hd]

theorem toDigits_mul_pow {c : Nat} (hc : 0 < c) (x : Nat) :
    Nat.toDigits 10 (c * 10 ^ x) = Nat.toDigits 10 c ++ zeros x := by
  induction x with
  | zero => simp [zeros]
  | succ x ih =>
    have hpos : 0 < c * 10 ^ x := Nat.mul_pos hc (Nat.pow_pos (by decide))
    have hshift : c * 10 ^ (x + 1) = 10 * (c * 10 ^ x) + 0 := by rw [Nat.pow_succ]; ring
    rw [hshift, ← Nat.toDigits_append_toDigits (by decide) hpos (by decide), ih, List.append_assoc,
      zeros, zeros, List.replicate_succ']
    rfl

theorem toDigits_head {m : Nat} (hm : 0 < m) :
    ∃ c cs, Nat.toDigits 10 m = c :: cs ∧ c ≠ '0' := by
  induction m using Nat.strongRecOn with
  | _ m ih =>
    rcases Nat.lt_or_ge m 10 with hsmall | hlarge
    · refine ⟨m.digitChar, [], Nat.toDigits_of_lt_base hsmall, ?_⟩
      interval_cases m <;> decide
    · have hpos : 0 < m / 10 := Nat.div_pos hlarge (by decide)
      obtain ⟨c, cs, hdigits, hc⟩ := ih (m / 10) (Nat.div_lt_self hm (by decide)) hpos
      refine ⟨c, cs ++ Nat.toDigits 10 (m % 10), ?_, hc⟩
      rw [← List.cons_append, ← hdigits,
        Nat.toDigits_append_toDigits (by decide) hpos (Nat.mod_lt m (by decide)), Nat.div_add_mod]

/-- A whole number within reach is written with its decimal digits. -/
theorem layout_shortest {n : Nat} (hpos : 0 < n) (hn : n < 2 ^ 53) :
    layout (shortest n) = Nat.toDigits 10 n := by
  obtain ⟨c, x, hshortest, hvalue⟩ := shortest_nat hpos hn
  have hc : 0 < c := Nat.pos_of_mul_pos_right (hvalue ▸ hpos)
  have hdigits : Nat.toDigits 10 n = Nat.toDigits 10 c ++ zeros x := by
    rw [← hvalue, toDigits_mul_pow hc]
  have hlength : (Nat.toDigits 10 c).length + x ≤ 16 := by
    have := (Nat.length_toDigits_le_iff (b := 10) (k := 16) (by decide) (by decide)).mpr
      (Nat.lt_trans hn (by decide))
    rwa [hdigits, List.length_append, zeros, List.length_replicate] at this
  have hpoint : ((Nat.toDigits 10 c).length : Int) ≤ (Nat.toDigits 10 c).length + (x : Int) ∧
      (Nat.toDigits 10 c).length + (x : Int) ≤ 21 := by omega
  have htail : ((Nat.toDigits 10 c).length + (x : Int)).toNat - (Nat.toDigits 10 c).length = x := by
    omega
  simp only [hshortest, layout, if_pos hpoint, htail, hdigits]

/-- The text of a whole number: its sign and its decimal digits. -/
theorem chars_ofInt {n : Int} (hn : n.natAbs < 2 ^ 53) :
    (ofInt n).chars = (if n < 0 then ['-'] else []) ++ Nat.toDigits 10 n.natAbs := by
  rw [ofInt_eq hn, chars]
  rcases Int.lt_trichotomy n 0 with hneg | rfl | hpos
  · have hcast : (n : Rat) < 0 := by exact_mod_cast hneg
    have habs : -(n : Rat) = (n.natAbs : Nat) := by
      rw [← Int.cast_natCast, Int.ofNat_natAbs_of_nonpos hneg.le, Int.cast_neg]
    rw [if_neg hcast.ne, if_pos hcast, if_pos hneg, habs, layout_shortest (by omega) hn]
    rfl
  · rfl
  · have hcast : (0 : Rat) < n := by exact_mod_cast hpos
    have habs : (n : Rat) = (n.natAbs : Nat) := by
      rw [← Int.cast_natCast, Int.natAbs_of_nonneg hpos.le]
    rw [if_neg hcast.ne', if_neg hcast.not_gt, if_neg (by omega), habs,
      layout_shortest (by omega) hn]
    rfl

theorem chars_ofInt_head {n : Int} (hn : n.natAbs < 2 ^ 53) :
    ∃ c cs, (ofInt n).chars = c :: cs ∧ (c = '-' ∨ c.isDigit = true) := by
  rw [chars_ofInt hn]
  split
  · exact ⟨'-', Nat.toDigits 10 n.natAbs, rfl, .inl rfl⟩
  · have hne : Nat.toDigits 10 n.natAbs ≠ [] := Nat.toDigits_ne_nil
    obtain ⟨c, cs, hdigits⟩ := List.exists_cons_of_ne_nil hne
    have hmem : c ∈ Nat.toDigits 10 n.natAbs := by
      rw [hdigits]
      exact List.mem_cons_self
    exact ⟨c, cs, hdigits, .inr (Nat.isDigit_of_mem_toDigits (by decide) (by decide) hmem)⟩

/-- No numeral goes on with these characters. -/
def Stops (cs : List Char) : Prop :=
  ∀ c ∈ cs.head?, c.isDigit = false ∧ c ≠ '.' ∧ c ≠ 'e' ∧ c ≠ 'E'

theorem takeDigits_stops {ds rest : List Char} (hds : ∀ c ∈ ds, c.isDigit = true)
    (hrest : Stops rest) : takeDigits (ds ++ rest) = (ds, rest) := by
  have hnone : rest.takeWhile Char.isDigit = [] ∧ rest.dropWhile Char.isDigit = rest := by
    cases rest with
    | nil => exact ⟨rfl, rfl⟩
    | cons c cs =>
      have hc : c.isDigit = false := (hrest c rfl).1
      exact ⟨by simp [hc], by simp [hc]⟩
  rw [takeDigits, List.span_eq_takeWhile_dropWhile, List.takeWhile_append_of_pos hds,
    List.dropWhile_append_of_pos hds, hnone.1, hnone.2, List.append_nil]

theorem readExponent?_stops {rest : List Char} (hrest : Stops rest) :
    readExponent? rest = some (0, rest) := by
  cases rest with
  | nil => rfl
  | cons c cs =>
    obtain ⟨-, -, he, hE⟩ := hrest c rfl
    simp only [readExponent?, if_neg (not_or.mpr ⟨he, hE⟩)]

theorem ofDigits_toDigits (m : Nat) : ofDigits (Nat.toDigits 10 m) = m := by
  have hfold : ofDigits (Nat.toDigits 10 m) = Nat.ofDigitChars 10 (Nat.toDigits 10 m) 0 := by
    simp only [ofDigits, Nat.ofDigitChars, digitValue, Nat.mul_comm]
  rw [hfold, Nat.ofDigitChars_toDigits (by decide) (by decide)]

theorem ofDecimal_toDigits {m : Nat} (hm : m < 2 ^ 53) (negative : Bool) :
    ofDecimal negative (Nat.toDigits 10 m) 0 = ofInt (if negative then -m else m) := by
  rcases Nat.eq_zero_or_pos m with rfl | hpos
  · cases negative <;> decide
  · obtain ⟨c, cs, hdigits, hc⟩ := toDigits_head hpos
    have hsignificant : (Nat.toDigits 10 m).dropWhile (· = '0') = Nat.toDigits 10 m := by
      rw [hdigits]
      simp [hc]
    have hlength : (Nat.toDigits 10 m).length ≤ 16 :=
      (Nat.length_toDigits_le_iff (by decide) (by decide)).mpr (Nat.lt_trans hm (by decide))
    have hempty : (Nat.toDigits 10 m).isEmpty = false := by rw [hdigits]; rfl
    have hone : pow10 0 = 1 := by decide
    simp only [ofDecimal, hsignificant, hempty, ofDigits_toDigits, hone, mul_one]
    rw [if_neg (by simp only [Bool.false_eq_true, false_or]; omega), if_neg (by omega), ofInt]
    cases negative <;> simp

/-- Once the sign is off, the digits of a whole number are taken as a whole. -/
theorem read?_digits (negative : Bool) {m : Nat} (hm : m < 2 ^ 53) {rest : List Char}
    (hrest : Stops rest) :
    read? ((if negative then ['-'] else []) ++ Nat.toDigits 10 m ++ rest)
      = some (ofInt (if negative then -m else m), rest) := by
  have hdigit (c : Char) (hc : c ∈ Nat.toDigits 10 m) : c.isDigit = true :=
    Nat.isDigit_of_mem_toDigits (by decide) (by decide) hc
  have htake := takeDigits_stops hdigit hrest
  have hexponent := readExponent?_stops hrest
  have hvalue := ofDecimal_toDigits hm negative
  have hpoint (r : List Char) : rest ≠ '.' :: r := by
    rintro rfl
    exact (hrest '.' rfl).2.1 rfl
  rcases Nat.eq_zero_or_pos m with rfl | hpos
  · rw [Nat.toDigits_zero] at hvalue
    cases negative <;> simpa [read?, hexponent] using hvalue
  · obtain ⟨c, cs, hdigits, hc⟩ := toDigits_head hpos
    have hsign : c ≠ '-' := by
      rintro rfl
      exact absurd (hdigit '-' (by rw [hdigits]; exact List.mem_cons_self)) (by decide)
    rw [hdigits] at htake hvalue ⊢
    rw [List.cons_append] at htake
    cases negative <;> simpa [read?, hexponent, htake, hc, hsign] using hvalue

theorem read?_ofInt {n : Int} (hn : n.natAbs < 2 ^ 53) {rest : List Char} (hrest : Stops rest) :
    read? ((ofInt n).chars ++ rest) = some (ofInt n, rest) := by
  rw [chars_ofInt hn]
  rcases lt_or_ge n 0 with hneg | hpos
  · rw [if_pos hneg]
    have habs : -(n.natAbs : Int) = n := by omega
    have hread := read?_digits true hn hrest
    rwa [if_pos rfl, if_pos rfl, habs] at hread
  · rw [if_neg hpos.not_gt]
    have habs : (n.natAbs : Int) = n := by omega
    have hread := read?_digits false hn hrest
    rwa [if_neg Bool.false_ne_true, if_neg Bool.false_ne_true, habs] at hread

end Double

/-- Every instant of the calendar is within reach. -/
theorem Time.natAbs_of_isValid {ms : Int} (hms : Time.isValid ms = true) : ms.natAbs < 2 ^ 53 := by
  have hbounds : -Time.furthest ≤ ms ∧ ms ≤ Time.furthest := by
    simpa [Time.isValid] using hms
  have hreach : Time.furthest < 2 ^ 53 := by decide
  omega

/-- An instant of the calendar comes back from the number that it was written as. -/
theorem Expiry.ofNumber_instant {ms : Int} (hms : Time.isValid ms = true) :
    Expiry.ofNumber (Double.ofInt ms) = .at ms := by
  have hwhole : (Double.ofInt ms).truncate? = some ms := by
    rw [Double.ofInt_eq (Time.natAbs_of_isValid hms), Double.truncate?, Rat.num_intCast,
      Rat.den_intCast, Nat.cast_one, Int.tdiv_one]
  simp only [ofNumber, hwhole, hms, if_true]

end Bearer
