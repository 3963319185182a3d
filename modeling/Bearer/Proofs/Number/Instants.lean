import Bearer.Proofs.Freshness
import Bearer.Proofs.Number.Whole

namespace Bearer

namespace Double

theorem le_roundDiv (n d : Nat) : n / d ≤ roundDiv n d := by
  unfold roundDiv
  dsimp only
  split
  · omega
  · split <;> omega

theorem roundDiv_le (n d : Nat) : roundDiv n d ≤ n / d + 1 := by
  unfold roundDiv
  dsimp only
  split
  · omega
  · split <;> omega

theorem roundDiv_of_dvd {n d : Nat} (h : d ∣ n) (hd : 0 < d) : roundDiv n d = n / d := by
  unfold roundDiv
  simp [Nat.mod_eq_zero_of_dvd h, Nat.ne_of_lt hd]

/-- Beyond `2 ^ 53` the last place that is kept is the fifty-third one. -/
theorem lastPlace_large {n : Nat} (hn : 2 ^ 53 ≤ n) : lastPlace n 1 = (n.log2 - 52 : Nat) := by
  have hpos : n ≠ 0 := by
    rintro rfl
    omega
  have hlog : 53 ≤ n.log2 := (Nat.le_log2 hpos).mpr hn
  have hone : Nat.log2 1 = 0 := by decide
  have hmax : max (-1074) ((n.log2 : Int) - ((0 : Nat) : Int) - 53) = (n.log2 - 53 : Nat) := by
    omega
  have hfull : ¬ n * twoTo (-((n.log2 - 53 : Nat) : Int)) <
      Nat.pow 2 53 * (1 * twoTo (n.log2 - 53 : Nat)) := by
    have hself := Nat.log2_self_le hpos
    have hsplit : (2 : Nat) ^ n.log2 = 2 ^ 53 * 2 ^ (n.log2 - 53) := by
      rw [← Nat.pow_add]
      congr 1
      omega
    have hzero : twoTo (-((n.log2 - 53 : Nat) : Int)) = 1 := by
      simp [twoTo, Int.toNat_of_nonpos]
    have hplace : twoTo (n.log2 - 53 : Nat) = 2 ^ (n.log2 - 53) := by simp [twoTo]
    rw [hzero, hplace, Nat.mul_one, Nat.one_mul, Nat.not_lt]
    exact hsplit ▸ hself
  unfold lastPlace
  simp only [hone, hmax, if_neg hfull]
  omega

/-- What a large whole number is rounded to is whole, at most twice as large, and no smaller
than any power of two that the number reaches; with three binary places to spare it is the
number itself. -/
theorem nearest_large {n : Nat} (hn : 2 ^ 53 ≤ n) :
    ∃ w : Nat, nearest n 1 = w ∧ w ≤ 2 * n ∧ (∀ k, 2 ^ k ≤ n → 2 ^ k ≤ w) ∧
      (8 ∣ n → n < 2 ^ 56 → w = n) := by
  have hpos : n ≠ 0 := by
    rintro rfl
    omega
  obtain ⟨e, he⟩ : ∃ e, e = n.log2 - 52 := ⟨_, rfl⟩
  have hplace : lastPlace n 1 = (e : Int) := by rw [lastPlace_large hn, he]
  have hneg : twoTo (-(e : Int)) = 1 := by simp [twoTo, Int.toNat_of_nonpos]
  have hpow : twoTo (e : Int) = 2 ^ e := by simp [twoTo]
  have hself : 2 ^ e ≤ n :=
    Nat.le_trans (Nat.pow_le_pow_right (by decide) (by omega)) (Nat.log2_self_le hpos)
  refine ⟨roundDiv n (2 ^ e) * 2 ^ e, ?_, ?_, fun k hk => ?_, fun hdvd hlt => ?_⟩
  · simp only [nearest, hplace]
    rw [scale, hneg, hpow, Nat.mul_one, Nat.one_mul]
    simp [Rat.mkRat_eq_div]
  · calc roundDiv n (2 ^ e) * 2 ^ e ≤ (n / 2 ^ e + 1) * 2 ^ e :=
          Nat.mul_le_mul_right _ (roundDiv_le n _)
      _ = n / 2 ^ e * 2 ^ e + 2 ^ e := by rw [Nat.add_mul, Nat.one_mul]
      _ ≤ n + n := Nat.add_le_add (Nat.div_mul_le_self n _) hself
      _ = 2 * n := (Nat.two_mul n).symm
  · rcases Nat.le_total e k with hle | hle
    · have hquot : 2 ^ (k - e) ≤ n / 2 ^ e := by
        rw [Nat.le_div_iff_mul_le (Nat.two_pow_pos e), ← Nat.pow_add, Nat.sub_add_cancel hle]
        exact hk
      calc 2 ^ k = 2 ^ (k - e) * 2 ^ e := by rw [← Nat.pow_add, Nat.sub_add_cancel hle]
        _ ≤ roundDiv n (2 ^ e) * 2 ^ e :=
          Nat.mul_le_mul_right _ (Nat.le_trans hquot (le_roundDiv n _))
    · have hquot : 1 ≤ n / 2 ^ e := Nat.div_pos hself (Nat.two_pow_pos e)
      calc 2 ^ k ≤ 1 * 2 ^ e := by
            rw [Nat.one_mul]
            exact Nat.pow_le_pow_right (by decide) hle
        _ ≤ roundDiv n (2 ^ e) * 2 ^ e :=
          Nat.mul_le_mul_right _ (Nat.le_trans hquot (le_roundDiv n _))
  · have hlog : n.log2 < 56 := (Nat.log2_lt hpos).mpr hlt
    have hdvd' : 2 ^ e ∣ n :=
      Nat.dvd_trans (Nat.pow_dvd_pow 2 (by omega : e ≤ 3)) hdvd
    rw [roundDiv_of_dvd hdvd' (Nat.two_pow_pos e), Nat.div_mul_cancel hdvd']

/-- A whole number is held as an infinity or as a whole number, of the same sign. -/
theorem ofInt_cases (z : Int) :
    (2 ^ 56 ≤ z.natAbs ∧ ofInt z = infinite (decide (z < 0))) ∨
    ∃ y : Int, ofInt z = finite y ∧ (∀ k, 2 ^ k ≤ z.natAbs → 2 ^ k ≤ y.natAbs) ∧
      (y ≤ 0 ∨ 0 ≤ z) ∧ (0 ≤ y ∨ z ≤ 0) ∧
      (z.natAbs < 2 ^ 53 ∨ (8 ∣ z ∧ z.natAbs < 2 ^ 56) → y = z) := by
  rcases Nat.lt_or_ge z.natAbs (2 ^ 53) with hsmall | hlarge
  · exact .inr ⟨z, ofInt_eq hsmall, fun k hk => hk, by omega, by omega, fun _ => rfl⟩
  · obtain ⟨w, hw, htwice, hpow, hexact⟩ := nearest_large hlarge
    have hnonzero : z ≠ 0 := by omega
    rw [ofInt, ofRat, Rat.num_intCast, Rat.den_intCast, hw, if_neg hnonzero]
    dsimp only
    split
    · next hover =>
      refine .inl ⟨?_, rfl⟩
      by_contra hlt
      generalize hk : (1024 : Nat) = k at hover
      have hreach : 2 ^ 57 ≤ w :=
        Nat.le_trans (Nat.pow_le_pow_right (by decide) (by omega)) (Nat.cast_le.mp hover)
      omega
    · split
      · next hneg =>
        refine .inr ⟨-w, by simp, fun k hk => by simpa using hpow k hk, by omega, by omega,
          fun h => ?_⟩
        rcases h with h | ⟨hdvd, hlt⟩
        · omega
        · have := hexact (Int.natCast_dvd_natCast.mp (by simpa using hdvd)) hlt
          omega
      · next hpos =>
        refine .inr ⟨w, by simp, fun k hk => by simpa using hpow k hk, by omega, by omega,
          fun h => ?_⟩
        rcases h with h | ⟨hdvd, hlt⟩
        · omega
        · have := hexact (Int.natCast_dvd_natCast.mp (by simpa using hdvd)) hlt
          omega

/-- Rounding does not take a whole number past a smaller one. -/
theorem ofInt_lt {z : Int} {n : Nat} (hn : n < 2 ^ 53) :
    (ofInt z).lt (ofNat n) = true ↔ z < n := by
  rw [ofNat_eq hn]
  obtain ⟨hfar, hz⟩ | ⟨y, hz, hpow, hneg, hpos, hexact⟩ := ofInt_cases z
  · rw [hz, lt, decide_eq_true_eq]
    omega
  · have hcast : (y : Rat) < (n : Rat) ↔ y < n := by
      rw [← Int.cast_natCast, Int.cast_lt]
    rw [hz, lt, decide_eq_true_eq, hcast]
    rcases Nat.lt_or_ge z.natAbs (2 ^ 53) with hsmall | hlarge
    · rw [hexact (.inl hsmall)]
    · have hreach := hpow 53 hlarge
      omega

end Double

namespace Expiry

theorem ofNumber_finite (y : Int) :
    ofNumber (.finite y) = if Time.isValid y then .at y else .invalid := by
  have hwhole : (Double.finite y).truncate? = some y := by
    rw [Double.truncate?, Rat.num_intCast, Rat.den_intCast, Nat.cast_one, Int.tdiv_one]
  simp only [ofNumber, hwhole]

theorem not_isValid {ms : Int} (h : 2 ^ 53 ≤ ms.natAbs) : Time.isValid ms = false := by
  have hnot : ¬ Time.isValid ms = true := fun hvalid => by
    have := Time.natAbs_of_isValid hvalid
    omega
  simpa using hnot

/-- The instant that a whole number names, however large it is. -/
theorem ofNumber_ofInt (z : Int) :
    ofNumber (Double.ofInt z) = if Time.isValid z then .at z else .invalid := by
  obtain ⟨hfar, hz⟩ | ⟨y, hz, hpow, -, -, hexact⟩ := Double.ofInt_cases z
  · rw [hz, not_isValid (by omega)]
    rfl
  · rcases Nat.lt_or_ge z.natAbs (2 ^ 53) with hsmall | hlarge
    · rw [hz, hexact (.inl hsmall), ofNumber_finite]
    · rw [hz, ofNumber_finite, not_isValid hlarge, not_isValid (hpow 53 hlarge)]
      simp

/-- A life of whole seconds from an instant on ends at the instant that it should, and at
none that can be told if that is out of reach. -/
theorem ofNumber_lasting {t : Int} (ht : Time.isValid t = true) (n : Int) :
    ofNumber (Double.ofInt t + Double.finite n * Double.ofNat 1000) =
      if Time.isValid (t + 1000 * n) then .at (t + 1000 * n) else .invalid := by
  have hstart : Double.ofInt t = .finite t := Double.ofInt_eq (Time.natAbs_of_isValid ht)
  have hlife : Double.finite n * Double.ofNat 1000 = Double.ofInt (1000 * n) := by
    have hcast : (n : Rat) * ((1000 : Nat) : Rat) = ((1000 * n : Int) : Rat) := by
      push_cast
      ring
    rw [Double.ofNat_eq (by decide)]
    exact congrArg Double.ofRat hcast
  have hbounds : -Time.furthest ≤ t ∧ t ≤ Time.furthest := by simpa [Time.isValid] using ht
  have hreach : Time.furthest < 2 ^ 53 := by decide
  rw [hstart, hlife]
  obtain ⟨hfar, hz⟩ | ⟨y, hz, hpow, -, -, hexact⟩ := Double.ofInt_cases (1000 * n)
  · have hout : Time.isValid (t + 1000 * n) = false := not_isValid (by omega)
    have hsum (negative : Bool) :
        Double.finite t + Double.infinite negative = .infinite negative := rfl
    rw [hz, hsum, hout]
    rfl
  · have hsum : Double.finite t + Double.finite y = Double.ofInt (t + y) :=
      congrArg Double.ofRat (Int.cast_add t y).symm
    rw [hz, hsum, ofNumber_ofInt]
    rcases Nat.lt_or_ge (1000 * n).natAbs (2 ^ 56) with hnear | hfar
    · have hdvd : (8 : Int) ∣ 1000 * n := Dvd.dvd.mul_right (by decide) n
      rw [hexact (.inr ⟨hdvd, hnear⟩)]
    · -- Both sums are out of reach.
      have hy := hpow 56 hfar
      have hout : Time.isValid (t + 1000 * n) = false := not_isValid (by omega)
      have hout' : Time.isValid (t + y) = false := not_isValid (by omega)
      rw [hout, hout']
      simp

end Expiry

namespace Token
variable {t : Token} {n : Nat} {a b : Int}

theorem endsWithin_iff {ms : Int} (hends : t.expiry = .at ms) (hms : Time.isValid ms = true)
    (ha : Time.isValid a = true) (hn : n < 2 ^ 53) :
    t.EndsWithin n (Double.ofInt a) ↔ ms - a < n := by
  have hrest : Double.ofInt ms - Double.ofInt a = Double.ofInt (ms - a) := by
    rw [Double.ofInt_eq (Time.natAbs_of_isValid hms), Double.ofInt_eq (Time.natAbs_of_isValid ha)]
    refine congrArg Double.ofRat ?_
    push_cast
    ring
  rw [EndsWithin, hends, ← Double.ofInt_lt hn, ← hrest]
  simp [Expiry.toNumber?]

/-- What is left of a token gets less. -/
theorem EndsWithin.later (h : t.EndsWithin n (Double.ofInt a))
    (hends : ∀ ms, t.expiry = .at ms → Time.isValid ms = true) (hn : n < 2 ^ 53)
    (ha : Time.isValid a = true) (hb : Time.isValid b = true) (hab : a ≤ b) :
    t.EndsWithin n (Double.ofInt b) := by
  cases hexpiry : t.expiry with
  | never =>
    obtain ⟨ends, hnone, -⟩ := h
    rw [hexpiry] at hnone
    cases hnone
  | invalid =>
    obtain ⟨ends, hnan, hless⟩ := h
    rw [hexpiry] at hnan
    cases hnan
    cases hless
  | «at» ms =>
    have hms := hends ms hexpiry
    rw [endsWithin_iff hexpiry hms ha hn] at h
    rw [endsWithin_iff hexpiry hms hb hn]
    omega

theorem lasting_valid {value : String} {now seconds : Double} {ms : Int}
    (h : (lasting value now seconds).expiry = .at ms) : Time.isValid ms = true := by
  rw [lasting] at h
  dsimp only [Expiry.ofNumber] at h
  split at h
  · split at h
    · next hvalid =>
      cases h
      exact hvalid
    · cases h
  · cases h

end Token

end Bearer
