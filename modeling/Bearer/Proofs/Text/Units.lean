import Bearer.Text.Units

namespace Bearer.Text

namespace Units

theorem isHigh_iff (n : Nat) : isHigh n = true ↔ 0xD800 ≤ n ∧ n < 0xDC00 := by
  simp only [isHigh, Bool.and_eq_true, decide_eq_true_eq]

theorem isLow_iff (n : Nat) : isLow n = true ↔ 0xDC00 ≤ n ∧ n < 0xE000 := by
  simp only [isLow, Bool.and_eq_true, decide_eq_true_eq]

theorem decode_ofChar (c : Char) (us : List Unit16) : decode (ofChar c ++ us) = c :: decode us := by
  have hvalid : c.toNat < 0xD800 ∨ 0xDFFF < c.toNat ∧ c.toNat < 0x110000 := c.valid
  by_cases hplane : c.toNat < 0x10000
  · -- one unit, and no half of a pair
    have hhigh : ¬ isHigh c.toNat = true := by
      rw [isHigh_iff]
      omega
    have hlow : ¬ isLow c.toNat = true := by
      rw [isLow_iff]
      omega
    have hunit : ofChar c ++ us = c.toNat :: us := by simp only [ofChar, if_pos hplane]; rfl
    rw [hunit, decode.eq_def]
    simp only [if_neg hhigh, if_neg hlow, Char.ofNat_toNat]
  · -- a pair, which joins again
    generalize hn : c.toNat - 0x10000 = n
    have hhigh : isHigh (0xD800 + n / 0x400) = true := by
      rw [isHigh_iff]
      omega
    have hlow : isLow (0xDC00 + n % 0x400) = true := by
      rw [isLow_iff]
      omega
    have hjoin : 0x10000 + (0xD800 + n / 0x400 - 0xD800) * 0x400 + (0xDC00 + n % 0x400 - 0xDC00)
        = c.toNat := by
      omega
    have hunits : ofChar c ++ us = (0xD800 + n / 0x400) :: (0xDC00 + n % 0x400) :: us := by
      simp only [ofChar, if_neg hplane, hn]
      rfl
    rw [hunits, decode.eq_def]
    simp only [if_pos hhigh, if_pos hlow, hjoin, Char.ofNat_toNat]

@[simp] theorem decode_encode (cs : List Char) : decode (encode cs) = cs := by
  induction cs with
  | nil => rfl
  | cons c cs ih =>
    rw [encode, List.flatMap_cons, decode_ofChar]
    exact congrArg (c :: ·) ih

theorem encode_cons (c : Char) (cs : List Char) : encode (c :: cs) = ofChar c ++ encode cs :=
  List.flatMap_cons ..

theorem ofChar_lt {c : Char} {u : Nat} (h : u ∈ ofChar c) : u < 0x10000 := by
  have hvalid : c.toNat < 0xD800 ∨ 0xDFFF < c.toNat ∧ c.toNat < 0x110000 := c.valid
  unfold ofChar at h
  split at h
  · next hplane =>
    rw [List.mem_singleton] at h
    omega
  · simp only [List.mem_cons, List.not_mem_nil, or_false] at h
    omega

theorem toNat_ofNat {n : Nat} (h : n.isValidChar) : (Char.ofNat n).toNat = n := by
  rw [Char.ofNat, dif_pos h]
  rfl

/-- The unit at this place is half of a pair, and the other half is not beside it. -/
def IsLone (us : List Unit16) (i : Nat) : Prop :=
  (us[i]?.any isHigh = true ∧ us[i + 1]?.any isLow = false) ∨
    (us[i]?.any isLow = true ∧ ¬ (0 < i ∧ us[i - 1]?.any isHigh = true))

instance (us : List Unit16) (i : Nat) : Decidable (IsLone us i) :=
  inferInstanceAs (Decidable (_ ∨ _))

section
variable {u v : Nat} {us : List Unit16}

theorem isLow_of_isHigh (h : isHigh u = true) : isLow u = false := by
  rw [isHigh_iff] at h
  rw [← Bool.not_eq_true, isLow_iff]
  omega

/-- A unit before a text matters to nothing in it but the other half of its pair. -/
theorem isLone_succ (h : isHigh u = true → us.head?.any isLow = false) (i : Nat) :
    IsLone (u :: us) (i + 1) ↔ IsLone us i := by
  unfold IsLone
  cases i with
  | succ i => simp
  | zero =>
    cases us with
    | nil => simp
    | cons v us =>
      cases hu : isHigh u with
      | false => simp [hu]
      | true =>
        have hv : isLow v = false := h hu
        simp [hu, hv]

theorem decode_pair (hhigh : isHigh u = true) (hlow : isLow v = true) : decode (u :: v :: us) =
    Char.ofNat (0x10000 + (u - 0xD800) * 0x400 + (v - 0xDC00)) :: decode us := by
  rw [decode.eq_def]
  simp only [if_pos hhigh, if_pos hlow]

theorem decode_high (hhigh : isHigh u = true) (halone : us.head?.any isLow = false) :
    decode (u :: us) = replacement :: decode us := by
  rw [decode.eq_def]
  cases us with
  | nil => simp only [if_pos hhigh, decode]
  | cons v us =>
    have hv : ¬ isLow v = true := by simpa using halone
    simp only [if_pos hhigh, if_neg hv]

theorem decode_low (hhigh : ¬ isHigh u = true) (hlow : isLow u = true) :
    decode (u :: us) = replacement :: decode us := by
  rw [decode.eq_def]
  simp only [if_neg hhigh, if_pos hlow]

theorem decode_plain (hhigh : ¬ isHigh u = true) (hlow : ¬ isLow u = true) :
    decode (u :: us) = Char.ofNat u :: decode us := by
  rw [decode.eq_def]
  simp only [if_neg hhigh, if_neg hlow]

theorem ofChar_plain (hu : u < 0x10000) (hhigh : ¬ isHigh u = true) (hlow : ¬ isLow u = true) :
    ofChar (Char.ofNat u) = [u] := by
  rw [isHigh_iff] at hhigh
  rw [isLow_iff] at hlow
  have hvalid : u.isValidChar := by
    unfold Nat.isValidChar
    omega
  rw [ofChar, toNat_ofNat hvalid, if_pos hu]

theorem ofChar_pair (hhigh : isHigh u = true) (hlow : isLow v = true) :
    ofChar (Char.ofNat (0x10000 + (u - 0xD800) * 0x400 + (v - 0xDC00))) = [u, v] := by
  rw [isHigh_iff] at hhigh
  rw [isLow_iff] at hlow
  have hvalid : (0x10000 + (u - 0xD800) * 0x400 + (v - 0xDC00)).isValidChar := by
    unfold Nat.isValidChar
    omega
  rw [ofChar, toNat_ofNat hvalid, if_neg (by omega)]
  simp only [List.cons.injEq, and_true]
  constructor <;> show (_ : Nat) = _ <;> omega

end

/-- Once the units are joined and taken apart again, the replacement is where halves were alone. -/
def Settles (us : List Unit16) : Prop :=
  ∀ i, (encode (decode us))[i]? = us[i]?.map fun u => if IsLone us i then 0xFFFD else u

theorem Settles.cons {u : Unit16} {us : List Unit16} {c : Char} (h : Settles us)
    (hdecode : decode (u :: us) = c :: decode us)
    (hunit : ofChar c = [if IsLone (u :: us) 0 then 0xFFFD else u])
    (halone : isHigh u = true → us.head?.any isLow = false) : Settles (u :: us) := by
  intro i
  rw [hdecode, encode_cons, hunit]
  cases i with
  | zero => rfl
  | succ i =>
    simp only [isLone_succ halone]
    exact h i

theorem Settles.pair {u v : Unit16} {us : List Unit16} (h : Settles us) (hhigh : isHigh u = true)
    (hlow : isLow v = true) : Settles (u :: v :: us) := by
  have hv : isHigh v = false := by
    cases hv : isHigh v with
    | false => rfl
    | true => cases (isLow_of_isHigh hv).symm.trans hlow
  intro i
  rw [decode_pair hhigh hlow, encode_cons, ofChar_pair hhigh hlow]
  match i with
  | 0 => simp [IsLone, hhigh, hlow, isLow_of_isHigh hhigh]
  | 1 => simp [IsLone, hhigh, hlow, hv]
  | i + 2 =>
    have hfar : IsLone (u :: v :: us) (i + 2) ↔ IsLone (v :: us) (i + 1) := by simp [IsLone]
    simp only [hfar, isLone_succ fun h => Bool.noConfusion (hv.symm.trans h)]
    exact h i

/-- Joining units to characters replaces the halves that are left alone, and nothing else. -/
theorem settles {us : List Unit16} (hus : ∀ u ∈ us, u < 0x10000) : Settles us := by
  have hmark : ofChar replacement = [0xFFFD] := by decide
  induction us using decode.induct with
  | case1 => exact fun _ => rfl
  | case2 u hhigh v vs hlow ih =>
    obtain ⟨-, hvs⟩ := List.forall_mem_cons.mp hus
    exact (ih (List.forall_mem_cons.mp hvs).2).pair hhigh hlow
  | case3 u hhigh v vs hlow ih =>
    have hv : isLow v = false := by simpa using hlow
    refine (ih (List.forall_mem_cons.mp hus).2).cons (decode_high hhigh hv) ?_ fun _ => hv
    rw [hmark, if_pos (.inl (by simp [hhigh, hv]))]
  | case4 u hhigh =>
    have hempty : Settles [] := fun _ => rfl
    refine hempty.cons (decode_high hhigh rfl) ?_ fun _ => rfl
    rw [hmark, if_pos (.inl (by simp [hhigh]))]
  | case5 u us hhigh hlow ih =>
    refine (ih (List.forall_mem_cons.mp hus).2).cons (decode_low hhigh hlow) ?_
      fun h => absurd h hhigh
    rw [hmark, if_pos (.inr (by simp [hlow]))]
  | case6 u us hhigh hlow ih =>
    obtain ⟨hu, hus⟩ := List.forall_mem_cons.mp hus
    refine (ih hus).cons (decode_plain hhigh hlow) ?_ fun h => absurd h hhigh
    rw [ofChar_plain hu hhigh hlow, if_neg (by simp [IsLone, hhigh, hlow])]

/-- A unit that is no half of a pair parts a text. -/
theorem decode_append {u : Unit16} (hhigh : ¬ isHigh u = true) (hlow : ¬ isLow u = true)
    (us vs : List Unit16) : decode (us ++ u :: vs) = decode us ++ Char.ofNat u :: decode vs := by
  induction us using decode.induct with
  | case1 => exact decode_plain hhigh hlow
  | case2 w hw v ws hv ih =>
    rw [decode_pair hw hv, List.cons_append, List.cons_append, decode_pair hw hv, ih]
    rfl
  | case3 w hw v ws hv ih =>
    have hv' : ∀ us, (v :: us).head?.any isLow = false := fun _ => by simpa using hv
    rw [decode_high hw (hv' _), List.cons_append, List.cons_append, decode_high hw (hv' _),
      ← List.cons_append, ih]
    rfl
  | case4 w hw =>
    have hu : (u :: vs).head?.any isLow = false := by simpa using hlow
    have hempty : ([] : List Unit16).head?.any isLow = false := rfl
    rw [decode_high hw hempty, List.singleton_append, decode_high hw hu, decode_plain hhigh hlow]
    rfl
  | case5 w ws hw hw' ih =>
    rw [decode_low hw hw', List.cons_append, decode_low hw hw', ih]
    rfl
  | case6 w ws hw hw' ih =>
    rw [decode_plain hw hw', List.cons_append, decode_plain hw hw', ih]
    rfl

end Units

namespace Utf16
open Bearer.Text.Units (encode decode IsLone)

theorem numbers_ofString (s : String) : (ofString s).numbers = encode s.toList := by
  rw [numbers, ofString, List.map_map]
  refine (List.map_congr_left fun u hu => ?_).trans (List.map_id _)
  obtain ⟨c, -, hc⟩ := List.mem_flatMap.mp hu
  exact UInt16.toNat_ofNat_of_lt' (Units.ofChar_lt hc)

/-- A text whose characters are whole is left as it is. -/
@[simp] theorem repaired_ofString (s : String) : (ofString s).repaired = s := by
  rw [repaired, numbers_ofString, Units.decode_encode, String.ofList_toList]

/-- What is repaired of a text are the halves that are left alone. -/
theorem numbers_repaired (t : Utf16) (i : Nat) : (ofString t.repaired).numbers[i]? =
    t.numbers[i]?.map fun u => if IsLone t.numbers i then 0xFFFD else u := by
  rw [numbers_ofString, repaired, String.toList_ofList]
  refine Units.settles (fun u hu => ?_) i
  obtain ⟨n, -, rfl⟩ := List.mem_map.mp hu
  exact n.toNat_lt

/-- Texts are repaired one by one, if a space parts them. -/
theorem repaired_joined (ts : List Utf16) :
    (joined " " ts).repaired = " ".intercalate (ts.map repaired) := by
  have hspace : (ofString " ").units = [0x20] := by decide
  rw [joined, hspace]
  induction ts with
  | nil => rfl
  | cons t ts ih =>
    cases ts with
    | nil => simp [repaired, numbers]
    | cons t' ts =>
      have hunits : [0x20].intercalate ((t :: t' :: ts).map units) =
          t.units ++ 0x20 :: [0x20].intercalate ((t' :: ts).map units) := by
        simp
      have htexts : " ".intercalate ((t :: t' :: ts).map repaired) =
          t.repaired ++ " " ++ " ".intercalate ((t' :: ts).map repaired) :=
        String.intercalate_cons_cons
      rw [hunits, htexts, ← ih]
      exact String.toList_inj.mp (by simp [Units.decode_append, Units.isHigh, Units.isLow, repaired,
        numbers])

end Utf16
end Bearer.Text
