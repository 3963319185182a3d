import Bearer.Proofs.Text.Base64
import Mathlib.Algebra.Group.Nat.Defs
import Mathlib.Data.List.Forall2

namespace Bearer.Text.Base64

/-- The lowest bits of a number, so many of them, the highest first. -/
def bits : Nat → Nat → List Bool
  | 0, _ => []
  | width + 1, n => n.testBit width :: bits width n

def byteBits (bs : List UInt8) : List Bool := bs.flatMap fun b => bits 8 b.toNat

def sextetBits (vs : List Nat) : List Bool := vs.flatMap (bits 6)

@[simp] theorem length_bits (width n : Nat) : (bits width n).length = width := by
  induction width with
  | zero => rfl
  | succ width ih => rw [bits, List.length_cons, ih]

theorem length_sextetBits (vs : List Nat) : (sextetBits vs).length = 6 * vs.length := by
  induction vs with
  | nil => rfl
  | cons v vs ih =>
    rw [sextetBits, List.flatMap_cons, List.length_append, length_bits, ← sextetBits, ih,
      List.length_cons]
    omega

theorem length_byteBits (bs : List UInt8) : (byteBits bs).length = 8 * bs.length := by
  induction bs with
  | nil => rfl
  | cons b bs ih =>
    rw [byteBits, List.flatMap_cons, List.length_append, length_bits, ← byteBits, ih,
      List.length_cons]
    omega

theorem testBit_of_bits {width m n : Nat} (h : bits width m = bits width n) :
    ∀ i < width, m.testBit i = n.testBit i := by
  induction width with
  | zero => exact fun i hi => absurd hi (Nat.not_lt_zero i)
  | succ width ih =>
    obtain ⟨hhead, htail⟩ := List.cons_eq_cons.mp h
    intro i hi
    rcases Nat.lt_succ_iff_lt_or_eq.mp hi with hlt | rfl
    · exact ih htail i hlt
    · exact hhead

theorem bits_inj {width m n : Nat} (hm : m < 2 ^ width) (hn : n < 2 ^ width)
    (h : bits width m = bits width n) : m = n := by
  refine Nat.eq_of_testBit_eq fun i => ?_
  rcases Nat.lt_or_ge i width with hi | hi
  · exact testBit_of_bits h i hi
  · have hpow : 2 ^ width ≤ 2 ^ i := Nat.pow_le_pow_right Nat.two_pos hi
    rw [Nat.testBit_lt_two_pow (Nat.lt_of_lt_of_le hm hpow),
      Nat.testBit_lt_two_pow (Nat.lt_of_lt_of_le hn hpow)]

/-- Values of six bits are told by their bits. -/
theorem sextetBits_inj {vs ws : List Nat} (hvs : ∀ v ∈ vs, v < 64) (hws : ∀ w ∈ ws, w < 64)
    (h : sextetBits vs = sextetBits ws) : vs = ws := by
  induction vs generalizing ws with
  | nil =>
    have hlength := congrArg List.length h
    rw [length_sextetBits, length_sextetBits, List.length_nil] at hlength
    exact (List.length_eq_zero_iff.mp (by omega)).symm
  | cons v vs ih =>
    cases ws with
    | nil => cases h
    | cons w ws =>
      rw [List.forall_mem_cons] at hvs hws
      have happend : bits 6 v ++ sextetBits vs = bits 6 w ++ sextetBits ws := h
      obtain ⟨hhead, htail⟩ := List.append_inj happend (by simp)
      rw [bits_inj hvs.1 hws.1 hhead, ih hvs.2 hws.2 htail]

/-- The bits of a number are those above some place and those below it. -/
theorem bits_add (high low n : Nat) :
    bits (high + low) n = bits high (n / 2 ^ low) ++ bits low n := by
  induction high with
  | zero => rw [Nat.zero_add, bits, List.nil_append]
  | succ high ih =>
    rw [Nat.succ_add, bits, ih, bits, List.cons_append, Nat.testBit_div_two_pow]

/-- Bits above some place do not count below it. -/
theorem bits_mod {width place : Nat} (h : width ≤ place) (n : Nat) :
    bits width (n % 2 ^ place) = bits width n := by
  induction width with
  | zero => rfl
  | succ width ih =>
    have hplace : decide (width < place) = true := decide_eq_true h
    rw [bits, bits, ih (Nat.le_of_succ_le h), Nat.testBit_mod_two_pow, hplace, Bool.true_and]

theorem bits_sextet (width n : Nat) :
    bits (width + 6) n = bits width (n / 64) ++ bits 6 (n % 64) := by
  have hlow : bits 6 (n % 64) = bits 6 n := bits_mod (Nat.le_refl 6) n
  rw [hlow]
  exact bits_add width 6 n

theorem bits_byte (width high : Nat) (b : UInt8) :
    bits (width + 8) (high * 256 + b.toNat) = bits width high ++ bits 8 b.toNat := by
  have hb : b.toNat < 256 := b.toNat_lt
  have hhigh : (high * 256 + b.toNat) / 2 ^ 8 = high := by omega
  have hlow : (high * 256 + b.toNat) % 2 ^ 8 = b.toNat := by omega
  rw [bits_add width 8, hhigh, ← bits_mod (Nat.le_refl 8), hlow]

/-- A number has as many zeros behind it as it is multiplied by powers of two. -/
theorem bits_shift (width place n : Nat) :
    bits (width + place) (n * 2 ^ place) = bits width n ++ List.replicate place false := by
  rw [bits_add, Nat.mul_div_cancel n (Nat.two_pow_pos place)]
  congr 1
  rw [← bits_mod (Nat.le_refl place), Nat.mul_mod_left]
  induction place with
  | zero => rfl
  | succ place ih => rw [bits, Nat.zero_testBit, ih, List.replicate_succ]

/-- How many zeros fill the last value. -/
def filling (bs : List UInt8) : Nat := 2 * padding bs

/-- The six-bit values of some bytes have the bits of the bytes, and zeros behind them. -/
theorem sextetBits_sextets (bs : List UInt8) :
    sextetBits (sextets bs) = byteBits bs ++ List.replicate (filling bs) false := by
  induction bs using sextets.induct with
  | case1 => rfl
  | case2 a =>
    have hvalues := bits_sextet 6 (a.toNat * 2 ^ 4)
    rw [bits_shift 8 4] at hvalues
    simpa [sextets, sextetBits, byteBits, filling, padding] using hvalues.symm
  | case3 a b =>
    have hvalues := bits_sextet 12 ((a.toNat * 256 + b.toNat) * 2 ^ 2)
    rw [bits_shift 16 2, bits_byte 8, bits_sextet 6] at hvalues
    simpa [sextets, sextetBits, byteBits, filling, padding, Nat.div_div_eq_div_mul]
      using hvalues.symm
  | case4 a b c bs ih =>
    have hvalues := bits_sextet 18 ((a.toNat * 256 + b.toNat) * 256 + c.toNat)
    rw [bits_byte 16, bits_byte 8, bits_sextet 12, bits_sextet 6] at hvalues
    simp only [Nat.div_div_eq_div_mul, Nat.reduceMul, List.append_assoc] at hvalues
    have hgroup : sextetBits (sextets (a :: b :: c :: bs)) =
        byteBits [a, b, c] ++ sextetBits (sextets bs) := by
      have hbits := congrArg (· ++ sextetBits (sextets bs)) hvalues
      simpa [sextets, sextetBits, byteBits] using hbits.symm
    rw [hgroup, ih]
    simp [byteBits, filling, padding]

def standardAlphabet : List Char :=
  "ABCDEFGHIJKLMNOPQRSTUVWXYZabcdefghijklmnopqrstuvwxyz0123456789+/".toList

/-- The alphabet that is safe in addresses. -/
def safeAlphabet : List Char :=
  "ABCDEFGHIJKLMNOPQRSTUVWXYZabcdefghijklmnopqrstuvwxyz0123456789-_".toList

/-- A letter stands for the place that it has in one of these alphabets. -/
def StandsFor (alphabets : List (List Char)) (c : Char) (v : Nat) : Prop :=
  ∃ alphabet ∈ alphabets, alphabet[v]? = some c

/-- Letters spell bytes: each of them stands for six bits, and together they have the bits of the
bytes, with fewer than six zeros behind them. -/
def Spells (alphabets : List (List Char)) (letters : List Char) (bs : List UInt8) : Prop :=
  ∃ vs fill, List.Forall₂ (StandsFor alphabets) letters vs ∧ fill < 6 ∧
    sextetBits vs = byteBits bs ++ List.replicate fill false

/-- Text of whole groups of four: letters with at most two padding signs behind them. -/
def Padded (alphabets : List (List Char)) (text : List Char) (bs : List UInt8) : Prop :=
  ∃ letters k, text = letters ++ List.replicate k '=' ∧ Spells alphabets letters bs ∧ k ≤ 2 ∧
    text.length % 4 = 0

def IsFiller (c : Char) : Bool :=
  c.toNat < 128 && c != '=' && !standardAlphabet.contains c && !safeAlphabet.contains c

/-- Text in which such bytes are spelled in letters of both alphabets, padded or not, with any
other signs strewn in. -/
def Encodes (text : List Char) (bs : List UInt8) : Prop :=
  Spells [standardAlphabet, safeAlphabet] (text.filter (!IsFiller ·)) bs ∨
    Padded [standardAlphabet, safeAlphabet] (text.filter (!IsFiller ·)) bs

/-- The letters of an alphabet are read as their places. -/
theorem map_value?_alphabet : ∀ alphabet ∈ [standardAlphabet, safeAlphabet],
    alphabet.map value? = (List.range 64).map some ∧ '=' ∉ alphabet := by
  decide +kernel

theorem value?_standsFor {c : Char} {v : Nat}
    (h : StandsFor [standardAlphabet, safeAlphabet] c v) :
    v < 64 ∧ value? c = some v ∧ c ≠ '=' := by
  obtain ⟨alphabet, hmem, hc⟩ := h
  obtain ⟨hvalues, hpadding⟩ := map_value?_alphabet alphabet hmem
  have hread : ((List.range 64).map some)[v]? = some (value? c) := by
    rw [← hvalues, List.getElem?_map, hc, Option.map_some]
  obtain ⟨hv, hplace⟩ := List.getElem?_eq_some_iff.mp hread
  rw [List.length_map, List.length_range] at hv
  rw [List.getElem_map, List.getElem_range] at hplace
  exact ⟨hv, hplace.symm, fun h => hpadding (h ▸ List.mem_of_getElem? hc)⟩

theorem standsFor_digit {v : Nat} (h : v < 64) : StandsFor [standardAlphabet] (digit v) v := by
  have hall : ∀ w : Fin 64, standardAlphabet[w.val]? = some (digit w) := by decide +kernel
  exact ⟨standardAlphabet, List.mem_singleton_self _, hall ⟨v, h⟩⟩

theorem value?_filler {c : Char} (h : IsFiller c = true) : value? c = none ∧ c ≠ '=' := by
  have hall : ∀ n : Fin 128, IsFiller (Char.ofNat n) = true →
      value? (Char.ofNat n) = none ∧ Char.ofNat n ≠ '=' := by decide +kernel
  have hascii : c.toNat < 128 := by
    simp only [IsFiller, Bool.and_eq_true, decide_eq_true_eq] at h
    exact h.1.1.1
  have hc := hall ⟨c.toNat, hascii⟩
  rw [Char.ofNat_toNat] at hc
  exact hc h

theorem padding_le (bs : List UInt8) : padding bs ≤ 2 := by
  induction bs using padding.induct with
  | case1 | case2 | case3 => simp [padding]
  | case4 a b c bs ih => rwa [padding]

theorem spells_sextets (bs : List UInt8) :
    Spells [standardAlphabet] ((sextets bs).map digit) bs := by
  have hfilling : filling bs < 6 := by
    have := padding_le bs
    unfold filling
    omega
  refine ⟨sextets bs, filling bs, ?_, hfilling, sextetBits_sextets bs⟩
  rw [List.forall₂_map_left_iff, List.forall₂_same]
  exact fun v hv => standsFor_digit (sextets_lt bs v hv)

/-- What is written is padded and spells the bytes in the standard alphabet. -/
theorem padded_encode (bs : List UInt8) : Padded [standardAlphabet] (encode bs) bs :=
  ⟨_, padding bs, encode_eq bs, spells_sextets bs, padding_le bs, (isPadded_encode bs).grouped⟩

variable {letters text : List Char} {bs : List UInt8}

/-- Bytes are spelled by the same values whatever the alphabet. -/
theorem values_of_spells (h : Spells [standardAlphabet, safeAlphabet] letters bs) :
    letters.filterMap value? = sextets bs ∧ ∀ c ∈ letters, c ≠ '=' := by
  obtain ⟨vs, fill, hletters, hfill, hbits⟩ := h
  have hvalues : letters.filterMap value? = vs ∧ (∀ v ∈ vs, v < 64) ∧ ∀ c ∈ letters, c ≠ '=' := by
    clear hbits
    induction hletters with
    | nil => exact ⟨rfl, nofun, nofun⟩
    | cons hc _ ih =>
      obtain ⟨hv, hvalue, hsign⟩ := value?_standsFor hc
      obtain ⟨hvalues, hlt, hsigns⟩ := ih
      exact ⟨by rw [List.filterMap_cons_some hvalue, hvalues],
        List.forall_mem_cons.mpr ⟨hv, hlt⟩, List.forall_mem_cons.mpr ⟨hsign, hsigns⟩⟩
  obtain ⟨hvs, hlt, hsigns⟩ := hvalues
  have hwritten := sextetBits_sextets bs
  have hlength := congrArg List.length hbits
  have hlength' := congrArg List.length hwritten
  simp only [List.length_append, List.length_replicate, length_sextetBits, length_byteBits]
    at hlength hlength'
  -- The values are whole, so there is only one way to fill the last of them.
  have hfilling : fill = filling bs := by
    have := padding_le bs
    unfold filling at hlength' ⊢
    omega
  rw [hfilling, ← hwritten] at hbits
  exact ⟨hvs.trans (sextetBits_inj hlt (sextets_lt bs) hbits), hsigns⟩

theorem decode_of_spells (h : Spells [standardAlphabet, safeAlphabet] letters bs) (k : Nat) :
    decode (letters ++ List.replicate k '=') = bs := by
  obtain ⟨hvalues, hsigns⟩ := values_of_spells h
  rw [decode, List.takeWhile_append_of_pos fun c hc => decide_eq_true (hsigns c hc),
    List.takeWhile_replicate]
  simp [hvalues, join_sextets]

/-- What belongs to no alphabet and is no padding is skipped. -/
theorem decode_filter (text : List Char) : decode (text.filter (!IsFiller ·)) = decode text := by
  have hskip : ((text.filter (!IsFiller ·)).takeWhile (· ≠ '=')).filterMap value? =
      (text.takeWhile (· ≠ '=')).filterMap value? := by
    induction text with
    | nil => rfl
    | cons c text ih =>
      by_cases hfiller : IsFiller c = true
      · obtain ⟨hvalue, hsign⟩ := value?_filler hfiller
        rw [List.filter_cons_of_neg (by simp [hfiller]),
          List.takeWhile_cons_of_pos (by simpa using hsign), List.filterMap_cons_none hvalue, ih]
      · rw [List.filter_cons_of_pos (by simp [hfiller])]
        by_cases hsign : c = '='
        · rw [List.takeWhile_cons_of_neg (by simpa using hsign),
            List.takeWhile_cons_of_neg (by simpa using hsign)]
        · rw [List.takeWhile_cons_of_pos (by simpa using hsign),
            List.takeWhile_cons_of_pos (by simpa using hsign), List.filterMap_cons,
            List.filterMap_cons, ih]
  rw [decode, decode, hskip]

/-- Bytes are read back however they are encoded. -/
theorem decode_of_encodes (h : Encodes text bs) : decode text = bs := by
  rw [← decode_filter]
  rcases h with h | ⟨letters, k, htext, hspells, -, -⟩
  · simpa using decode_of_spells h 0
  · rw [htext]
    exact decode_of_spells hspells k

end Bearer.Text.Base64
