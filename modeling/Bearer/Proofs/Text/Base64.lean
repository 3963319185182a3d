import Bearer.Text.Base64

namespace Bearer.Text.Base64

/-- A letter of the standard alphabet. -/
def isStandard (c : Char) : Bool := c.isAlphanum || c = '+' || c = '/'

/-- Padded text of the standard alphabet: whole groups of four, with at most two padding signs
at the end. -/
structure IsPadded (cs : List Char) : Prop where
  grouped : cs.length % 4 = 0
  letters : ∃ body k, cs = body ++ List.replicate k '=' ∧ k ≤ 2 ∧ ∀ c ∈ body, isStandard c = true

theorem digit_lt {n : Nat} (h : n < 64) :
    value? (digit n) = some n ∧ digit n ≠ '=' ∧ isStandard (digit n) = true := by
  have hall : ∀ m : Fin 64, value? (digit m) = some m.val ∧ digit m ≠ '=' ∧
      isStandard (digit m) = true := by decide
  exact hall ⟨n, h⟩

/-- The six-bit values that some bytes are written in. -/
def sextets : List UInt8 → List Nat
  | [] => []
  | [a] => [a.toNat * 16 / 64, a.toNat * 16 % 64]
  | [a, b] =>
    let n := (a.toNat * 256 + b.toNat) * 4
    [n / 4096, n / 64 % 64, n % 64]
  | a :: b :: c :: bs =>
    let n := (a.toNat * 256 + b.toNat) * 256 + c.toNat
    n / 262144 :: n / 4096 % 64 :: n / 64 % 64 :: n % 64 :: sextets bs

/-- How many padding signs fill the last group. -/
def padding : List UInt8 → Nat
  | [] => 0
  | [_] => 2
  | [_, _] => 1
  | _ :: _ :: _ :: bs => padding bs

theorem encode_eq (bs : List UInt8) :
    encode bs = (sextets bs).map digit ++ List.replicate (padding bs) '=' := by
  induction bs using sextets.induct with
  | case1 => rfl
  | case2 a => rfl
  | case3 a b => rfl
  | case4 a b c bs ih => simp only [encode, sextets, padding, ih, List.map_cons, List.cons_append]

theorem sextets_lt (bs : List UInt8) : ∀ v ∈ sextets bs, v < 64 := by
  induction bs using sextets.induct with
  | case1 => simp [sextets]
  | case2 a =>
    have ha : a.toNat < 256 := a.toNat_lt
    simp only [sextets, List.mem_cons, List.not_mem_nil, or_false]
    omega
  | case3 a b =>
    have ha : a.toNat < 256 := a.toNat_lt
    have hb : b.toNat < 256 := b.toNat_lt
    simp only [sextets, List.mem_cons, List.not_mem_nil, or_false]
    omega
  | case4 a b c bs ih =>
    have ha : a.toNat < 256 := a.toNat_lt
    have hb : b.toNat < 256 := b.toNat_lt
    have hc : c.toNat < 256 := c.toNat_lt
    simp only [sextets, List.mem_cons]
    rintro v (rfl | rfl | rfl | rfl | hv)
    · omega
    · omega
    · omega
    · omega
    · exact ih v hv

theorem byte_eq {n : Nat} {a : UInt8} (h : n = a.toNat) : n.toUInt8 = a := by
  subst h
  exact UInt8.ofNat_toNat

/-- The six-bit values of some bytes join to them again. -/
theorem join_sextets (bs : List UInt8) : join (sextets bs) = bs := by
  induction bs using sextets.induct with
  | case1 => rfl
  | case2 a =>
    have ha : a.toNat < 256 := a.toNat_lt
    simp only [sextets, join]
    rw [byte_eq (a := a) (by omega)]
  | case3 a b =>
    have ha : a.toNat < 256 := a.toNat_lt
    have hb : b.toNat < 256 := b.toNat_lt
    simp only [sextets, join]
    rw [byte_eq (a := a) (by omega), byte_eq (a := b) (by omega)]
  | case4 a b c bs ih =>
    have ha : a.toNat < 256 := a.toNat_lt
    have hb : b.toNat < 256 := b.toNat_lt
    have hc : c.toNat < 256 := c.toNat_lt
    simp only [sextets, join]
    rw [byte_eq (a := a) (by omega), byte_eq (a := b) (by omega), byte_eq (a := c) (by omega), ih]

theorem values_digits {vs : List Nat} (h : ∀ v ∈ vs, v < 64) :
    (vs.map digit).filterMap value? = vs := by
  induction vs with
  | nil => rfl
  | cons v vs ih =>
    rw [List.forall_mem_cons] at h
    rw [List.map_cons, List.filterMap_cons_some (digit_lt h.1).1, ih h.2]

/-- Letters up to the padding. -/
theorem takeWhile_digits {vs : List Nat} (h : ∀ v ∈ vs, v < 64) (k : Nat) :
    (vs.map digit ++ List.replicate k '=').takeWhile (· ≠ '=') = vs.map digit := by
  rw [List.takeWhile_append_of_pos, List.takeWhile_replicate]
  · simp
  · intro c hc
    obtain ⟨v, hv, rfl⟩ := List.mem_map.mp hc
    exact decide_eq_true (digit_lt (h v hv)).2.1

@[simp] theorem decode_encode (bs : List UInt8) : decode (encode bs) = bs := by
  have hlt := sextets_lt bs
  rw [decode, encode_eq, takeWhile_digits hlt, values_digits hlt, join_sextets]

theorem isPadded_encode (bs : List UInt8) : IsPadded (encode bs) := by
  have hcount : ((sextets bs).length + padding bs) % 4 = 0 ∧ padding bs ≤ 2 := by
    induction bs using sextets.induct with
    | case1 | case2 | case3 => simp [sextets, padding]
    | case4 a b c bs ih =>
      simp only [sextets, padding, List.length_cons]
      omega
  rw [encode_eq]
  refine ⟨by simpa using hcount.1, _, _, rfl, hcount.2, fun c hc => ?_⟩
  obtain ⟨v, hv, rfl⟩ := List.mem_map.mp hc
  exact (digit_lt (sextets_lt bs v hv)).2.2

end Bearer.Text.Base64
