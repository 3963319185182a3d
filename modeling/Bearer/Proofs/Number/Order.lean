import Bearer.Number.Double
import Mathlib.Algebra.Order.Field.Rat
import Mathlib.Tactic.Linarith
import Mathlib.Tactic.Positivity

namespace Bearer.Double

theorem lt_irrefl (x : Double) : x.lt x = false := by
  cases x with
  | nan => rfl
  | infinite negative => cases negative <;> rfl
  | finite a => simp [lt]

theorem lt_trans {x y z : Double} (hxy : x.lt y = true) (hyz : y.lt z = true) :
    x.lt z = true := by
  cases x with
  | nan => cases hxy
  | infinite s =>
    cases y with
    | nan => cases hxy
    | infinite t => cases z <;> cases s <;> cases t <;> simp_all [lt]
    | finite b => cases z <;> simp_all [lt]
  | finite a =>
    cases y with
    | nan => cases hxy
    | infinite t => cases z <;> cases t <;> simp_all [lt]
    | finite b =>
      cases z with
      | nan => cases hyz
      | infinite t => exact hyz
      | finite c =>
        simp only [lt, decide_eq_true_eq] at hxy hyz ⊢
        exact Std.lt_trans hxy hyz

theorem le_zero_ofRat {q : Rat} (h : 0 ≤ q) : (0 : Double).le (ofRat q) = true := by
  have hzero : (0 : Double) = .finite 0 := rfl
  have hsign : decide (q.num < 0) = false := by simpa using h
  have hnearest : (0 : Rat) ≤ nearest q.num.natAbs q.den := by
    simp only [nearest, scale, Rat.mkRat_eq_div]
    positivity
  rw [hzero]
  unfold ofRat
  split
  · rfl
  · dsimp only
    split
    · rw [hsign]
      rfl
    · rw [if_neg (by simpa using hsign)]
      simpa [le] using hnearest

theorem le_zero_add {x y : Double} (hx : (0 : Double).le x = true) (hy : (0 : Double).lt y = true) :
    (0 : Double).le (x + y) = true := by
  have hzero : (0 : Double) = .finite 0 := rfl
  rw [hzero] at hx hy
  cases x with
  | nan => cases hx
  | infinite s =>
    cases s with
    | true => cases hx
    | false =>
      cases y with
      | nan => cases hy
      | infinite t => cases t <;> first | rfl | cases hy
      | finite b => rfl
  | finite a =>
    cases y with
    | nan => cases hy
    | infinite t => cases t <;> first | rfl | cases hy
    | finite b =>
      simp only [le, lt, decide_eq_true_eq] at hx hy
      exact le_zero_ofRat (by linarith)

theorem lt_or_eq_or_gt {x y : Double} (hx : x ≠ .nan) (hy : y ≠ .nan) :
    x.lt y = true ∨ x = y ∨ y.lt x = true := by
  cases x with
  | nan => exact absurd rfl hx
  | infinite s =>
    cases y with
    | nan => exact absurd rfl hy
    | infinite t => cases s <;> cases t <;> simp [lt]
    | finite b => cases s <;> simp [lt]
  | finite a =>
    cases y with
    | nan => exact absurd rfl hy
    | infinite t => cases t <;> simp [lt]
    | finite b => simpa [lt] using lt_trichotomy a b

end Bearer.Double
