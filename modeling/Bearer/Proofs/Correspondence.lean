import Bearer.Error.Fault
import Mathlib.Data.List.Forall2

namespace Bearer

/-- Outcomes that correspond: both values do, or both failed alike. -/
inductive Result.Rel {α β : Type} (R : α → β → Prop) : Result α → Result β → Prop
  | ok {a : α} {b : β} (h : R a b) : Rel R (.ok a) (.ok b)
  | error (failure : Thrown) : Rel R (.error failure) (.error failure)

namespace Result.Rel
variable {α β γ δ : Type} {R : α → β → Prop} {S : γ → δ → Prop} {x : Result α} {y : Result β}

theorem map {f : α → γ} {g : β → δ} (h : Result.Rel R x y) (hfg : ∀ a b, R a b → S (f a) (g b)) :
    Result.Rel S (x.map f) (y.map g) := by
  cases h with
  | ok h => exact .ok (hfg _ _ h)
  | error failure => exact .error failure

end Result.Rel

namespace Correspondence
variable {α β : Type} {R : α → β → Prop} {xs : List α} {ys : List β}

theorem getElem? (h : List.Forall₂ R xs ys) (n : Nat) : Option.Rel R xs[n]? ys[n]? := by
  induction h generalizing n with
  | nil => exact .none
  | cons hhead htail ih =>
    cases n with
    | zero => exact .some hhead
    | succ n => exact ih n

theorem modify {f : α → α} {g : β → β} (h : List.Forall₂ R xs ys)
    (hfg : ∀ a b, R a b → R (f a) (g b)) (n : Nat) :
    List.Forall₂ R (xs.modify n f) (ys.modify n g) := by
  induction h generalizing n with
  | nil => cases n <;> exact .nil
  | cons hhead htail ih =>
    cases n with
    | zero => exact .cons (hfg _ _ hhead) htail
    | succ n => exact .cons hhead (ih n)

end Correspondence
end Bearer
