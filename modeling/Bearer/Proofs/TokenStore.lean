import Bearer.Procedure
import Mathlib.Logic.Relation

namespace Bearer.TokenStore

variable {s s' : TokenStore} {user other tokens : String}

theorem find?_erase (s : TokenStore) (user other : String) :
    (s.erase user).find? other = if other = user then none else s.find? other := by
  simp only [find?, erase, List.find?_filter]
  split
  · next h =>
    subst h
    simp
  · next h =>
    congr 2
    funext e
    by_cases he : e.1 = other <;> simp [he, h]

theorem find?_insert (s : TokenStore) (user tokens other : String) :
    (s.insert user tokens).find? other = if other = user then some tokens else s.find? other := by
  have herase := find?_erase s user other
  by_cases h : other = user
  · simp [find?, insert, h]
  · rw [if_neg h] at herase ⊢
    simpa [find?, insert, Ne.symm h] using herase

/-- A store whose calls do not fail. -/
structure Reliable (s : TokenStore) : Prop where
  load : s.failLoad = none
  store : s.failStore = none
  delete : s.failDelete = none

namespace Reliable
variable (h : s.Reliable)
include h

theorem perform_load (user : String) : s.perform (.load user) = (s, .ok (s.find? user)) := by
  simp only [perform, failure?, h.load]

theorem perform_store (user tokens : String) :
    s.perform (.store user tokens) = (s.insert user tokens, .ok none) := by
  simp only [perform, failure?, h.store]

theorem perform_delete (user : String) : s.perform (.delete user) = (s.erase user, .ok none) := by
  simp only [perform, failure?, h.delete]

theorem perform (call : Call) : (s.perform call).1.Reliable := by
  cases call with
  | load user => exact h.perform_load user ▸ h
  | store user tokens => exact h.perform_store user tokens ▸ ⟨h.load, h.store, h.delete⟩
  | delete user => exact h.perform_delete user ▸ ⟨h.load, h.store, h.delete⟩

end Reliable

/-- The store after some calls, each of which may be made. -/
abbrev Calls (P : Query → Prop) : TokenStore → TokenStore → Prop :=
  Relation.ReflTransGen fun s s' => ∃ call, P (.store call) ∧ s' = (s.perform call).1

/-- Nobody who may make no call changes the store. -/
theorem Calls.eq {P : Query → Prop} (hP : ∀ call, ¬ P (.store call)) (h : Calls P s s') :
    s' = s := by
  induction h with
  | refl => rfl
  | tail _ hcall _ =>
    obtain ⟨call, hcall, -⟩ := hcall
    exact absurd hcall (hP call)

theorem Reliable.calls {P : Query → Prop} (h : s.Reliable) (hcalls : Calls P s s') :
    s'.Reliable := by
  induction hcalls with
  | refl => exact h
  | tail _ hcall ih =>
    obtain ⟨call, -, rfl⟩ := hcall
    exact ih.perform call

end Bearer.TokenStore
