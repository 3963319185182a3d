import Bearer.Proofs.Cache.Installed
import Bearer.Proofs.Cache.Notification

namespace Bearer.Cache

def Stage.isSuccess : Stage → Bool
  | .notifying .. | .finished (.ok _) => true
  | _ => false

namespace State

def Barren (s : State) : Prop := ∀ k stage, s.stage? k = some stage → stage.isSuccess = false

theorem barren_initial (token : Option Token) : (initial token).Barren := by
  intro k stage h
  cases h

variable {set : Settings} {s : State} {e : Event} {l : ListenerId} {ls : List ListenerId}

theorem Barren.step (h : s.Barren) (hnone : s.installs? e = none) :
    (step set e s).1.Barren := by
  intro k stage hk
  rcases stage_step set s e k with hsame | ⟨new, hturn, hnew⟩
  · exact h k stage (hsame ▸ hk)
  · obtain rfl : new = stage := Option.some.inj (hnew.symm.trans hk)
    cases hturn with
    | @started _ how _ => cases how <;> rfl
    | installed hsettled => simp [installs?, hsettled] at hnone
    | told htelling _ => cases h k _ htelling
    | _ => rfl

/-- Whoever listens first is called when a token is installed. -/
theorem notify_of_installs {t : Token} (hfirst : s.listeners.head? = some l)
    (h : s.installs? e = some t) : ∃ k, .notify k l ∈ (step set e s).2 := by
  obtain ⟨k, rfl, hk⟩ := installs?_eq_some h
  obtain ⟨rest, hlisteners⟩ := List.head?_eq_some_iff.mp hfirst
  have hcleared : ({ s with token := some t }.clear k).listeners = l :: rest := by
    rw [clear_listeners, ← hlisteners]
  refine ⟨k, ?_⟩
  simp only [step, process, hk, hcleared]
  exact List.mem_append_right _ List.mem_cons_self

/-- A step leaves the token alone, and brings no success, or the first listener is called. -/
theorem quiet_or_notify (hfirst : s.listeners.head? = some l) :
    ((step set e s).1.token = s.token ∧ (s.Barren → (step set e s).1.Barren)) ∨
      ∃ k, .notify k l ∈ (step set e s).2 := by
  cases h : s.installs? e with
  | none => exact .inl ⟨by rw [token_step, h, Option.none_or], fun hs => hs.step h⟩
  | some t => exact .inr (notify_of_installs hfirst h)

theorem first_step (hfirst : s.listeners.head? = some l) :
    (step set e s).1.listeners.head? = some l := by
  rw [listeners_step, List.head?_append, hfirst, Option.some_or]

end State
end Bearer.Cache
