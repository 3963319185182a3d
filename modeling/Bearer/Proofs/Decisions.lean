import Bearer.Proofs.Asking

namespace Bearer

/-- Exactly under the condition there is a value, one of these; otherwise the configuration is
blamed. -/
structure Result.Decides {α : Type} (condition : Prop) (P : α → Prop) (r : Result α) : Prop where
  accepts : condition → ∃ a, r = .ok a ∧ P a
  refuses : ¬ condition → ∃ e, r = .error e ∧ e.kind? = some .config

namespace Result.Decides

variable {α β : Type} {A B : Prop} {P : α → Prop} {Q : β → Prop} {r : Result α}

theorem ok {a : α} (hP : P a) : Decides True P (.ok a) :=
  ⟨fun _ => ⟨a, rfl, hP⟩, fun h => absurd trivial h⟩

theorem raise {f : Fault} (hf : f.kind = .config) : Decides False P f.raise :=
  ⟨False.elim, fun _ => ⟨f.thrown, rfl, congrArg some hf⟩⟩

theorem congr (h : Decides A P r) (hAB : A ↔ B) : Decides B P r := propext hAB ▸ h

theorem either (h : Decides A P r) :
    (A ∧ ∃ a, r = .ok a ∧ P a) ∨ (¬ A ∧ ∃ e, r = .error e ∧ e.kind? = some .config) := by
  by_cases hA : A
  · exact .inl ⟨hA, h.accepts hA⟩
  · exact .inr ⟨hA, h.refuses hA⟩

/-- A later step decides what is left of the condition. -/
theorem bind {f : α → Result β} (h : Decides A P r) (hf : ∀ a, P a → Decides B Q (f a)) :
    Decides (A ∧ B) Q (r >>= f) := by
  obtain ⟨hA, a, rfl, ha⟩ | ⟨hA, e, rfl, he⟩ := h.either
  · exact (hf a ha).congr (and_iff_right hA).symm
  · exact ⟨fun hAB => absurd hAB.1 hA, fun _ => ⟨e, rfl, he⟩⟩

end Result.Decides

namespace Procedure

/-- Credentials are made, one or several, and the last of them is the outcome, one of these.
Nothing else is done. -/
inductive Builds (P : Credential → Prop) : Procedure CredentialId → Prop
  | last {c : Credential} (hc : P c) : Builds P (.ask (.create c) fun id => .done (.ok id))
  | before {c : Credential} {next : CredentialId → Procedure CredentialId}
      (hnext : ∀ id, Builds P (next id)) : Builds P (.ask (.create c) next)

/-- Exactly under the condition credentials are made, of these; otherwise the configuration is
blamed at once. -/
structure Decides (condition : Prop) (P : Credential → Prop) (p : Procedure CredentialId) :
    Prop where
  accepts : condition → p.Builds P
  refuses : ¬ condition → ∃ e, p = .done (.error e) ∧ e.kind? = some .config

variable {α : Type} {A B : Prop} {P : Credential → Prop} {p : Procedure CredentialId}

theorem Builds.asks (h : p.Builds P) : p.Asks fun q => ∃ c, q = .create c := by
  induction h with
  | last => exact ⟨⟨_, rfl⟩, fun _ => trivial⟩
  | before _ ih => exact ⟨⟨_, rfl⟩, ih⟩

theorem Builds.mono {P' : Credential → Prop} (hPP' : ∀ c, P c → P' c) (h : p.Builds P) :
    p.Builds P' := by
  induction h with
  | last hc => exact .last (hPP' _ hc)
  | before _ ih => exact .before ih

/-- What makes credentials does not fail at once. -/
theorem Builds.ne_error (h : p.Builds P) (e : Thrown) : p ≠ .done (.error e) := by
  cases h <;> exact nofun

namespace Decides

theorem create {c : Credential} (hc : P c) : Decides True P (Bearer.create c) :=
  ⟨fun _ => .last hc, fun h => absurd trivial h⟩

theorem raise {f : Fault} (hf : f.kind = .config) : Decides False P (Procedure.raise f) :=
  ⟨False.elim, fun _ => ⟨f.thrown, rfl, congrArg some hf⟩⟩

theorem congr (h : Decides A P p) (hAB : A ↔ B) : Decides B P p := propext hAB ▸ h

theorem mono {P' : Credential → Prop} (h : Decides A P p) (hPP' : ∀ c, P c → P' c) :
    Decides A P' p :=
  ⟨fun hA => (h.accepts hA).mono hPP', h.refuses⟩

theorem bind {Q : α → Prop} {r : Result α} {f : α → Procedure CredentialId}
    (h : Result.Decides A Q r) (hf : ∀ a, Q a → Decides B P (f a)) :
    Decides (A ∧ B) P ((liftM r : Procedure α) >>= f) := by
  obtain ⟨hA, a, rfl, ha⟩ | ⟨hA, e, rfl, he⟩ := h.either
  · exact (hf a ha).congr (and_iff_right hA).symm
  · exact ⟨fun hAB => absurd hAB.1 hA, fun _ => ⟨e, rfl, he⟩⟩

end Decides
end Procedure

end Bearer
