import Bearer.Proofs.Cache.Installed

namespace Bearer.Cache

def Stage.token? : Stage → Option Token
  | .settled (.ok t) | .notifying t _ _ | .finished (.ok t) => some t
  | _ => none

@[simp] theorem Stage.token?_telling (t : Token) (left : List ListenerId) :
    (telling t left).token? = some t := by
  cases left <;> rfl

namespace State
variable (set : Settings) {ok : Token → Prop}

/-- All tokens in the cache are such. -/
structure Holds (ok : Token → Prop) (s : State) : Prop where
  cached : ∀ t, s.token = some t → ok t
  brought : ∀ k stage t, s.stage? k = some stage → stage.token? = some t → ok t

theorem Holds.mono {ok' : Token → Prop} (hok : ∀ t, ok t → ok' t) {s : State} (h : s.Holds ok) :
    s.Holds ok' :=
  ⟨fun t ht => hok t (h.cached t ht), fun k stage t hk ht => hok t (h.brought k stage t hk ht)⟩

theorem holds_initial {token : Option Token} (h : ∀ t, token = some t → ok t) :
    (initial token).Holds ok :=
  ⟨h, fun k stage t hk => by simp [initial, stage?] at hk⟩

/-- A refresh moves on with the token that it has, or with the one that it is settled with. -/
theorem Turn.token {s : State} {e : Event} {k : RefreshId} {stage : Stage} {t : Token}
    (h : Turn set s e k stage) (ht : stage.token? = some t) :
    e = .settle k (.ok t) ∨ ∃ old, s.stage? k = some old ∧ old.token? = some t := by
  cases h with
  | @started _ how ho => cases how <;> cases ht
  | launched hk => cases ht
  | @settled _ outcome hk =>
    cases outcome with
    | ok u =>
      obtain rfl : u = t := Option.some.inj ht
      exact .inl rfl
    | error e => cases ht
  | failed hk => cases ht
  | installed hk =>
    rw [Stage.token?_telling] at ht
    exact .inr ⟨_, hk, ht⟩
  | told hk hf =>
    rw [Stage.token?_telling] at ht
    exact .inr ⟨_, hk, ht⟩
  | untold hk hf => cases ht

theorem holds_step {s : State} (h : s.Holds ok) {e : Event}
    (he : ∀ k t, e = .settle k (.ok t) → ok t) : (step set e s).1.Holds ok := by
  constructor
  · intro t ht
    rw [token_step] at ht
    cases hi : s.installs? e with
    | none =>
      rw [hi] at ht
      exact h.cached t ht
    | some u =>
      rw [hi] at ht
      obtain rfl : u = t := Option.some.inj ht
      obtain ⟨k, -, hk⟩ := installs?_eq_some hi
      exact h.brought k _ u hk rfl
  · intro k stage t hk ht
    rcases stage_step set s e k with hs | ⟨stage', hturn, hs⟩
    · exact h.brought k stage t (hs.symm.trans hk) ht
    · obtain rfl : stage' = stage := Option.some.inj (hs.symm.trans hk)
      rcases hturn.token set ht with he' | ⟨old, hold, htold⟩
      · exact he k t he'
      · exact h.brought k old t hold htold

/-- A call is answered at once from the cache, or turned away because it was aborted. -/
theorem reply_cases {s : State} {e : Event} {r : Result (Option Token)}
    (h : s.reply? e = some r) : r = .ok s.token ∨ r = .ok none ∨
      ∃ reason, e.aborted? = some reason ∧ r = denial reason := by
  cases e with
  | fetch caller how first second aborted =>
    cases aborted with
    | none =>
      simp only [reply?, Option.map_none, Option.getD_none] at h
      split at h
      · exact .inl (Option.some.inj h).symm
      · cases h
    | some reason =>
      refine .inr (.inr ⟨reason, rfl, ?_⟩)
      simpa [reply?] using h.symm
  | refresh caller aborted =>
    cases aborted with
    | none => cases h
    | some reason => exact .inr (.inr ⟨reason, rfl, (Option.some.inj h).symm⟩)
  | refreshIfExpired caller reading aborted =>
    simp only [reply?] at h
    split at h
    · exact .inr (.inl (Option.some.inj h).symm)
    · cases aborted with
      | none => cases h
      | some reason => exact .inr (.inr ⟨reason, rfl, (Option.some.inj h).symm⟩)
  | _ => cases h

end State
end Bearer.Cache
