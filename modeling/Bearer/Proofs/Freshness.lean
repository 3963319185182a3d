import Bearer.Cache.State
import Bearer.Proofs.Number.Order

namespace Bearer

theorem Freshness.minimumValidity_lt :
    (Double.ofNat minimumValidity).lt (Double.ofNat refreshMargin) = true := by
  decide +kernel

namespace Token

/-- Less than so many milliseconds are left of the token at a reading of the clock. A token
without an end has no such moment, nor has one whose end is no instant. -/
def EndsWithin (t : Token) (ms : Nat) (now : Double) : Prop :=
  ∃ ends, t.expiry.toNumber? = some ends ∧ (ends - now).lt (Double.ofNat ms) = true

theorem freshness_eq_expired (t : Token) (now : Double) :
    t.freshness now = .expired ↔ t.EndsWithin 300000 now := by
  unfold freshness EndsWithin
  cases t.expiry.toNumber? with
  | none => simp
  | some ends =>
    simp only [Option.some.injEq, exists_eq_left', Freshness.ofRemaining, Freshness.minimumValidity]
    by_cases hfive : (ends - now).lt (Double.ofNat 300000) = true
    · simp [hfive]
    · by_cases hsix : (ends - now).lt (Double.ofNat Freshness.refreshMargin) = true <;>
        simp [hfive, hsix]

/-- Less than five minutes are less than six, so a token that is not fresh has less than
six minutes left whether it is stale or expired. -/
theorem freshness_ne_fresh (t : Token) (now : Double) :
    t.freshness now ≠ .fresh ↔ t.EndsWithin 360000 now := by
  unfold freshness EndsWithin
  cases t.expiry.toNumber? with
  | none => simp
  | some ends =>
    have hless : (ends - now).lt (Double.ofNat 300000) = true →
        (ends - now).lt (Double.ofNat 360000) = true :=
      fun h => Double.lt_trans h Freshness.minimumValidity_lt
    simp only [Option.some.injEq, exists_eq_left', Freshness.ofRemaining,
      Freshness.minimumValidity, Freshness.refreshMargin]
    by_cases hfive : (ends - now).lt (Double.ofNat 300000) = true
    · simp [hfive, hless hfive]
    · by_cases hsix : (ends - now).lt (Double.ofNat 360000) = true <;> simp [hfive, hsix]

end Token

namespace Cache.State

/-- A token that a call can be served at a reading of the clock: the cached one, unless
less than five minutes are left of it. -/
def Serves (s : State) (now : Double) (t : Token) : Prop :=
  s.token = some t ∧ ¬ t.EndsWithin 300000 now

/-- At a reading of the clock less than six minutes are left of the cached token, if there
is one. -/
def Wanes (s : State) (now : Double) : Prop :=
  ∀ t, s.token = some t → t.EndsWithin 360000 now

theorem serves_iff (s : State) (now : Double) (t : Token) :
    s.Serves now t ↔ s.token = some t ∧ s.freshness now ≠ .expired := by
  unfold Serves freshness
  refine and_congr_right fun ht => ?_
  rw [ht, ne_eq, t.freshness_eq_expired]

theorem freshness_ne_expired (s : State) (now : Double) :
    s.freshness now ≠ .expired ↔ ∃ t, s.Serves now t := by
  simp only [serves_iff]
  constructor
  · intro h
    cases ht : s.token with
    | none => simp [freshness, ht] at h
    | some t => exact ⟨t, rfl, h⟩
  · rintro ⟨t, -, h⟩
    exact h

theorem freshness_ne_fresh (s : State) (now : Double) :
    s.freshness now ≠ .fresh ↔ s.Wanes now := by
  unfold Wanes freshness
  cases s.token with
  | none => simp
  | some t => simp [t.freshness_ne_fresh]

end Cache.State
end Bearer
