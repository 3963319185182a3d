import Bearer.Proofs.Http.Answers
import Bearer.Proofs.Number.Instants

namespace Bearer

namespace Cache.State

/-- At a reading of the clock the cached token counts as what so many milliseconds of life make
of it. -/
structure Counts (s : State) (now : Double) (left : Int) : Prop where
  expired : s.freshness now = .expired ↔ left < 300000
  stale : s.freshness now = .stale ↔ 300000 ≤ left ∧ left < 360000
  fresh : s.freshness now = .fresh ↔ 360000 ≤ left

variable {s : State} {token : Token} {now : Double} {left : Int}

theorem freshness_of_token (hs : s.token = some token) (now : Double) :
    s.freshness now = token.freshness now := by
  rw [freshness, hs]

theorem counts_of_endsWithin (hs : s.token = some token)
    (hfive : token.EndsWithin 300000 now ↔ left < 300000)
    (hsix : token.EndsWithin 360000 now ↔ left < 360000) : s.Counts now left := by
  have hcached := freshness_of_token hs now
  have hexpired := token.freshness_eq_expired now
  have hwaning := token.freshness_ne_fresh now
  rw [hfive] at hexpired
  rw [hsix] at hwaning
  cases hkind : token.freshness now with
  | fresh =>
    have hnot : ¬ left < 360000 := fun hless => hwaning.mpr hless hkind
    constructor <;> rw [hcached, hkind] <;> simp <;> omega
  | stale =>
    have hless : left < 360000 := hwaning.mp (by simp [hkind])
    have hnot : ¬ left < 300000 := fun h => by simp [hkind] at hexpired; omega
    constructor <;> rw [hcached, hkind] <;> simp <;> omega
  | expired =>
    have hless : left < 300000 := hexpired.mp hkind
    constructor <;> rw [hcached, hkind] <;> simp <;> omega

end Cache.State

namespace Token

theorem expiry_lasting (value : String) {start : Int} (hstart : Time.isValid start = true)
    (n : Int) :
    (lasting value (Double.ofInt start) (.finite n)).expiry =
      if Time.isValid (start + 1000 * n) then .at (start + 1000 * n) else .invalid :=
  Expiry.ofNumber_lasting hstart n

/-- An end that is no instant never comes near. -/
theorem not_endsWithin_of_invalid {token : Token} (h : token.expiry = .invalid) (ms : Nat)
    (now : Double) : ¬ token.EndsWithin ms now := by
  rintro ⟨ends, hends, hless⟩
  rw [h] at hends
  cases hends
  cases hless

/-- A token without an instant at which it ends is fresh for ever. -/
theorem freshness_of_invalid {token : Token} (h : token.expiry = .invalid) (now : Double) :
    token.freshness now = .fresh := by
  by_contra hwanes
  exact not_endsWithin_of_invalid h 360000 now ((token.freshness_ne_fresh now).mp hwanes)

end Token

/-- The life that an answer grants, less the time that has passed since the clock was read, says
how fresh the cached token is, if the life ends within the calendar, or beyond it when more than
six minutes are left until there. A token whose life ends at no instant counts as fresh for ever,
also when its life was over before the calendar begins. -/
theorem granted_life_governs {data : Json.Members} {context : String} {start : Int}
    {token : Token} (hstart : Time.isValid start = true)
    (hgranted : Http.tokenOf data (Double.ofInt start) context = .ok token) :
    ∃ j n, Json.Members.get? data "expires_in" = some j ∧ Http.Whole j n ∧
      ∀ s : Cache.State, s.token = some token → ∀ t : Int, Time.isValid t = true →
        (Time.isValid (start + 1000 * n) = true ∨
            Time.furthest < start + 1000 * n ∧ t + 360000 ≤ Time.furthest →
          s.Counts (Double.ofInt t) (1000 * n - (t - start))) ∧
        (Time.isValid (start + 1000 * n) = false → s.freshness (Double.ofInt t) = .fresh) := by
  obtain ⟨value, j, n, -, hj, hn, rfl⟩ := Http.tokenOf_eq_ok.mp hgranted
  have hends := Token.expiry_lasting value hstart n
  refine ⟨j, n, hj, hn, fun s hs t ht => ?_⟩
  cases hreach : Time.isValid (start + 1000 * n) with
  | true =>
    rw [if_pos hreach] at hends
    refine ⟨fun _ => ?_, nofun⟩
    have hwithin (ms : Nat) (hms : ms < 2 ^ 53) := Token.endsWithin_iff hends hreach ht hms
    apply Cache.State.counts_of_endsWithin hs
    · rw [hwithin 300000 (by decide)]
      omega
    · rw [hwithin 360000 (by decide)]
      omega
  | false =>
    rw [if_neg (by simp [hreach])] at hends
    have hnever := Token.not_endsWithin_of_invalid hends
    refine ⟨fun hbeyond => ?_, fun _ => ?_⟩
    · -- The end lies behind the calendar, so all that is left of the calendar is left of the life.
      obtain ⟨hbeyond, hleft⟩ := hbeyond.resolve_left (by simp)
      apply Cache.State.counts_of_endsWithin hs
      · exact iff_of_false (hnever 300000 _) (by omega)
      · exact iff_of_false (hnever 360000 _) (by omega)
    · rw [Cache.State.freshness_of_token hs]
      exact Token.freshness_of_invalid hends _

def lasting (seconds : Int) : Json.Members :=
  [("access_token", .string "at"), ("expires_in", .number (.finite seconds))]

theorem tokenOf_lasting (start seconds : Int) (context : String) :
    Http.tokenOf (lasting seconds) (Double.ofInt start) context =
      .ok (Token.lasting "at" (Double.ofInt start) (.finite seconds)) :=
  Http.tokenOf_eq_ok.mpr ⟨"at", _, seconds, rfl, rfl, .number seconds, rfl⟩

/-- Five minutes before its end, a token that was granted for an hour is stale. -/
theorem granted_life_governs_hour :
    Time.isValid 0 = true ∧
      Http.tokenOf (lasting 3600) (Double.ofInt 0) "answer" =
        .ok (Token.lasting "at" (Double.ofInt 0) (.finite (3600 : Int))) ∧
      ({ token := some (Token.lasting "at" (Double.ofInt 0) (.finite (3600 : Int))) } :
        Cache.State).freshness (Double.ofInt 3300000) = .stale := by
  have hgranted := tokenOf_lasting 0 3600 "answer"
  refine ⟨by decide, hgranted, ?_⟩
  obtain ⟨j, n, hj, hn, hgoverns⟩ := granted_life_governs (by decide) hgranted
  obtain rfl : Json.number (.finite (3600 : Int)) = j := Option.some.inj hj
  obtain rfl : n = 3600 := by
    cases hn
    rfl
  obtain ⟨hcounts, -⟩ := hgoverns { token := some _ } rfl 3300000 (by decide)
  exact (hcounts (.inl (by decide))).stale.mpr (by decide)

/-- A token whose life was over long ago counts as fresh. -/
theorem lapsed_life_counts_as_fresh :
    let token := Token.lasting "at" (Double.ofInt 0) (.finite (-10000000000000 : Int))
    Http.tokenOf (lasting (-10000000000000)) (Double.ofInt 0) "answer" = .ok token ∧
      ({ token := some token } : Cache.State).freshness (Double.ofInt 0) = .fresh ∧
      (1000 * -10000000000000 - (0 - 0) : Int) < 300000 := by
  intro token
  have hends : token.expiry = .invalid :=
    (Token.expiry_lasting "at" (by decide) _).trans (if_neg (by decide))
  have hcached : ({ token := some token } : Cache.State).token = some token := rfl
  refine ⟨tokenOf_lasting 0 _ "answer", ?_, by decide⟩
  rw [Cache.State.freshness_of_token hcached]
  exact Token.freshness_of_invalid hends _

end Bearer
