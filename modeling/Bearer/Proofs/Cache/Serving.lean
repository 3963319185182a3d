import Bearer.Proofs.Cache.Aborts
import Bearer.Proofs.Freshness

namespace Bearer.Cache

theorem mem_answersTo {c : CallerId} {outcome : Result (Option Token)} {effects : List Effect} :
    outcome ∈ answersTo c effects ↔ .answer c outcome ∈ effects := by
  simp only [answersTo, List.mem_filterMap]
  constructor
  · rintro ⟨effect, hmem, heq⟩
    cases effect with
    | answer d reply =>
      by_cases hd : d = c
      · simp only [Effect.answer?, hd, ↓reduceIte, Option.some.injEq] at heq
        rwa [hd, heq] at hmem
      · simp [Effect.answer?, hd] at heq
    | _ => cases heq
  · intro hmem
    exact ⟨_, hmem, by simp [Effect.answer?]⟩

namespace State
variable (set : Settings)

theorem reply_of_serves {s : State} {second : Double} {t : Token} (h : s.Serves second t)
    (c : CallerId) (how : Start) (first : Double) (aborted : Option Thrown) :
    s.reply? (.fetch c how first second aborted) =
      some ((aborted.map denial).getD (.ok (some t))) := by
  obtain ⟨ht, hx⟩ := (s.serves_iff second t).mp h
  simp [reply?, hx, ht]

theorem reply_of_not_serves {s : State} {second : Double} (h : ¬ ∃ t, s.Serves second t)
    (c : CallerId) (how : Start) (first : Double) (aborted : Option Thrown) :
    s.reply? (.fetch c how first second aborted) = aborted.map denial := by
  have hx : s.freshness second = .expired := by
    rw [← freshness_ne_expired, ne_eq, Decidable.not_not] at h
    exact h
  simp [reply?, hx]

theorem opens_fetch (s : State) (c : CallerId) (how : Start) (first second : Double)
    (aborted : Option Thrown) :
    (s.slot = none ∧ (s.Wanes first ∨ ¬ ∃ t, s.Serves second t) →
      s.opens (.fetch c how first second aborted) = some how) ∧
    (¬ (s.slot = none ∧ (s.Wanes first ∨ ¬ ∃ t, s.Serves second t)) →
      s.opens (.fetch c how first second aborted) = none) := by
  rw [← freshness_ne_fresh, ← freshness_ne_expired, ne_eq, ne_eq, Decidable.not_not]
  exact ⟨fun h => if_pos h, fun h => if_neg h⟩

theorem waitersOf_replied {s : State} {e : Event} {c : CallerId}
    {reply : Result (Option Token)} (hc : e.caller? = some c) (hr : s.reply? e = some reply)
    (k : RefreshId) : (step set e s).1.waitersOf k = s.waitersOf k := by
  simp [waitersOf_call set s e c hc, hr]

variable {set} in
/-- Whoever is answered with a token by its own call could be served it. -/
theorem serves_of_answer {s : State} {c : CallerId} {how : Start} {first second : Double}
    {aborted : Option Thrown} {t : Token}
    (h : .answer c (.ok (some t)) ∈ (step set (.fetch c how first second aborted) s).2) :
    s.Serves second t := by
  rw [← mem_answersTo, answersTo_call set s _ c rfl] at h
  by_cases hserves : ∃ u, s.Serves second u
  · obtain ⟨u, hu⟩ := hserves
    rw [reply_of_serves hu] at h
    cases aborted with
    | none =>
      have htu : t = u := by simpa using h
      exact htu ▸ hu
    | some reason => simp [denial] at h
  · rw [reply_of_not_serves hserves] at h
    cases aborted <;> simp [denial] at h

end State

open State in
/-- A call for a token is served the cached one, at once, if at its second reading of the
clock five minutes or more are left of it; otherwise it waits for the refresh in the slot,
or for its own. It starts one if none is in the slot and at the first reading the token is
missing or has less than six minutes left, or the call cannot be served at the second; its
operation is then all that is to be run or kept, and otherwise there is none. A
signal that was aborted before the call changes only what the caller is told. In no run is
anybody served a token that has less than five minutes left, and what was served stays
the only answer, whatever becomes of the refresh in the background. -/
theorem serving_decision (set : Settings) (token : Option Token) (es : List Event)
    (c : CallerId) (how : Start) (first second : Double) (aborted : Option Thrown) :
    let s := (initial token).after set es
    let call := Event.fetch c how first second aborted
    let s' := (step set call s).1
    let answers := answersTo c (step set call s).2
    (aborted = none →
      (∀ t, answers = [.ok (some t)] ↔ s.Serves second t) ∧
      ((∃ t, s.Serves second t) → ∀ k, s'.waitersOf k = s.waitersOf k) ∧
      ((¬ ∃ t, s.Serves second t) → answers = [] ∧
        ∃ k, (s.slot = some k ∨ s.slot = none ∧ k = s.refreshes.length) ∧ s'.slot = some k ∧
          ∀ j, s'.waitersOf j = if j = k then s.waitersOf j ++ [c] else s.waitersOf j)) ∧
    (∀ reason, aborted = some reason →
      answers = [denial reason] ∧ ∀ k, s'.waitersOf k = s.waitersOf k) ∧
    (s.slot = none ∧ (s.Wanes first ∨ ¬ ∃ t, s.Serves second t) →
      s'.refreshes.length = s.refreshes.length + 1 ∧ s'.slot = some s.refreshes.length ∧
        s'.stage? s.refreshes.length = some how.stage ∧
        (step set call s).2.filter Effect.isOperation = [how.effect s.refreshes.length]) ∧
    (¬ (s.slot = none ∧ (s.Wanes first ∨ ¬ ∃ t, s.Serves second t)) →
      s'.refreshes.length = s.refreshes.length ∧ s'.slot = s.slot ∧
        (step set call s).2.filter Effect.isOperation = []) ∧
    (∀ n d how first second aborted t,
      es[n]? = some (.fetch d how first second aborted) →
      .answer d (.ok (some t)) ∈
        (step set (.fetch d how first second aborted) ((initial token).moment set es n)).2 →
      ((initial token).moment set es n).Serves second t) ∧
    (aborted = none → s.waits c = false → ∀ t, s.Serves second t →
      ∀ later : List Event, (∀ e ∈ later, e.caller? ≠ some c) →
        answersTo c (s.effects set (call :: later)) = [.ok (some t)]) := by
  intro s call s' answers
  have hlatest : s.SlotLatest := slotLatest_after set token es
  have hanswers : answers = (s.reply? call).toList := by
    have h := answersTo_call set s call c rfl c
    simpa using h
  have hopens := s.opens_fetch c how first second aborted
  refine ⟨?_, ?_, ?_, ?_, ?_, ?_⟩
  · rintro rfl
    refine ⟨fun t => ⟨fun h => ?_, fun h => ?_⟩, ?_, fun hnone => ?_⟩
    · have hmem : Except.ok (some t) ∈ answers := by simp [h]
      exact serves_of_answer (mem_answersTo.mp hmem)
    · rw [hanswers, reply_of_serves h]
      rfl
    · rintro ⟨t, h⟩ k
      exact waitersOf_replied set rfl (reply_of_serves h ..) k
    · have hr : s.reply? call = none := reply_of_not_serves hnone c how first none
      refine ⟨by rw [hanswers, hr]; rfl, ?_⟩
      obtain ⟨k, hk, hslot, hwaiters⟩ := waits_for set hlatest rfl hr
      refine ⟨k, ?_, hslot, hwaiters⟩
      cases ho : s.opens call with
      | none => exact .inl (by simpa [ho] using hk)
      | some start => exact .inr ⟨slot_of_opens rfl ho, by simpa [ho] using hk⟩
  · rintro reason rfl
    have hr : s.reply? call = some (denial reason) :=
      reply_of_aborted s rfl (fun _ _ _ => nofun)
    exact ⟨by rw [hanswers, hr]; rfl, waitersOf_replied set rfl hr⟩
  · intro h
    obtain ⟨hlength, hslot, hstage⟩ := step_opens set (hopens.1 h)
    exact ⟨hlength, hslot, hstage, by rw [operations_call set rfl, hopens.1 h]; rfl⟩
  · intro h
    obtain ⟨hlength, hslot⟩ := step_opens_not set rfl (hopens.2 h)
    exact ⟨hlength, hslot, by rw [operations_call set rfl, hopens.2 h]; rfl⟩
  · intro n d how first second aborted t _ hmem
    exact serves_of_answer hmem
  · rintro rfl hidle t hserves later hcalls
    obtain ⟨hreply, hgone⟩ := replied set hidle rfl (reply_of_serves hserves c how first none)
    rw [effects_cons, answersTo_append, hreply, (silent set hgone hcalls).1]
    rfl

/-- A token that lapses between the two readings of the clock: fresh at the first, expired
at the second. -/
def lapsing : Token := ⟨"lapsing", .at 1000000⟩

open State in
/-- The call waits for a refresh that its first reading would not have started. -/
theorem serving_decision_lapsing :
    ¬ (initial (some lapsing)).Wanes 0 ∧ (¬ ∃ t, (initial (some lapsing)).Serves 900000 t) ∧
    (step {} (.fetch 10 .now 0 900000 none) (initial (some lapsing))).1.refreshes.length = 1 ∧
    10 ∈ (step {} (.fetch 10 .now 0 900000 none) (initial (some lapsing))).1.waitersOf 0 := by
  have hfresh : ¬ (initial (some lapsing)).Wanes 0 := by
    rw [← freshness_ne_fresh, ne_eq, Decidable.not_not]
    decide +kernel
  have hexpired : ¬ ∃ t, (initial (some lapsing)).Serves 900000 t := by
    rw [← freshness_ne_expired, ne_eq, Decidable.not_not]
    decide +kernel
  have hdecision := serving_decision {} (some lapsing) [] 10 .now 0 900000 none
  simp only [after_nil] at hdecision
  obtain ⟨hserved, -, hstarts, -⟩ := hdecision
  obtain ⟨hlength, hslot, -⟩ := hstarts ⟨rfl, .inr hexpired⟩
  obtain ⟨-, k, -, hk, hwaiters⟩ := (hserved trivial).2.2 hexpired
  obtain rfl := Option.some.inj (hslot.symm.trans hk)
  have hwaits := hwaiters (initial (some lapsing)).refreshes.length
  rw [if_pos rfl] at hwaits
  exact ⟨hfresh, hexpired, hlength, hwaits ▸ List.mem_append_right _ List.mem_cons_self⟩

end Bearer.Cache
