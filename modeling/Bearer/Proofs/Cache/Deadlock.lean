import Bearer.Proofs.Cache.Course
import Bearer.Proofs.Cache.Waiting
import Mathlib.Logic.Relation

namespace Bearer.Cache

/-- The refresh from one of whose listeners a caller comes, if it does. -/
abbrev Origin := CallerId → Option RefreshId

namespace State
variable (set : Settings) (origin : Origin)

/-- One refresh waits for another: one of its listeners does. -/
def WaitsFor (s : State) (j k : RefreshId) : Prop :=
  ∃ c, origin c = some j ∧ c ∈ s.waitersOf k

/-- A listener calls the cache only while it is being called itself. -/
def FromWithin (s : State) (es : List Event) : Prop :=
  ∀ n e c k, es[n]? = some e → e.caller? = some c → origin c = some k →
    (s.moment set es n).isTelling k = true

/-- What is due is done first come, first served: whatever settled before a token came
has been processed when the token is. Failures may overtake others. -/
def InOrder (s : State) (es : List Event) : Prop :=
  ∀ n k token, es[n]? = some (.process k) →
    (s.moment set es n).stage? k = some (.settled (.ok token)) →
    ∀ j, s.Before set isSettled es j k → (s.moment set es n).isProcessed j = true

/-- Nothing is left that the cache could do by itself, and listeners wait for nothing
but the cache. -/
structure Quiet (s : State) : Prop where
  processed : ∀ k outcome, s.stage? k ≠ some (.settled outcome)
  waiting : ∀ k, s.isTelling k = true → ∃ j, s.WaitsFor origin k j

theorem isProcessed_of_isTelling {s : State} {k : RefreshId} (h : s.isTelling k = true) :
    s.isProcessed k = true := by
  obtain ⟨stage, hs, ht⟩ := (Option.any_eq_true ..).mp h
  cases stage with
  | notifying token l rest => simp [isProcessed, hs, Stage.isProcessed]
  | _ => cases ht

variable {set origin}

/-- A refresh waits only for what was not processed when its own listeners were told. -/
theorem WaitsFor.since {token : Option Token} {es : List Event} {j k : RefreshId}
    (hfrom : (initial token).FromWithin set origin es)
    (h : ((initial token).after set es).WaitsFor origin j k) :
    ∃ m, ((initial token).moment set es m).isTelling j = true ∧
      ((initial token).moment set es m).isProcessed k = false := by
  obtain ⟨c, ho, hc⟩ := h
  rw [← moment_length] at hc
  obtain ⟨m, e, he, hcall, hk⟩ := waits_since set token es _ hc
  exact ⟨m, hfrom m e c j he hcall ho, hk⟩

theorem WaitsFor.before {token : Option Token} {es : List Event} {j k : RefreshId}
    (hfrom : (initial token).FromWithin set origin es)
    (h : ((initial token).after set es).WaitsFor origin j k) :
    (initial token).Before set isProcessed es j k := by
  obtain ⟨m, hj, hk⟩ := h.since hfrom
  exact ⟨m, isProcessed_of_isTelling hj, hk⟩

theorem before_of_chain {token : Option Token} {es : List Event} {j k : RefreshId}
    (hfrom : (initial token).FromWithin set origin es)
    (h : Relation.TransGen (((initial token).after set es).WaitsFor origin) j k) :
    (initial token).Before set isProcessed es j k := by
  induction h with
  | single h => exact h.before hfrom
  | tail _ h ih => exact ih.trans (isProcessed_step set) (h.before hfrom)

/-- Listeners are told only of a token that was processed. -/
theorem telling_since (token : Option Token) (es : List Event) (n : Nat) {k : RefreshId}
    (h : ((initial token).moment set es n).isTelling k = true) :
    ∃ p t, p < n ∧ es[p]? = some (.process k) ∧
      ((initial token).moment set es p).stage? k = some (.settled (.ok t)) := by
  obtain ⟨stage, hs, ht⟩ := (Option.any_eq_true ..).mp h
  cases stage with
  | notifying t l rest =>
    have hcourse := course set token es n k
    rw [hs] at hcourse
    obtain ⟨p, hpn, ⟨he, hp⟩, -⟩ := hcourse
    exact ⟨p, t, hpn, he, hp⟩
  | _ => cases ht

theorem turn_of_settling {s : State} {e : Event} {k : RefreshId} (hk : s.isSettled k = false)
    (h : (step set e s).1.isSettled k = true) : ∃ stage, Turn set s e k stage := by
  rcases stage_step set s e k with hs | ⟨stage, hturn, -⟩
  · rw [isSettled, hs, ← isSettled, hk] at h
    cases h
  · exact ⟨stage, hturn⟩

/-- No two operations settle at once. -/
theorem before_total (token : Option Token) (es : List Event) (n : Nat) {j k : RefreshId}
    (hne : j ≠ k) (hj : ((initial token).moment set es n).isSettled j = true)
    (hk : ((initial token).moment set es n).isSettled k = true) :
    (initial token).Before set isSettled es j k ∨ (initial token).Before set isSettled es k j := by
  induction n with
  | zero => cases hj
  | succ n ih =>
    cases he : es[n]? with
    | none =>
      rw [moment_succ_of_none set _ es n he] at hj hk
      exact ih hj hk
    | some e =>
      cases hj' : ((initial token).moment set es n).isSettled j with
      | true =>
        cases hk' : ((initial token).moment set es n).isSettled k with
        | true => exact ih hj' hk'
        | false => exact .inl ⟨n, hj', hk'⟩
      | false =>
        cases hk' : ((initial token).moment set es n).isSettled k with
        | true => exact .inr ⟨n, hk', hj'⟩
        | false =>
          rw [moment_succ set _ es n e he] at hj hk
          obtain ⟨x, hx⟩ := turn_of_settling hj' hj
          obtain ⟨y, hy⟩ := turn_of_settling hk' hk
          exact absurd (hx.unique hy) hne

/-- What a refresh waits for settled after it. -/
theorem WaitsFor.settled {token : Option Token} {es : List Event} {j k : RefreshId}
    (hfrom : (initial token).FromWithin set origin es) (horder : (initial token).InOrder set es)
    (h : ((initial token).after set es).WaitsFor origin j k) :
    (initial token).Before set isSettled es j k := by
  obtain ⟨m, hj, hk⟩ := h.since hfrom
  -- Look at the moment at which j was processed: k was not, so it had not settled
  -- before j, or the order of processing would be another.
  obtain ⟨p, t, hpm, hp, hsettled⟩ := telling_since token es m hj
  have hne : k ≠ j := by
    rintro rfl
    simp [isProcessed_of_isTelling hj] at hk
  have hjp : ((initial token).moment set es p).isSettled j = true := by
    simp [isSettled, hsettled, Stage.isSettled]
  cases hkp : ((initial token).moment set es p).isSettled k with
  | false => exact ⟨p, hjp, hkp⟩
  | true =>
    rcases before_total token es p hne.symm hjp hkp with hbefore | hbefore
    · exact hbefore
    · have hprocessed := horder p j t hp hsettled k hbefore
      simp [not_isProcessed_moment set _ es k (Nat.le_of_lt hpm) hk] at hprocessed

/-- What keeps a processed refresh from its end are listeners. -/
theorem telling_of_waiting {token : Option Token} {es : List Event} {c : CallerId}
    {k : RefreshId} (hc : c ∈ ((initial token).after set es).waitersOf k)
    (hk : ((initial token).after set es).isProcessed k = true) :
    ((initial token).after set es).isTelling k = true := by
  obtain ⟨stage, hs, hp⟩ := (Option.any_eq_true ..).mp hk
  cases stage with
  | notifying token l rest => simp [isTelling, hs, Stage.isTelling]
  | finished outcome => simp [finishedAlone_after set token es k outcome hs] at hc
  | held | working | settled => cases hp

/-- What keeps an unprocessed refresh from it in a quiet state is its operation. -/
theorem Quiet.open_or_held {s : State} (h : s.Quiet origin) {c : CallerId} {k : RefreshId}
    (hc : c ∈ s.waitersOf k) (hk : s.isProcessed k = false) :
    s.stage? k = some .held ∨ s.stage? k = some .working := by
  cases hs : s.stage? k with
  | none =>
    have hlen := (stage?_eq_none s k).mp hs
    simp [waitersOf, List.getElem?_eq_none hlen] at hc
  | some stage =>
    cases stage with
    | held => exact .inl rfl
    | working => exact .inr rfl
    | settled outcome => exact absurd hs (h.processed k outcome)
    | notifying | finished => simp [isProcessed, hs, Stage.isProcessed] at hk

/-- In a quiet state the chain from one who waits ends at an operation that has not
settled. -/
theorem open_of_waiting {token : Option Token} {es : List Event}
    (hfrom : (initial token).FromWithin set origin es)
    (hquiet : ((initial token).after set es).Quiet origin) (d n : Nat) (hd : n + d = es.length)
    {c : CallerId} {k : RefreshId} (hc : c ∈ ((initial token).after set es).waitersOf k)
    (hk : ((initial token).moment set es n).isProcessed k = false) :
    ∃ j, ((initial token).after set es).stage? j = some .held ∨
      ((initial token).after set es).stage? j = some .working := by
  -- The chain goes on to refreshes that are processed ever later, so the rest of the
  -- run from where k is not processed gets shorter.
  induction d generalizing n c k with
  | zero =>
    obtain rfl : n = es.length := hd
    rw [moment_length] at hk
    exact ⟨k, hquiet.open_or_held hc hk⟩
  | succ d ih =>
    have hd' : n + 1 + d = es.length := by omega
    cases hnext : ((initial token).moment set es (n + 1)).isProcessed k with
    | false => exact ih (n + 1) hd' hc hnext
    | true =>
      have hend : ((initial token).after set es).isProcessed k = true := by
        rw [← moment_length]
        exact isProcessed_moment set _ es k (by omega) hnext
      obtain ⟨j, hj⟩ := hquiet.waiting k (telling_of_waiting hc hend)
      obtain ⟨m, hkm, hjm⟩ := hj.since hfrom
      obtain ⟨c', -, hc'⟩ := hj
      have hnm : n + 1 ≤ m := by
        refine Nat.succ_le_of_lt (Nat.lt_of_not_le fun hle => ?_)
        have hkm' := not_isProcessed_moment set _ es k hle hk
        simp [isProcessed_of_isTelling hkm] at hkm'
      exact ih (n + 1) hd' hc' (not_isProcessed_moment set _ es j hnm hjm)

end State

open State in
/-- What a listener waits for had not been processed when its own refresh had, nor had it
settled when its own refresh had settled, if processing keeps to that order. So no
refresh ever waits for itself, not even through others. Where nothing is left to be done
within and listeners wait for nothing but the cache, whoever has no answer waits in the
end for an operation that has not settled or that the executor still keeps. -/
theorem no_deadlock (set : Settings) (origin : Origin) (token : Option Token) (es : List Event)
    (hfrom : (initial token).FromWithin set origin es) :
    let s := (initial token).after set es
    (∀ j k, s.WaitsFor origin j k → (initial token).Before set isProcessed es j k) ∧
    ((initial token).InOrder set es →
      ∀ j k, s.WaitsFor origin j k → (initial token).Before set isSettled es j k) ∧
    (∀ k, ¬ Relation.TransGen (s.WaitsFor origin) k k) ∧
    (s.Quiet origin → ∀ i e c, es[i]? = some e → e.caller? = some c →
      answersTo c (((initial token).moment set es i).effects set (es.drop i)) = [] →
      ∃ k, s.stage? k = some .held ∨ s.stage? k = some .working) := by
  intro s
  refine ⟨fun j k h => h.before hfrom, fun horder j k h => h.settled hfrom horder,
    fun k h => ?_, ?_⟩
  · obtain ⟨n, hk, hk'⟩ := before_of_chain hfrom h
    simp [hk] at hk'
  · intro hquiet i e c he hc hn
    obtain ⟨k, hk⟩ := (waits_iff s c).mp (waits_of_unanswered he hc hn)
    refine open_of_waiting hfrom hquiet es.length 0 (Nat.zero_add _) hk ?_
    simp [isProcessed, stage?, initial]

/-- Two forced refreshes overlap, and the listener waits for a new one each time it is
called. -/
def nestedWaits : List Event :=
  let fresh : Token := ⟨"fresh", .never⟩
  [.listen 0, .refresh 10 none, .refresh 11 none, .settle 0 (.ok fresh), .settle 1 (.ok fresh),
    .process 0, .refresh 12 none, .process 1, .refresh 13 none]

def nestedOrigin : Origin
  | 12 => some 0
  | 13 => some 1
  | _ => none

open State in
theorem no_deadlock_nested :
    (initial none).FromWithin {} nestedOrigin nestedWaits ∧
    (initial none).InOrder {} nestedWaits ∧
    (initial none).Before {} isSettled nestedWaits 0 2 ∧
    ((initial none).after {} nestedWaits).Quiet nestedOrigin ∧
    ∃ k, ((initial none).after {} nestedWaits).stage? k = some .held ∨
      ((initial none).after {} nestedWaits).stage? k = some .working := by
  have hfrom : (initial none).FromWithin {} nestedOrigin nestedWaits := by
    intro n e c k he hc ho
    rcases n with _ | _ | _ | _ | _ | _ | _ | _ | _ | n <;> cases he <;> cases hc <;> cases ho <;>
      rfl
  have horder : (initial none).InOrder {} nestedWaits := by
    rintro n k token he hk j ⟨m, hj, hk'⟩
    have hearly (hs : ((initial none).moment {} nestedWaits 5).isSettled k = true) : m < 5 := by
      refine Nat.lt_of_not_le fun hle => ?_
      simp [moment_keeps {} (p := fun s => s.isSettled k = true)
        (fun s e => isSettled_step {} s e k) _ _ hle hs] at hk'
    rcases n with _ | _ | _ | _ | _ | _ | _ | _ | _ | n <;> cases he
    all_goals
      have hm := hearly rfl
      rcases m with _ | _ | _ | _ | _ | m <;> rcases j with _ | _ | j <;>
        first | rfl | (cases hj; done) | cases hk' | omega
  have hquiet : ((initial none).after {} nestedWaits).Quiet nestedOrigin := by
    constructor
    · intro k outcome hk
      rcases k with _ | _ | _ | _ | k <;> cases hk
    · intro k hk
      rcases k with _ | _ | _ | _ | k
      · exact ⟨2, 12, rfl, by decide⟩
      · exact ⟨3, 13, rfl, by decide⟩
      all_goals cases hk
  obtain ⟨-, hsettled, -, hopen⟩ := no_deadlock {} nestedOrigin none nestedWaits hfrom
  exact ⟨hfrom, horder, hsettled horder 0 2 ⟨12, rfl, by decide⟩, hquiet,
    hopen hquiet 1 _ 10 rfl rfl (by decide)⟩

end Bearer.Cache
