import Bearer.Proofs.Cache.Aborts
import Bearer.Proofs.Cache.Installed

namespace Bearer.Cache

namespace State
variable (set : Settings)

def HasFailed (s : State) (k : RefreshId) (failure : Thrown) : Prop :=
  s.stage? k = some (.settled (.error failure)) ∨ s.stage? k = some (.finished (.error failure))

/-- How fresh a call finds the cached token when it looks whether a refresh is due. -/
def finds? (s : State) : Event → Option Freshness
  | .fetch _ _ first _ _ => some (s.freshness first)
  | .refreshIfExpired _ reading _ => some (s.freshness reading)
  | _ => none

theorem hasFailed_step {s : State} {k : RefreshId} {failure : Thrown} (e : Event)
    (h : s.HasFailed k failure) : (step set e s).1.HasFailed k failure := by
  rcases h with h | h
  · rcases stage_step set s e k with hs | ⟨stage, hturn, hs⟩
    · exact .inl (hs.trans h)
    · cases hturn with
      | started ho => simp [(stage?_eq_none s _).mpr (Nat.le_refl _)] at h
      | failed hk =>
        obtain rfl : _ = failure := by simpa using hk.symm.trans h
        exact .inr hs
      | launched hk | settled hk | installed hk | told hk hf | untold hk hf => simp [hk] at h
  · exact .inr (finished_step set s e k _ h)

theorem callsFor_of_hasFailed {s : State} {k : RefreshId} {failure : Thrown} (e : Event)
    (h : s.HasFailed k failure) : callsFor k (step set e s).2 = [] := by
  rcases turn_or_not set s e k with ⟨-, hcalls, -⟩ | ⟨stage, hturn⟩
  · exact hcalls
  · rw [hturn.calls]
    have hafter := hasFailed_step set e h
    rw [HasFailed, hturn.stage] at hafter
    rcases hafter with hs | hs
    · obtain rfl := Option.some.inj hs
      rfl
    · obtain rfl := Option.some.inj hs
      rfl

variable {set}

/-- A refresh that fails is not processed before, and has failed from then on. -/
theorem failed_since {token : Option Token} {es : List Event} {k : RefreshId} {failure : Thrown}
    (h : (initial token).Brought set es k (.error failure)) :
    ∃ n, ((initial token).moment set es n).isProcessed k = false ∧
      es[n]? ≠ some (.process k) ∧
      ((initial token).moment set es (n + 1)).stage? k = some (.settled (.error failure)) ∧
      ∀ m, n < m → ((initial token).moment set es m).HasFailed k failure := by
  obtain ⟨n, e, he, hway⟩ := h
  have hfrom (hs : ((initial token).moment set es (n + 1)).stage? k =
      some (.settled (.error failure))) (m : Nat) (hm : n < m) :
      ((initial token).moment set es m).HasFailed k failure :=
    moment_keeps set (p := fun s => s.HasFailed k failure)
      (fun s e => hasFailed_step set e) _ es hm (.inl hs)
  rcases hway with ⟨rfl, hk⟩ | ⟨failure', ho, rfl, hf⟩
  · have hturn : Turn set ((initial token).moment set es n) (.settle k (.error failure)) k _ :=
      .settled hk
    have hs := hturn.moment he
    exact ⟨n, by simp [isProcessed, hk, Stage.isProcessed], by simp [he], hs, hfrom hs⟩
  · obtain rfl : failure = failure' := by simpa using hf
    have hturn : Turn set ((initial token).moment set es n) e _ _ := .started ho
    have hs := hturn.moment he
    have hnone := (stage?_eq_none ((initial token).moment set es n) _).mpr (Nat.le_refl _)
    refine ⟨n, by simp [isProcessed, hnone], ?_, hs, hfrom hs⟩
    rw [he]
    rintro ⟨rfl⟩
    cases ho

theorem not_installed_of_failed {token : Option Token} {es : List Event} {k : RefreshId}
    {failure : Thrown} (h : (initial token).Brought set es k (.error failure)) (p : Nat)
    (t : Token) : ¬ (initial token).Processed set es p k (.ok t) := by
  intro hp
  obtain ⟨n, hbefore, hne, -, hsince⟩ := failed_since h
  rcases Nat.lt_trichotomy n p with hlt | rfl | hlt
  · rcases hsince p hlt with hs | hs <;> simp [hp.2] at hs
  · exact hne hp.1
  · simp [hp.since hlt] at hbefore

theorem token_of_failed {token : Option Token} {es : List Event} {k : RefreshId}
    {failure : Thrown} (h : (initial token).Brought set es k (.error failure)) (n : Nat) :
    ((initial token).moment set es (n + 1)).token = ((initial token).moment set es n).token ∨
      ∃ j t, j ≠ k ∧ (initial token).Processed set es n j (.ok t) := by
  rcases token_moment_succ set (initial token) es n with ⟨j, t, hj⟩ | hsame
  · refine .inr ⟨j, t, ?_, hj⟩
    rintro rfl
    exact not_installed_of_failed h n t hj
  · exact .inl hsame

theorem callsFor_of_failed {token : Option Token} {es : List Event} {k : RefreshId}
    {failure : Thrown} (h : (initial token).Brought set es k (.error failure)) :
    callsFor k ((initial token).effects set es) = [] := by
  obtain ⟨n, -, -, hs, hsince⟩ := failed_since h
  -- Up to the failure no listener was due, and from then on none is.
  have hcourse := course set token es (n + 1) k
  rw [hs] at hcourse
  rw [effects_split set (initial token) es (n + 1), callsFor_append,
    callsFor_effects set (p := fun s => s.HasFailed k failure)
      (fun s e hf => ⟨callsFor_of_hasFailed set e hf, hasFailed_step set e hf⟩)
      (hsince (n + 1) (Nat.lt_succ_self n)),
    List.append_nil]
  exact hcourse.2

theorem not_in_slot_of_processed {s : State} (hlatest : s.SlotLatest) {k : RefreshId}
    (hk : s.isProcessed k = true) : s.slot ≠ some k := by
  intro hslot
  simp [not_isProcessed_of_isOpen ((hlatest k).mp hslot).2] at hk

/-- A call that finds the token wanting, and no refresh in the slot, starts one. -/
theorem opens_of_finds {s : State} {e : Event} {f : Freshness} (hslot : s.slot = none)
    (hf : s.finds? e = some f) (hne : f ≠ .fresh) : s.opens e = some e.how := by
  cases e with
  | fetch caller how first second aborted =>
    obtain rfl : s.freshness first = f := Option.some.inj hf
    exact if_pos ⟨hslot, .inl hne⟩
  | refreshIfExpired caller reading aborted =>
    obtain rfl : s.freshness reading = f := Option.some.inj hf
    exact if_pos ⟨hslot, hne⟩
  | _ => cases hf

/-- Whoever waits for the refresh that its own call has started gets the outcome of that. -/
theorem answered_by_own {token : Option Token} {es : List Event} {e : Event} {c : CallerId}
    {how : Start} (hc : e.caller? = some c)
    (ho : ((initial token).after set es).opens e = some how)
    (hidle : ((initial token).after set es).waits c = false)
    (hwaits : (step set e ((initial token).after set es)).1.waits c = true)
    {later : List Event} (hother : ∀ f ∈ later, f.party? ≠ some c) :
    let s := (initial token).after set es
    let k := s.refreshes.length
    (answersTo c (s.effects set (e :: later)) = [] ∧
      ∀ outcome, (s.after set (e :: later)).stage? k ≠ some (.finished outcome)) ∨
    ∃ outcome, answersTo c (s.effects set (e :: later)) = [outcome.map some] ∧
      (s.after set (e :: later)).stage? k = some (.finished outcome) := by
  intro s k
  obtain ⟨j, hj⟩ := (waits_iff _ c).mp hwaits
  have hnot : c ∉ s.waitersOf j := fun hmem => by simp [(waits_iff s c).mpr ⟨j, hmem⟩, s] at hidle
  obtain ⟨-, hslot⟩ := joins set hj hnot
  obtain rfl : k = j := Option.some.inj ((step_opens set ho).2.1.symm.trans hslot)
  obtain ⟨hnothing, honce⟩ := waitsOnce_of_call hc hidle hj
  rw [effects_cons, answersTo_append, hnothing, List.nil_append]
  rcases honce.run set hother with ⟨hnil, hstill⟩ | ⟨outcome, hone, hover, -⟩
  · have halone := finishedAlone_after set token (es ++ e :: later)
    rw [after_append] at halone
    exact .inl ⟨hnil, hstill.not_finished halone⟩
  · exact .inr ⟨outcome, hone, hover⟩

end State

open State in
/-- In every state that a cache gets into, the cached token is that of the success processed
last, or the one it was made with. A refresh whose operation has failed, in whatever way,
has no listener called and leaves the token alone, and with it the headers, which are made
of the token; once processed it is not in the slot. So a call that finds the token
not fresh and the slot empty starts a refresh that is new, whose operation is all that is to be run
or kept after the call, and if the call has to wait its answer is the outcome of that one. -/
theorem failures_leave_no_trace (set : Settings) (token : Option Token) (es : List Event) :
    let s := (initial token).after set es
    ((∃ p k t, (initial token).Processed set es p k (.ok t) ∧
        (∀ q j u, p < q → ¬ (initial token).Processed set es q j (.ok u)) ∧ s.token = some t) ∨
      ((∀ p k t, ¬ (initial token).Processed set es p k (.ok t)) ∧ s.token = token)) ∧
    (∀ k failure, (initial token).Brought set es k (.error failure) →
      callsFor k ((initial token).effects set es) = [] ∧
      ∀ n, ((initial token).moment set es (n + 1)).token = ((initial token).moment set es n).token ∨
        ∃ j t, j ≠ k ∧ (initial token).Processed set es n j (.ok t)) ∧
    (∀ k, s.isProcessed k = true → s.slot ≠ some k) ∧
    (∀ e c f, e.caller? = some c → s.slot = none → s.finds? e = some f → f ≠ .fresh →
      let k := s.refreshes.length
      s.stage? k = none ∧ (step set e s).1.stage? k = some e.how.stage ∧
      (step set e s).1.slot = some k ∧
      (step set e s).2.filter Effect.isOperation = [e.how.effect k] ∧
      (s.waits c = false → (step set e s).1.waits c = true →
        ∀ later : List Event, (∀ f ∈ later, f.party? ≠ some c) →
        (answersTo c (s.effects set (e :: later)) = [] ∧
          ∀ outcome, (s.after set (e :: later)).stage? k ≠ some (.finished outcome)) ∨
        ∃ outcome, answersTo c (s.effects set (e :: later)) = [outcome.map some] ∧
          (s.after set (e :: later)).stage? k = some (.finished outcome))) := by
  intro s
  refine ⟨?_, ?_, ?_, ?_⟩
  · have hlast := token_moment set (initial token) es es.length
    rw [moment_length] at hlast
    rcases hlast with ⟨p, k, t, -, hp, hlast, htoken⟩ | ⟨hnone, htoken⟩
    · refine .inl ⟨p, k, t, hp, fun q j u hpq hq => ?_, htoken⟩
      exact hlast q j u hpq hq.lt_length hq
    · refine .inr ⟨fun p k t hp => ?_, htoken⟩
      exact hnone p k t hp.lt_length hp
  · intro k failure h
    exact ⟨callsFor_of_failed h, token_of_failed h⟩
  · intro k hk
    exact not_in_slot_of_processed (slotLatest_after set token es) hk
  · intro e c f hc hslot hf hne k
    have ho := opens_of_finds hslot hf hne
    obtain ⟨-, htaken, hstage⟩ := step_opens set ho
    refine ⟨(stage?_eq_none s k).mpr (Nat.le_refl _), hstage, htaken, ?_, ?_⟩
    · rw [operations_call set hc, ho]
      rfl
    intro hidle hwaits later hother
    exact answered_by_own hc ho hidle hwaits hother

def failing : List Event :=
  [.listen 0, .refresh 10 none, .settle 0 (.error (.plain .plain "offline")), .process 0]

open State in
/-- The token that was cached stays, and nobody is called. Without a token the next call
gets the one of a refresh of its own. -/
theorem failures_leave_no_trace_retried :
    ((initial (some ⟨"kept", .never⟩)).after {} failing).token = some ⟨"kept", .never⟩ ∧
    callsFor 0 ((initial (some ⟨"kept", .never⟩)).effects {} failing) = [] ∧
    answersTo 11 (((initial none).after {} failing).effects {}
      [.fetch 11 .now 0 0 none, .settle 1 (.ok ⟨"fresh", .never⟩), .process 1,
        .listenerDone 1 none]) = [.ok (some ⟨"fresh", .never⟩)] := by
  obtain ⟨htoken, hfailed, -⟩ := failures_leave_no_trace {} (some ⟨"kept", .never⟩) failing
  obtain ⟨-, -, -, hcall⟩ := failures_leave_no_trace {} none failing
  have hnobody : callsFor 0 ((initial (some ⟨"kept", .never⟩)).effects {} failing) = [] :=
    (hfailed 0 (.plain .plain "offline") ⟨2, _, rfl, .inl ⟨rfl, rfl⟩⟩).1
  obtain ⟨-, -, -, -, hown⟩ := hcall (.fetch 11 .now 0 0 none) 11 .expired rfl rfl rfl nofun
  have hanswer := hown rfl rfl
    [.settle 1 (.ok ⟨"fresh", .never⟩), .process 1, .listenerDone 1 none]
    (by simp [Event.party?, Event.caller?])
  refine ⟨?_, hnobody, ?_⟩
  · rcases htoken with ⟨p, k, t, hp, -⟩ | ⟨-, hsame⟩
    · obtain rfl : p = 3 := by
        rcases p with _ | _ | _ | _ | p <;> first | rfl | cases hp.1
      cases hp.1
      cases hp.2
    · exact hsame
  · rcases hanswer with ⟨-, hopen⟩ | ⟨outcome, hone, hover⟩
    · exact absurd rfl (hopen (.ok ⟨"fresh", .never⟩))
    · cases hover
      exact hone

end Bearer.Cache
