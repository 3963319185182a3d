import Bearer.Proofs.Cache.Installed
import Bearer.Proofs.Cache.Waiting
import Bearer.Proofs.Report

namespace Bearer.Cache

namespace Settings
variable {set : Settings} {failure : Option Thrown}

/-- What a listener has ended with can be told: it has not failed, or there is no log, or the
log has a text for the failure. -/
def CanTell (set : Settings) (failure : Option Thrown) : Prop :=
  ∃ said, set.complaint failure = .ok said

theorem canTell_of_tellable
    (h : ∀ v, failure = some v → set.logging = true → v.isTellable false = true) :
    set.CanTell failure := by
  cases failure with
  | none => exact ⟨[], rfl⟩
  | some v =>
    cases hlog : set.logging with
    | false => exact ⟨[], by simp [complaint, hlog]⟩
    | true =>
      obtain ⟨entry, hentry⟩ := Log.warning_ok "credentials change listener failed" (h v rfl hlog)
      exact ⟨[.log entry], by simp [complaint, hlog, hentry, Except.map]⟩

end Settings

@[simp] theorem Stage.calling?_telling (token : Token) (left : List ListenerId) :
    (Stage.telling token left).calling? = left.head? := by
  cases left <;> rfl

namespace State
variable {set : Settings}

section Step
variable {s : State} {k : RefreshId} {failure : Option Thrown} {t : Token} {l : ListenerId}
  {rest : List ListenerId} (hk : s.stage? k = some (.notifying t l rest))
include hk

/-- After a failure that can be told the next listener is called, or the refresh is over. -/
theorem step_told (h : set.CanTell failure) :
    let o := step set (.listenerDone k failure) s
    o.1.stage? k = some (.telling t rest) ∧ callsFor k o.2 = rest.head?.toList ∧
    ∀ c, answersTo c o.2 =
      if rest = [] then List.replicate ((s.waitersOf k).count c) (.ok (some t)) else [] := by
  intro o
  obtain ⟨said, hsaid⟩ := h
  have hturn : Turn set s (.listenerDone k failure) k _ := .told hk hsaid
  refine ⟨hturn.stage, by simp [o, hturn.calls], fun c => ?_⟩
  have hends : s.ends set (.listenerDone k failure) =
      if rest = [] then some (k, .ok t) else none := by
    simp [ends, hk, hsaid]
  rw [(inner_step set s _ rfl c).2, hends]
  by_cases hrest : rest = [] <;> simp [hrest, Except.map]

/-- A failure that cannot be told ends the refresh, whoever was left to be called. -/
theorem step_untold {fault : Thrown} (h : set.complaint failure = .error fault) :
    let o := step set (.listenerDone k failure) s
    o.1.stage? k = some (.finished (.error fault)) ∧ callsFor k o.2 = [] ∧
    o.1.token = s.token ∧
    ∀ c, answersTo c o.2 =
      List.replicate ((s.waitersOf k).count c) (.error fault) := by
  intro o
  have hturn : Turn set s (.listenerDone k failure) k _ := .untold hk h
  refine ⟨hturn.stage, by simp [o, hturn.calls, Stage.calling?], ?_, fun c => ?_⟩
  · simp [o, token_step, installs?]
  · rw [(inner_step set s _ rfl c).2, hturn.ends]
    rfl

end Step

/-- Once its token has been processed a refresh is calling one of its listeners, or it has
called them all, and all have ended. -/
theorem calling_or_over {token : Option Token} {es : List Event} {p : Nat} {k : RefreshId}
    {t : Token} (hp : (initial token).Processed set es p k (.ok t))
    (htold : ∀ failure, .listenerDone k failure ∈ es → set.CanTell failure) :
    let s := (initial token).after set es
    let called := callsFor k ((initial token).effects set es)
    let ended := returned set k (initial token) es
    let listeners := ((initial token).moment set es p).listeners
    (∃ l rest, s.stage? k = some (.notifying t l rest) ∧ called = ended ++ [l] ∧
      listeners = called ++ rest) ∨
    (s.stage? k = some (.finished (.ok t)) ∧ called = listeners ∧ ended = listeners) := by
  intro s called ended listeners
  have hprocessed : s.isProcessed k = true := by
    have h := hp.since hp.lt_length
    rwa [moment_length] at h
  obtain ⟨stage, hs, hstage⟩ := (Option.any_eq_true ..).mp hprocessed
  cases stage with
  | notifying u l rest =>
    have hcourse := course set token es es.length k
    have hcalled := called_eq set token es es.length k
    rw [moment_length, hs] at hcourse hcalled
    obtain ⟨q, -, hq, hlisteners⟩ := hcourse
    obtain ⟨rfl, hsame⟩ := hp.unique hq
    cases hsame
    simp only [State.called, List.take_length] at hlisteners hcalled
    exact .inl ⟨l, rest, hs, hcalled, hlisteners⟩
  | finished outcome =>
    rcases finished_course set token es k outcome hs with hu | ⟨q, hq, -, hcalls⟩
    · obtain ⟨failure, fault, hmem, hfault, -⟩ := hu
      obtain ⟨said, hsaid⟩ := htold failure hmem
      simp [hsaid] at hfault
    · obtain ⟨rfl, rfl⟩ := hp.unique hq
      obtain ⟨hcalled, hended⟩ := hcalls t rfl
      exact .inr ⟨hs, hcalled, hended⟩
  | _ => cases hstage

/-- Whoever waits for a refresh whose token has been processed gets that token. -/
theorem answered_with_token {token : Option Token} {es : List Event} {p i : Nat} {k : RefreshId}
    {t : Token} {e : Event} {c : CallerId}
    (hp : (initial token).Processed set es p k (.ok t))
    (htold : ∀ failure, .listenerDone k failure ∈ es → set.CanTell failure)
    (he : es[i]? = some e) (hc : e.caller? = some c)
    (hidle : ((initial token).moment set es i).waits c = false)
    (hwaits : c ∈ ((initial token).moment set es (i + 1)).waitersOf k)
    (hother : ∀ f ∈ es.drop (i + 1), f.party? ≠ some c) :
    let s := (initial token).after set es
    let answers := answersTo c (((initial token).moment set es i).effects set (es.drop i))
    (answers = [] ∧ ∃ l rest, s.stage? k = some (.notifying t l rest)) ∨
    (answers = [.ok (some t)] ∧ s.stage? k = some (.finished (.ok t))) := by
  intro s answers
  have hstage := calling_or_over hp htold
  rcases since_call set he hc hidle hwaits hother with
    ⟨hnil, hwaiting⟩ | ⟨outcome, hone, hover, -⟩
  · rcases hstage with ⟨l, rest, hs, -⟩ | ⟨hs, -⟩
    · exact .inl ⟨hnil, l, rest, hs⟩
    · exact absurd hs (hwaiting.not_finished (finishedAlone_after set token es) _)
  · rcases hstage with ⟨l, rest, hs, -⟩ | ⟨hs, -⟩
    · cases hs.symm.trans hover
    · cases hs.symm.trans hover
      exact .inr ⟨hone, hs⟩

/-- From a failure that cannot be told on, the refresh calls nobody. -/
theorem left_out {token : Option Token} {es : List Event} {n : Nat} {k : RefreshId} {t : Token}
    {l : ListenerId} {rest : List ListenerId} {failure : Option Thrown} {fault : Thrown}
    (he : es[n]? = some (.listenerDone k failure))
    (hk : ((initial token).moment set es n).stage? k = some (.notifying t l rest))
    (h : set.complaint failure = .error fault) :
    ((initial token).after set es).stage? k = some (.finished (.error fault)) ∧
    ∃ p, (initial token).Processed set es p k (.ok t) ∧
      ((initial token).moment set es p).listeners =
        callsFor k ((initial token).effects set es) ++ rest := by
  obtain ⟨hover, hnone, -⟩ := step_untold hk h
  rw [← moment_succ set _ es n _ he] at hover
  have hcourse := course set token es n k
  rw [hk] at hcourse
  obtain ⟨p, -, hp, hlisteners⟩ := hcourse
  have hafter := after_keeps set (p := fun s => s.stage? k = some (.finished _))
    (fun s e => finished_step set s e k _) _ (es.drop (n + 1)) hover
  rw [after_drop] at hafter
  refine ⟨hafter, p, hp, ?_⟩
  rw [hlisteners, effects_split set (initial token) es (n + 1), callsFor_append,
    callsFor_of_finished hover, List.append_nil]
  have hcalled := called_succ set (initial token) es n _ he k
  rw [hnone, List.append_nil] at hcalled
  rw [← hcalled, called]

end State

open State in
/-- What a listener fails with does not touch the refresh if it can be told: always when there
is no log, and otherwise unless there is a big integer in a graph, the thrown object writes
itself as nothing, or a function fails as an object in a graph writes itself. An error that is
among its own causes cannot be told either, but no value here is such. The next listener is
called all the same, and when all have been, everyone who waits gets the token. A failure that
cannot be told ends the refresh in place of the token: the token stays installed, but the
waiters get the fault, and no listener is called any more. -/
theorem listener_failures_isolated (set : Settings) (token : Option Token) (es : List Event) :
    let s := (initial token).after set es
    (∀ v : Thrown, set.logging = false ∨ v.isTellable false = true → set.CanTell (some v)) ∧
    (∀ k t l rest failure, s.stage? k = some (.notifying t l rest) → set.CanTell failure →
      let o := step set (.listenerDone k failure) s
      o.1.stage? k = some (.telling t rest) ∧ callsFor k o.2 = rest.head?.toList ∧
      ∀ c, answersTo c o.2 =
        if rest = [] then List.replicate ((s.waitersOf k).count c) (.ok (some t)) else []) ∧
    (∀ p k t, (initial token).Processed set es p k (.ok t) →
      (∀ failure, .listenerDone k failure ∈ es → set.CanTell failure) →
      let called := callsFor k ((initial token).effects set es)
      let ended := returned set k (initial token) es
      let listeners := ((initial token).moment set es p).listeners
      ((∃ l rest, s.stage? k = some (.notifying t l rest) ∧ called = ended ++ [l] ∧
          listeners = called ++ rest) ∨
        (s.stage? k = some (.finished (.ok t)) ∧ called = listeners ∧ ended = listeners)) ∧
      ∀ i e c, es[i]? = some e → e.caller? = some c →
        ((initial token).moment set es i).waits c = false →
        c ∈ ((initial token).moment set es (i + 1)).waitersOf k →
        (∀ f ∈ es.drop (i + 1), f.party? ≠ some c) →
        let answers := answersTo c (((initial token).moment set es i).effects set (es.drop i))
        (answers = [] ∧ ∃ l rest, s.stage? k = some (.notifying t l rest)) ∨
        (answers = [.ok (some t)] ∧ s.stage? k = some (.finished (.ok t)))) ∧
    (∀ n k t l rest failure fault, es[n]? = some (.listenerDone k failure) →
      ((initial token).moment set es n).stage? k = some (.notifying t l rest) →
      set.complaint failure = .error fault →
      (∀ c, answersTo c (step set (.listenerDone k failure) ((initial token).moment set es n)).2 =
        List.replicate ((((initial token).moment set es n).waitersOf k).count c)
          (.error fault)) ∧
      ((initial token).moment set es (n + 1)).token = ((initial token).moment set es n).token ∧
      s.stage? k = some (.finished (.error fault)) ∧
      ∃ p, (initial token).Processed set es p k (.ok t) ∧
        ((initial token).moment set es p).listeners =
          callsFor k ((initial token).effects set es) ++ rest) := by
  intro s
  refine ⟨fun v hv => ?_, ?_, ?_, ?_⟩
  · refine Settings.canTell_of_tellable fun w hw hlog => ?_
    obtain rfl := Option.some.inj hw
    exact hv.resolve_left (by simp [hlog])
  · intro k t l rest failure hk h
    exact step_told hk h
  · intro p k t hp htold
    refine ⟨calling_or_over hp htold, ?_⟩
    intro i e c he hc hidle hwaits hother
    exact answered_with_token hp htold he hc hidle hwaits hother
  · intro n k t l rest failure fault he hk h
    obtain ⟨-, -, htoken, hanswers⟩ := step_untold hk h
    rw [← moment_succ set _ es n _ he] at htoken
    exact ⟨hanswers, htoken, left_out he hk h⟩

/-- Two listen, and the first fails with an error. -/
def tellable : List Event :=
  [.listen 0, .listen 1, .refresh 10 none, .settle 0 (.ok ⟨"fresh", .never⟩), .process 0,
    .listenerDone 0 (some (.plain .plain "store unavailable")), .listenerDone 0 none]

open State in
theorem listener_failures_isolated_plain :
    callsFor 0 ((initial none).effects {} tellable) = [0, 1] ∧
    answersTo 10 (((initial none).moment {} tellable 2).effects {} (tellable.drop 2)) =
      [.ok (some ⟨"fresh", .never⟩)] := by
  obtain ⟨htellable, -, hrun, -⟩ := listener_failures_isolated {} none tellable
  have htold : ∀ failure, .listenerDone 0 failure ∈ tellable → Settings.CanTell {} failure := by
    intro failure hmem
    simp only [tellable, List.mem_cons, reduceCtorEq, Event.listenerDone.injEq, true_and,
      false_or, List.not_mem_nil, or_false] at hmem
    rcases hmem with rfl | rfl
    · exact htellable _ (.inr rfl)
    · exact ⟨[], rfl⟩
  have hother : ∀ f ∈ tellable.drop 3, f.party? ≠ some 10 := by
    simp [tellable, Event.party?, Event.caller?]
  have hover : ((initial none).after {} tellable).stage? 0 =
      some (.finished (.ok ⟨"fresh", .never⟩)) := rfl
  obtain ⟨hstage, hanswers⟩ := hrun 4 0 ⟨"fresh", .never⟩ ⟨rfl, rfl⟩ htold
  refine ⟨?_, ?_⟩
  · rcases hstage with ⟨l, rest, hs, -⟩ | ⟨-, hcalled, -⟩
    · cases hover.symm.trans hs
    · exact hcalled
  · rcases hanswers 2 _ 10 rfl rfl (by decide) (by decide) hother with ⟨-, l, rest, hs⟩ | ⟨hone, -⟩
    · cases hover.symm.trans hs
    · exact hone

/-- The same two, but the first fails with an object that holds a big integer. -/
def untellable : List Event :=
  [.listen 0, .listen 1, .refresh 10 none, .settle 0 (.ok ⟨"fresh", .never⟩), .process 0,
    .listenerDone 0 (some (.object none [("count", .bigint 1)]))]

open State in
/-- The caller gets the fault, and the second listener is not called. -/
theorem untellable_failure_fails_refresh :
    (initial none).Processed {} untellable 4 0 (.ok ⟨"fresh", .never⟩) ∧
    ((initial none).moment {} untellable 4).listeners = [0, 1] ∧
    callsFor 0 ((initial none).effects {} untellable) = [0] ∧
    answersTo 10 ((initial none).effects {} untellable) = [.error (.platform .bigInteger)] ∧
    ((initial none).after {} untellable).token = some ⟨"fresh", .never⟩ ∧
    ((initial none).after {} untellable).refreshes.map Refresh.stage =
      [.finished (.error (.platform .bigInteger))] :=
  ⟨⟨rfl, rfl⟩, rfl, rfl, rfl, rfl, rfl⟩

end Bearer.Cache
