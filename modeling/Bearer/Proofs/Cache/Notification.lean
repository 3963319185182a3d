import Bearer.Proofs.Cache.Failures
import Bearer.Proofs.Cache.Isolation

namespace Bearer.Cache

def Event.registers? : Event → Option ListenerId
  | .listen l => some l
  | _ => none

/-- The listeners that some events register, in this order. -/
def registeredBy (es : List Event) : List ListenerId := es.filterMap Event.registers?

namespace State
variable (set : Settings)

@[simp] theorem joinSlot_listeners (s : State) (c : CallerId) :
    (s.joinSlot c).listeners = s.listeners := by
  unfold joinSlot
  split <;> rfl

@[simp] theorem opened_listeners (s : State) (e : Event) :
    (s.opened set e).1.listeners = s.listeners := by
  unfold opened
  split
  · next how _ => cases how <;> rfl
  · rfl

@[simp] theorem notifyNext_listeners (s : State) (k : RefreshId) (token : Token)
    (left : List ListenerId) : (s.notifyNext set k token left).1.listeners = s.listeners := by
  cases left <;> rfl

theorem listeners_step (s : State) (e : Event) :
    (step set e s).1.listeners = s.listeners ++ e.registers?.toList := by
  cases hc : e.caller? with
  | some c =>
    have hnone : e.registers? = none := by
      cases e <;> first | rfl | cases hc
    rw [step_call set s e c hc, hnone]
    cases s.reply? e <;> simp
  | none =>
    cases e with
    | launch k =>
      simp only [step, launch, Event.registers?]
      split <;> simp [setStage]
    | settle k outcome =>
      simp only [step, settle, Event.registers?]
      split <;> simp [setStage]
    | process k =>
      simp only [step, process, Event.registers?]
      split <;> simp [finish]
    | listenerDone k failure =>
      cases hk : s.stage? k with
      | none => simp [step, listenerDone, hk, Event.registers?]
      | some stage =>
        cases stage with
        | notifying token l rest =>
          simp only [step, listenerDone_eq set s k failure token l rest hk, Event.registers?]
          split <;> simp [finish]
        | _ => simp [step, listenerDone, hk, Event.registers?]
    | listen l => rfl
    | abort c reason =>
      simp only [step, abort, Event.registers?]
      split <;> simp [leave]
    | callbackFailed failure => simp [step, callbackFailed, Event.registers?]
    | _ => cases hc

theorem listeners_after (s : State) (es : List Event) :
    (s.after set es).listeners = s.listeners ++ registeredBy es := by
  induction es generalizing s with
  | nil => simp [registeredBy]
  | cons e es ih =>
    rw [after_cons, ih, listeners_step]
    cases h : e.registers? <;> simp [registeredBy, h]

variable {set}

/-- A listener is called only on behalf of a refresh whose token has been processed. -/
theorem processed_of_called {token : Option Token} {es : List Event} {n : Nat} {k : RefreshId}
    (h : (initial token).called set es n k ≠ []) :
    ∃ p < n, ∃ t, (initial token).Processed set es p k (.ok t) := by
  induction n with
  | zero => exact absurd rfl h
  | succ n ih =>
    by_cases hbefore : (initial token).called set es n k = []
    · cases he : es[n]? with
      | none => exact absurd ((called_succ_of_none set _ es n he k).trans hbefore) h
      | some e =>
        rw [called_succ set _ es n e he, hbefore, List.nil_append] at h
        rcases turn_or_not set ((initial token).moment set es n) e k with
          ⟨-, hnone, -⟩ | ⟨stage, hturn⟩
        · exact absurd hnone h
        · rw [hturn.calls] at h
          have hcourse := course set token es n k
          cases hturn with
          | installed hk => exact ⟨n, Nat.lt_succ_self n, _, he, hk⟩
          | told hk hf =>
            rw [hk] at hcourse
            obtain ⟨p, hpn, hp, -⟩ := hcourse
            exact ⟨p, Nat.lt_succ_of_lt hpn, _, hp⟩
          | @started _ how ho => cases how <;> exact absurd rfl h
          | launched | settled | failed | untold => exact absurd rfl h
    · obtain ⟨p, hpn, hp⟩ := ih hbefore
      exact ⟨p, Nat.lt_succ_of_lt hpn, hp⟩

/-- Before its outcome is processed a refresh calls nobody. -/
theorem Processed.called_before {token : Option Token} {es : List Event} {p : Nat}
    {k : RefreshId} {outcome : Result Token}
    (h : (initial token).Processed set es p k outcome) :
    (initial token).called set es p k = [] := by
  refine Decidable.byContradiction fun hne => ?_
  obtain ⟨q, hqp, t, hq⟩ := processed_of_called hne
  exact Nat.ne_of_lt hqp (hq.unique h).1

/-- The step that processes a token calls the first of the listeners. -/
theorem Processed.first_called {token : Option Token} {es : List Event} {p : Nat}
    {k : RefreshId} {t : Token} (h : (initial token).Processed set es p k (.ok t)) :
    (initial token).called set es (p + 1) k = (registeredBy (es.take p)).head?.toList := by
  have hturn : Turn set ((initial token).moment set es p) (.process k) k _ := .installed h.2
  rw [called_succ set _ es p _ h.1, h.called_before, hturn.calls, Stage.calling?_telling, moment,
    listeners_after]
  rfl

/-- How far the notification of a token has come at some moment since it was processed. -/
theorem Processed.notifies {token : Option Token} {es : List Event} {p n : Nat} {k : RefreshId}
    {t : Token} (h : (initial token).Processed set es p k (.ok t)) (hn : p < n)
    (htold : ∀ failure, .listenerDone k failure ∈ es → set.CanTell failure) :
    (∃ l rest, ((initial token).moment set es n).stage? k = some (.notifying t l rest) ∧
      (initial token).called set es n k = returned set k (initial token) (es.take n) ++ [l] ∧
      registeredBy (es.take p) = (initial token).called set es n k ++ rest) ∨
    (((initial token).moment set es n).stage? k = some (.finished (.ok t)) ∧
      (initial token).called set es n k = registeredBy (es.take p) ∧
      returned set k (initial token) (es.take n) = registeredBy (es.take p)) := by
  have hp : (initial token).Processed set (es.take n) p k (.ok t) := by
    refine ⟨by rw [List.getElem?_take_of_lt hn, h.1], ?_⟩
    rw [moment_take set _ es (Nat.le_of_lt hn)]
    exact h.2
  have hlisteners : ((initial token).moment set (es.take n) p).listeners =
      registeredBy (es.take p) := by
    rw [moment_take set _ es (Nat.le_of_lt hn), moment, listeners_after]
    rfl
  have hcases := calling_or_over hp fun failure hmem => htold failure (List.mem_of_mem_take hmem)
  rwa [hlisteners] at hcases

end State

open State in
/-- A refresh that brings a token calls the listeners that were registered when the token was
processed: each once for each time it registered, in this order, and the next one not before
the call of the one before has ended. That goes for every moment of a run, whatever else
happens in between: other refreshes that tell their own listeners, listeners that come later
or call the cache themselves, calls that take their time or fail in a way that the log can
tell. The first call comes from the step that puts the token into the cache and takes the
refresh out of the slot. A refresh that has brought no token calls nobody. -/
theorem listeners_called_in_turn (set : Settings) (token : Option Token) (es : List Event) :
    let s := initial token
    (∀ p k t, s.Processed set es p k (.ok t) →
      (∀ failure, .listenerDone k failure ∈ es → set.CanTell failure) →
      let registered := registeredBy (es.take p)
      s.called set es p k = [] ∧
      (s.moment set es (p + 1)).token = some t ∧
      s.called set es (p + 1) k = registered.head?.toList ∧
      ∀ n, p < n → (s.moment set es n).slot ≠ some k ∧
        ((∃ l rest, (s.moment set es n).stage? k = some (.notifying t l rest) ∧
            s.called set es n k = returned set k s (es.take n) ++ [l] ∧
            registered = s.called set es n k ++ rest) ∨
          ((s.moment set es n).stage? k = some (.finished (.ok t)) ∧
            s.called set es n k = registered ∧
            returned set k s (es.take n) = registered))) ∧
    (∀ n k t l rest failure, es[n]? = some (.listenerDone k failure) →
      (s.moment set es n).stage? k = some (.notifying t l rest) → set.CanTell failure →
      s.called set es (n + 1) k = s.called set es n k ++ rest.head?.toList ∧
      returned set k s (es.take (n + 1)) = returned set k s (es.take n) ++ [l] ∧
      (s.moment set es (n + 1)).stage? k = some (.telling t rest)) ∧
    (∀ n k, (∀ p < n, ∀ t, ¬ s.Processed set es p k (.ok t)) → s.called set es n k = []) ∧
    (∀ k failure, s.Brought set es k (.error failure) → callsFor k (s.effects set es) = []) := by
  intro s
  refine ⟨?_, ?_, ?_, fun k failure h => callsFor_of_failed h⟩
  · intro p k t h htold registered
    refine ⟨h.called_before, h.installs set, h.first_called, fun n hn => ⟨?_, ?_⟩⟩
    · exact not_in_slot_of_processed (slotLatest_after set token (es.take n)) (h.since hn)
    · exact h.notifies hn htold
  · intro n k t l rest failure he hk htell
    obtain ⟨hstage, hcalls, -⟩ := step_told hk htell
    refine ⟨?_, ?_, ?_⟩
    · rw [called_succ set s es n _ he, hcalls]
    · rw [returned_succ set k s es n _ he]
      simp [returns?, hk, Stage.calling?]
    · rw [moment_succ set s es n _ he, hstage]
  · intro n k hnone
    refine Decidable.byContradiction fun hne => ?_
    obtain ⟨p, hpn, t, hp⟩ := processed_of_called hne
    exact hnone p hpn t hp

/-- Two forced refreshes tell their tokens at the same time; a third listener registers when
the first refresh has been processed and the second has not. -/
def crossing : List Event :=
  [.listen 0, .listen 1, .refresh 10 none, .refresh 11 none, .settle 0 (.ok ⟨"older", .never⟩),
    .process 0, .listen 2, .settle 1 (.ok ⟨"newer", .never⟩), .process 1, .listenerDone 1 none,
    .listenerDone 0 (some (.plain .plain "store unavailable")), .listenerDone 1 none,
    .listenerDone 0 none, .listenerDone 1 none]

open State in
theorem listeners_called_in_turn_crossing :
    callsFor 0 ((initial none).effects {} crossing) = [0, 1] ∧
    callsFor 1 ((initial none).effects {} crossing) = [0, 1, 2] := by
  have htold : ∀ k failure, .listenerDone k failure ∈ crossing →
      Settings.CanTell {} failure := by
    intro k failure hmem
    refine Settings.canTell_of_tellable fun v hv _ => ?_
    simp only [crossing, List.mem_cons, reduceCtorEq, Event.listenerDone.injEq, false_or,
      List.not_mem_nil, or_false] at hmem
    rcases hmem with ⟨-, rfl⟩ | ⟨-, rfl⟩ | ⟨-, rfl⟩ | ⟨-, rfl⟩ | ⟨-, rfl⟩ <;> cases hv
    rfl
  obtain ⟨hcalls, -⟩ := listeners_called_in_turn {} none crossing
  obtain ⟨-, -, -, holder⟩ := hcalls 5 0 ⟨"older", .never⟩ ⟨rfl, rfl⟩ fun f => htold 0 f
  obtain ⟨-, -, -, hnewer⟩ := hcalls 8 1 ⟨"newer", .never⟩ ⟨rfl, rfl⟩ fun f => htold 1 f
  refine ⟨?_, ?_⟩
  · rcases (holder 14 (by decide)).2 with ⟨l, rest, hs, -⟩ | ⟨-, hcalled, -⟩
    · cases hs
    · exact hcalled
  · rcases (hnewer 14 (by decide)).2 with ⟨l, rest, hs, -⟩ | ⟨-, hcalled, -⟩
    · cases hs
    · exact hcalled

end Bearer.Cache
