import Bearer.Proofs.Cache.Runs

namespace Bearer.Cache

def Stage.calling? : Stage → Option ListenerId
  | .notifying _ l _ => some l
  | _ => none

def Effect.called? (k : RefreshId) : Effect → Option ListenerId
  | .notify refresh listener => if refresh = k then some listener else none
  | _ => none

/-- The listeners that are called for one refresh among some effects. -/
def callsFor (k : RefreshId) (effects : List Effect) : List ListenerId :=
  effects.filterMap (Effect.called? k)

@[simp] theorem callsFor_nil (k : RefreshId) : callsFor k [] = [] := rfl

@[simp] theorem callsFor_append (k : RefreshId) (es fs : List Effect) :
    callsFor k (es ++ fs) = callsFor k es ++ callsFor k fs := by
  simp [callsFor]

@[simp] theorem callsFor_cons (k : RefreshId) (e : Effect) (es : List Effect) :
    callsFor k (e :: es) = (e.called? k).toList ++ callsFor k es := by
  cases h : e.called? k <;> simp [callsFor, h]

@[simp] theorem callsFor_say (k : RefreshId) (set : Settings) (entry : Log.Entry) :
    callsFor k (set.say entry) = [] := by
  unfold Settings.say
  split <;> rfl

@[simp] theorem callsFor_warn (k : RefreshId) (set : Settings) (message : String)
    (failure : Thrown) : callsFor k (set.warn message failure) = [] := by
  unfold Settings.warn
  split
  · split <;> rfl
  · rfl

theorem callsFor_complaint (k : RefreshId) {set : Settings} {failure : Option Thrown}
    {said : List Effect} (h : set.complaint failure = .ok said) : callsFor k said = [] := by
  obtain rfl | ⟨entry, rfl⟩ := Settings.complaint_cases h <;> rfl

namespace State
variable (set : Settings)

/-- The listener whose call for a refresh an event ends. -/
def returns? (s : State) (k : RefreshId) : Event → Option ListenerId
  | .listenerDone j _ => if j = k then (s.stage? k).bind Stage.calling? else none
  | _ => none

/-- The listeners whose calls for a refresh end in a run, in this order. -/
def returned (k : RefreshId) : State → List Event → List ListenerId
  | _, [] => []
  | s, e :: es => (s.returns? k e).toList ++ returned k (step set e s).1 es

@[simp] theorem callsFor_finish (s : State) (k : RefreshId) (outcome : Result Token)
    (j : RefreshId) : callsFor j (s.finish set k outcome).2 = [] := by
  have hanswers (cs : List CallerId) : callsFor j (cs.map (answerOf outcome)) = [] := by
    induction cs with
    | nil => rfl
    | cons c cs ih => simp [ih, answerOf, Effect.called?]
  simp only [finish, callsFor_append, hanswers]
  cases outcome <;> simp

theorem callsFor_notifyNext (s : State) (k : RefreshId) (token : Token)
    (left : List ListenerId) (j : RefreshId) :
    callsFor j (s.notifyNext set k token left).2 =
      if k = j then (Stage.telling token left).calling?.toList else [] := by
  cases left with
  | nil => simp [notifyNext, Stage.telling, Stage.calling?]
  | cons l rest =>
    by_cases h : k = j <;>
      simp [notifyNext, Effect.called?, Stage.telling, Stage.calling?, h]

@[simp] theorem callsFor_opened (s : State) (e : Event) (k : RefreshId) :
    callsFor k (s.opened set e).2 = [] := by
  unfold opened
  split
  · next how _ => cases how <;> simp [start, Effect.called?]
  · rfl

theorem callsFor_call (s : State) (e : Event) (c : CallerId) (hc : e.caller? = some c)
    (k : RefreshId) : callsFor k (step set e s).2 = [] := by
  rw [step_call set s e c hc]
  cases s.reply? e <;> simp [Effect.called?]

variable {set} in
theorem Turn.calls {s : State} {e : Event} {k : RefreshId} {stage : Stage}
    (ht : Turn set s e k stage) : callsFor k (step set e s).2 = stage.calling?.toList := by
  cases ht with
  | @started _ how ho =>
    cases hc : e.caller? with
    | none => simp [opens_of_no_call s e hc] at ho
    | some c =>
      rw [callsFor_call set s e c hc]
      cases how <;> rfl
  | launched hk => simp [step, launch, hk, Effect.called?, Stage.calling?]
  | settled hk => simp [step, settle, hk, Effect.called?, Stage.calling?]
  | failed hk => simp [step, process, hk, Stage.calling?]
  | installed hk => simp [step, process, hk, callsFor_notifyNext]
  | told hk hf =>
    simp [step, listenerDone_eq set s _ _ _ _ _ hk, hf, callsFor_notifyNext,
      callsFor_complaint _ hf]
  | untold hk hf => simp [step, listenerDone_eq set s _ _ _ _ _ hk, hf, Stage.calling?]

variable {set} in
theorem Turn.returns {s : State} {e : Event} {k : RefreshId} {stage : Stage}
    (ht : Turn set s e k stage) : s.returns? k e = (s.stage? k).bind Stage.calling? := by
  cases ht with
  | started ho =>
    have hn : s.stage? s.refreshes.length = none := (stage?_eq_none s _).mpr (Nat.le_refl _)
    cases e with
    | listenerDone => cases ho
    | _ => simp [returns?, hn]
  | launched hk | settled hk | failed hk | installed hk => simp [returns?, hk, Stage.calling?]
  | told hk hf | untold hk hf => simp [returns?]

theorem calls_of_no_turn (s : State) (e : Event) (k : RefreshId)
    (hn : ∀ stage, ¬ Turn set s e k stage) : callsFor k (step set e s).2 = [] := by
  cases hc : e.caller? with
  | some c => exact callsFor_call set s e c hc k
  | none =>
    cases e with
    | launch j =>
      simp only [step, launch]
      split <;> simp [Effect.called?]
    | settle j outcome =>
      simp only [step, settle]
      split <;> simp [Effect.called?]
    | process j =>
      simp only [step, process]
      split
      · next token hj =>
        have hne : j ≠ k := by
          rintro rfl
          exact hn _ (.installed hj)
        simp [callsFor_notifyNext, hne]
      · simp
      · rfl
    | listenerDone j failure =>
      cases hj : s.stage? j with
      | none => simp [step, listenerDone, hj]
      | some stage =>
        cases stage with
        | notifying token l rest =>
          simp only [step, listenerDone_eq set s j failure token l rest hj]
          split
          · next said hf =>
            have hne : j ≠ k := by
              rintro rfl
              exact hn _ (.told hj hf)
            simp [callsFor_notifyNext, callsFor_complaint k hf, hne]
          · simp
        | _ => simp [step, listenerDone, hj]
    | listen l => rfl
    | abort c reason =>
      simp only [step, abort]
      split <;> simp [turnAway_eq, Effect.called?]
    | callbackFailed failure => simp [step, callbackFailed]
    | _ => cases hc

theorem returns_of_no_turn (s : State) (e : Event) (k : RefreshId)
    (hn : ∀ stage, ¬ Turn set s e k stage) : s.returns? k e = none := by
  cases e with
  | listenerDone j failure =>
    simp only [returns?]
    split
    · next hj =>
      subst hj
      cases hk : s.stage? j with
      | none => rfl
      | some stage =>
        cases stage with
        | notifying token l rest =>
          cases hf : set.complaint failure with
          | ok said => exact absurd (.told hk hf) (hn _)
          | error fault => exact absurd (.untold hk hf) (hn _)
        | _ => rfl
    · rfl
  | _ => rfl

/-- What one step does to a refresh: nothing, or it takes one turn. -/
theorem turn_or_not (s : State) (e : Event) (k : RefreshId) :
    ((step set e s).1.stage? k = s.stage? k ∧ callsFor k (step set e s).2 = [] ∧
      s.returns? k e = none) ∨
    ∃ stage, Turn set s e k stage := by
  by_cases h : ∃ stage, Turn set s e k stage
  · exact .inr h
  · have hn : ∀ stage, ¬ Turn set s e k stage := fun stage ht => h ⟨stage, ht⟩
    refine .inl ⟨?_, calls_of_no_turn set s e k hn, returns_of_no_turn set s e k hn⟩
    rcases stage_step set s e k with hs | ⟨stage, ht, -⟩
    · exact hs
    · exact absurd ht (hn stage)

/-- What calls nobody at any step calls nobody in a run. -/
theorem callsFor_effects {p : State → Prop} {k : RefreshId}
    (hp : ∀ s e, p s → callsFor k (step set e s).2 = [] ∧ p (step set e s).1) {s : State}
    (h : p s) (es : List Event) : callsFor k (s.effects set es) = [] := by
  induction es generalizing s with
  | nil => rfl
  | cons e es ih =>
    obtain ⟨hnone, hnext⟩ := hp s e h
    rw [effects_cons, callsFor_append, hnone, ih hnext]
    rfl

variable {set} in
theorem callsFor_of_finished {s : State} {k : RefreshId} {outcome : Result Token}
    (h : s.stage? k = some (.finished outcome)) (es : List Event) :
    callsFor k (s.effects set es) = [] := by
  refine callsFor_effects set (p := fun s => s.stage? k = some (.finished outcome))
    (fun s e hs => ?_) h es
  have hafter := finished_step set s e k outcome hs
  refine ⟨?_, hafter⟩
  rcases turn_or_not set s e k with ⟨-, hcalls, -⟩ | ⟨stage, hturn⟩
  · exact hcalls
  · obtain rfl := Option.some.inj (hturn.stage.symm.trans hafter)
    exact hturn.calls

theorem returned_append (k : RefreshId) (s : State) (es fs : List Event) :
    returned set k s (es ++ fs) = returned set k s es ++ returned set k (s.after set es) fs := by
  induction es generalizing s with
  | nil => rfl
  | cons e es ih => simp [returned, ih]

theorem returned_succ (k : RefreshId) (s : State) (es : List Event) (n : Nat) (e : Event)
    (he : es[n]? = some e) :
    returned set k s (es.take (n + 1)) =
      returned set k s (es.take n) ++ ((s.moment set es n).returns? k e).toList := by
  simp [moment, List.take_add_one, he, returned_append, returned]

/-- The listeners that have been called for a refresh before some moment of a run. -/
def called (s : State) (es : List Event) (n : Nat) (k : RefreshId) : List ListenerId :=
  callsFor k (s.effects set (es.take n))

theorem called_succ (s : State) (es : List Event) (n : Nat) (e : Event) (he : es[n]? = some e)
    (k : RefreshId) :
    s.called set es (n + 1) k =
      s.called set es n k ++ callsFor k (step set e (s.moment set es n)).2 := by
  simp [called, effects_succ set s es n e he]

theorem called_succ_of_none (s : State) (es : List Event) (n : Nat) (he : es[n]? = none)
    (k : RefreshId) : s.called set es (n + 1) k = s.called set es n k := by
  have hlen := List.getElem?_eq_none_iff.mp he
  rw [called, called, List.take_of_length_le hlen,
    List.take_of_length_le (Nat.le_succ_of_le hlen)]

/-- The outcome comes from the operation, or from an executor that did not run it. -/
def Brought (s : State) (es : List Event) (k : RefreshId) (outcome : Result Token) : Prop :=
  ∃ n e, es[n]? = some e ∧
    ((e = .settle k outcome ∧ (s.moment set es n).stage? k = some .working) ∨
      ∃ failure, (s.moment set es n).opens e = some (.refused failure) ∧
        (s.moment set es n).refreshes.length = k ∧ outcome = .error failure)

/-- At some moment the outcome of a refresh is processed. -/
def Processed (s : State) (es : List Event) (p : Nat) (k : RefreshId)
    (outcome : Result Token) : Prop :=
  es[p]? = some (.process k) ∧ (s.moment set es p).stage? k = some (.settled outcome)

/-- The failure of a listener could not be told, and has ended the refresh. -/
def Untold (es : List Event) (k : RefreshId) (outcome : Result Token) : Prop :=
  ∃ failure fault, .listenerDone k failure ∈ es ∧ set.complaint failure = .error fault ∧
    outcome = .error fault

/-- What has happened in a run before some moment at which a refresh is in a stage. -/
def Course (s : State) (es : List Event) (n : Nat) (k : RefreshId) : Option Stage → Prop
  | some (.notifying token _ rest) => ∃ p < n, s.Processed set es p k (.ok token) ∧
      (s.moment set es p).listeners = s.called set es n k ++ rest
  | some (.finished outcome) => Untold set es k outcome ∨ ∃ p < n,
      s.Processed set es p k outcome ∧
      ∀ token, outcome = .ok token → (s.moment set es p).listeners = s.called set es n k
  | some (.settled outcome) => s.Brought set es k outcome ∧ s.called set es n k = []
  | _ => s.called set es n k = []

variable {set}

theorem Processed.lt_length {s : State} {es : List Event} {p : Nat} {k : RefreshId}
    {outcome : Result Token} (h : s.Processed set es p k outcome) : p < es.length :=
  (List.getElem?_eq_some_iff.mp h.1).1

theorem Processed.before {s : State} {es : List Event} {p : Nat} {k : RefreshId}
    {outcome : Result Token} (h : s.Processed set es p k outcome) :
    (s.moment set es p).isProcessed k = false := by
  simp [isProcessed, h.2, Stage.isProcessed]

theorem Processed.since {s : State} {es : List Event} {p m : Nat} {k : RefreshId}
    {outcome : Result Token} (h : s.Processed set es p k outcome) (hm : p < m) :
    (s.moment set es m).isProcessed k = true := by
  refine isProcessed_moment set s es k hm ?_
  cases outcome with
  | ok t =>
    have hturn : Turn set (s.moment set es p) (.process k) k _ := .installed h.2
    rw [isProcessed, hturn.moment h.1]
    exact (Stage.isProcessed_iff _).mpr (Stage.rank_telling _ _)
  | error failure =>
    have hturn : Turn set (s.moment set es p) (.process k) k _ := .failed h.2
    rw [isProcessed, hturn.moment h.1]
    rfl

/-- A refresh is processed once, with one outcome. -/
theorem Processed.unique {s : State} {es : List Event} {p q : Nat} {k : RefreshId}
    {x y : Result Token} (hp : s.Processed set es p k x) (hq : s.Processed set es q k y) :
    p = q ∧ x = y := by
  rcases Nat.lt_trichotomy p q with hlt | rfl | hlt
  · have hdone := hp.since hlt
    simp [hq.before] at hdone
  · exact ⟨rfl, by simpa using hp.2.symm.trans hq.2⟩
  · have hdone := hq.since hlt
    simp [hp.before] at hdone

theorem Course.not_yet {s : State} {es : List Event} {n : Nat} {k : RefreshId} {stage : Stage}
    (h : s.Course set es n k (some stage)) (hp : stage.isProcessed = false) :
    s.called set es n k = [] := by
  cases stage with
  | held | working => exact h
  | settled outcome => exact h.2
  | notifying | finished => cases hp

/-- A refresh some of whose listeners are left to be called. -/
theorem course_telling {s : State} {es : List Event} {n p : Nat} {e : Event} {k : RefreshId}
    {token : Token} {left : List ListenerId} (he : es[n]? = some e)
    (hturn : Turn set (s.moment set es n) e k (.telling token left)) (hpn : p < n + 1)
    (hp : s.Processed set es p k (.ok token))
    (hl : (s.moment set es p).listeners = s.called set es n k ++ left) :
    s.Course set es (n + 1) k (some (.telling token left)) := by
  have hcalled := called_succ set s es n e he k
  rw [hturn.calls] at hcalled
  cases left with
  | nil =>
    refine .inr ⟨p, hpn, hp, fun _ _ => ?_⟩
    simp [hcalled, hl, Stage.telling, Stage.calling?]
  | cons l rest =>
    refine ⟨p, hpn, hp, ?_⟩
    simp [hcalled, hl, Stage.telling, Stage.calling?]

theorem Course.turn {s : State} {es : List Event} {n : Nat} {e : Event} {k : RefreshId}
    {stage : Stage} (he : es[n]? = some e)
    (h : s.Course set es n k ((s.moment set es n).stage? k))
    (hturn : Turn set (s.moment set es n) e k stage) :
    s.Course set es (n + 1) k (some stage) := by
  have hquiet (hnil : s.called set es n k = []) (hnone : stage.calling? = none) :
      s.called set es (n + 1) k = [] := by
    rw [called_succ set s es n e he, hturn.calls, hnil, hnone]
    rfl
  cases hturn with
  | @started _ how ho =>
    rw [(stage?_eq_none _ _).mpr (Nat.le_refl _)] at h
    cases how with
    | now | later => exact hquiet h rfl
    | refused failure => exact ⟨⟨n, e, he, .inr ⟨failure, ho, rfl, rfl⟩⟩, hquiet h rfl⟩
  | launched hk =>
    rw [hk] at h
    exact hquiet (h.not_yet rfl) rfl
  | settled hk =>
    rw [hk] at h
    exact ⟨⟨n, _, he, .inl ⟨rfl, hk⟩⟩, hquiet (h.not_yet rfl) rfl⟩
  | failed hk => exact .inr ⟨n, Nat.lt_succ_self n, ⟨he, hk⟩, fun _ ht => by cases ht⟩
  | installed hk =>
    rw [hk] at h
    exact course_telling he (.installed hk) (Nat.lt_succ_self n) ⟨he, hk⟩ (by simp [h.not_yet rfl])
  | told hk hf =>
    rw [hk] at h
    obtain ⟨p, hpn, hp, hl⟩ := h
    exact course_telling he (.told hk hf) (Nat.lt_succ_of_lt hpn) hp hl
  | @untold _ failure _ _ _ fault hk hf =>
    exact .inl ⟨failure, fault, List.mem_of_getElem? he, hf, rfl⟩

theorem Course.stay {s : State} {es : List Event} {n : Nat} {k : RefreshId}
    {stage : Option Stage} (h : s.Course set es n k stage)
    (hcalled : s.called set es (n + 1) k = s.called set es n k) :
    s.Course set es (n + 1) k stage := by
  cases stage with
  | none => exact hcalled.trans h
  | some stage =>
    cases stage with
    | held | working => exact hcalled.trans h
    | settled outcome => exact ⟨h.1, hcalled.trans h.2⟩
    | notifying token l rest =>
      obtain ⟨p, hpn, hp, hl⟩ := h
      exact ⟨p, Nat.lt_succ_of_lt hpn, hp, hcalled ▸ hl⟩
    | finished outcome =>
      rcases h with h | ⟨p, hpn, hp, hl⟩
      · exact .inl h
      · exact .inr ⟨p, Nat.lt_succ_of_lt hpn, hp, hcalled ▸ hl⟩

variable (set)

theorem course (token : Option Token) (es : List Event) (n : Nat) (k : RefreshId) :
    (initial token).Course set es n k (((initial token).moment set es n).stage? k) := by
  induction n with
  | zero => rfl
  | succ n ih =>
    cases he : es[n]? with
    | none =>
      rw [moment_succ_of_none set _ es n he]
      exact ih.stay (called_succ_of_none set _ es n he k)
    | some e =>
      rw [moment_succ set _ es n e he]
      rcases turn_or_not set ((initial token).moment set es n) e k with
        ⟨hs, hcalls, -⟩ | ⟨stage, ht⟩
      · rw [hs]
        exact ih.stay (by simp [called_succ set _ es n e he, hcalls])
      · rw [ht.stage]
        exact ih.turn he ht

/-- A listener is only called once the call before has ended. -/
theorem called_eq (token : Option Token) (es : List Event) (n : Nat) (k : RefreshId) :
    (initial token).called set es n k = returned set k (initial token) (es.take n) ++
      ((((initial token).moment set es n).stage? k).bind Stage.calling?).toList := by
  induction n with
  | zero => rfl
  | succ n ih =>
    cases he : es[n]? with
    | none =>
      have hlen := List.getElem?_eq_none_iff.mp he
      rw [called_succ_of_none set _ es n he, moment_succ_of_none set _ es n he, ih,
        List.take_of_length_le hlen, List.take_of_length_le (Nat.le_succ_of_le hlen)]
    | some e =>
      rw [called_succ set _ es n e he, returned_succ set k _ es n e he, ih,
        moment_succ set _ es n e he]
      rcases turn_or_not set ((initial token).moment set es n) e k with
        ⟨hs, hcalls, hreturns⟩ | ⟨stage, ht⟩
      · simp [hs, hcalls, hreturns]
      · simp [ht.calls, ht.returns, ht.stage]

theorem finished_course (token : Option Token) (es : List Event) (k : RefreshId)
    (outcome : Result Token)
    (h : ((initial token).after set es).stage? k = some (.finished outcome)) :
    Untold set es k outcome ∨ ∃ p, (initial token).Processed set es p k outcome ∧
      (initial token).Brought set es k outcome ∧
      ∀ t, outcome = .ok t →
        callsFor k ((initial token).effects set es) =
          ((initial token).moment set es p).listeners ∧
        returned set k (initial token) es = ((initial token).moment set es p).listeners := by
  have hcourse := course set token es es.length k
  rw [moment_length, h] at hcourse
  rcases hcourse with hu | ⟨p, -, hp, hl⟩
  · exact .inl hu
  · have hbrought := course set token es p k
    rw [hp.2] at hbrought
    refine .inr ⟨p, hp, hbrought.1, fun t ht => ?_⟩
    have hcalled := called_eq set token es es.length k
    rw [moment_length, h] at hcalled
    have hlisteners := hl t ht
    simp only [called, List.take_length, Option.bind_some, Stage.calling?, Option.toList_none,
      List.append_nil] at hcalled hlisteners
    exact ⟨hlisteners.symm, hcalled.symm.trans hlisteners.symm⟩

end State
end Bearer.Cache
