import Bearer.Proofs.Cache.Waiting

namespace Bearer.Cache

namespace Event

/-- The event without a signal; nothing is left of an abort. -/
def unsignalled : Event → Option Event
  | .fetch caller how first second _ => some (.fetch caller how first second none)
  | .refresh caller _ => some (.refresh caller none)
  | .refreshIfExpired caller reading _ => some (.refreshIfExpired caller reading none)
  | .abort .. => none
  | e => some e

/-- The caller whose signal is aborted, before its call or later. -/
def signalled? : Event → Option CallerId
  | .abort caller _ => some caller
  | e => e.aborted?.bind (fun _ => e.caller?)

end Event

def Effect.isFor (hidden : CallerId → Bool) : Effect → Bool
  | .answer caller _ => hidden caller
  | _ => false

/-- What can be seen of some effects without the answers to these callers. -/
def visible (hidden : CallerId → Bool) (effects : List Effect) : List Effect :=
  effects.filter (fun effect => !effect.isFor hidden)

def Refresh.without (hidden : CallerId → Bool) (r : Refresh) : Refresh :=
  { r with waiters := r.waiters.filter (fun c => !hidden c) }

/-- The cache as if these callers did not wait. -/
def State.without (hidden : CallerId → Bool) (s : State) : State :=
  { s with refreshes := s.refreshes.map (Refresh.without hidden) }

def Outcome.without (hidden : CallerId → Bool) (o : Outcome) : Outcome :=
  (o.1.without hidden, visible hidden o.2)

variable {hidden : CallerId → Bool}

@[simp] theorem visible_nil : visible hidden [] = [] := rfl

@[simp] theorem visible_append (es fs : List Effect) :
    visible hidden (es ++ fs) = visible hidden es ++ visible hidden fs := by
  simp [visible]

@[simp] theorem visible_cons (e : Effect) (es : List Effect) :
    visible hidden (e :: es) = (if e.isFor hidden then [] else [e]) ++ visible hidden es := by
  cases h : e.isFor hidden <;> simp [visible, h]

@[simp] theorem visible_say (set : Settings) (entry : Log.Entry) :
    visible hidden (set.say entry) = set.say entry := by
  unfold Settings.say
  split <;> rfl

@[simp] theorem visible_warn (set : Settings) (message : String) (failure : Thrown) :
    visible hidden (set.warn message failure) = set.warn message failure := by
  unfold Settings.warn
  split
  · split <;> rfl
  · rfl

theorem visible_complaint {set : Settings} {failure : Option Thrown} {said : List Effect}
    (h : set.complaint failure = .ok said) : visible hidden said = said := by
  obtain rfl | ⟨entry, rfl⟩ := Settings.complaint_cases h <;> rfl

theorem visible_answers (outcome : Result Token) (cs : List CallerId) :
    visible hidden (cs.map (State.answerOf outcome)) =
      (cs.filter (fun c => !hidden c)).map (State.answerOf outcome) := by
  induction cs with
  | nil => rfl
  | cons c cs ih => cases h : hidden c <;> simp [ih, State.answerOf, Effect.isFor, h]

theorem answersTo_visible (c : CallerId) (hc : hidden c = false) (effects : List Effect) :
    answersTo c (visible hidden effects) = answersTo c effects := by
  induction effects with
  | nil => rfl
  | cons e effects ih =>
    cases e with
    | answer d outcome =>
      by_cases hd : d = c
      · simp [ih, Effect.isFor, hd, hc]
      · cases h : hidden d <;> simp [ih, Effect.isFor, Effect.answer?, hd, h]
    | _ => simp [ih, Effect.isFor]

namespace State
variable (set : Settings)

@[simp] theorem slot_without (s : State) : (s.without hidden).slot = s.slot := rfl

@[simp] theorem listeners_without (s : State) :
    (s.without hidden).listeners = s.listeners := rfl

@[simp] theorem stage?_without (s : State) (k : RefreshId) :
    (s.without hidden).stage? k = s.stage? k := by
  simp [stage?, without, Function.comp_def, Refresh.without]

@[simp] theorem waitersOf_without (s : State) (k : RefreshId) :
    (s.without hidden).waitersOf k = (s.waitersOf k).filter (fun c => !hidden c) := by
  simp only [waitersOf, without, List.getElem?_map]
  cases s.refreshes[k]? <;> rfl

theorem modify_without (s : State) (k : RefreshId) {f g : Refresh → Refresh}
    (hfg : ∀ r, (f r).without hidden = g (r.without hidden)) :
    ({ s with refreshes := s.refreshes.modify k f } : State).without hidden =
      { s.without hidden with refreshes := (s.without hidden).refreshes.modify k g } := by
  have hrefreshes : (s.refreshes.modify k f).map (Refresh.without hidden) =
      (s.refreshes.map (Refresh.without hidden)).modify k g := by
    refine List.ext_getElem? fun j => ?_
    simp only [List.getElem?_map, List.getElem?_modify]
    cases s.refreshes[j]? with
    | none => rfl
    | some r => by_cases h : k = j <;> simp [h, hfg]
  simp [without, hrefreshes]

theorem start_without (s : State) (how : Start) :
    (s.without hidden).start set how = (s.start set how).without hidden := by
  cases how <;> simp [start, without, Outcome.without, Refresh.without, Effect.isFor]

theorem setStage_without (s : State) (k : RefreshId) (stage : Stage) :
    (s.setStage k stage).without hidden = (s.without hidden).setStage k stage :=
  s.modify_without k fun _ => rfl

theorem join_without (s : State) (k : RefreshId) (c : CallerId) :
    (s.join k c).without hidden =
      if hidden c then s.without hidden else (s.without hidden).join k c := by
  cases hc : hidden c with
  | true =>
    have hsame : (s.join k c).without hidden = { s.without hidden with
        refreshes := (s.without hidden).refreshes.modify k id } :=
      s.modify_without k fun r => by simp [Refresh.without, hc]
    rwa [List.modify_id] at hsame
  | false => exact s.modify_without k fun r => by simp [Refresh.without, hc]

theorem joinSlot_without (s : State) (c : CallerId) :
    (s.joinSlot c).without hidden =
      if hidden c then s.without hidden else (s.without hidden).joinSlot c := by
  simp only [joinSlot, slot_without]
  split
  · exact s.join_without _ c
  · split <;> rfl

theorem leave_without (s : State) (c : CallerId) (hc : hidden c = true) :
    (s.leave c).without hidden = s.without hidden := by
  have hr (r : Refresh) :
      (⟨r.stage, r.waiters.filter (· ≠ c)⟩ : Refresh).without hidden = r.without hidden := by
    simp only [Refresh.without, List.filter_filter, Refresh.mk.injEq, true_and]
    refine List.filter_congr fun d _ => ?_
    by_cases hd : d = c <;> simp [hd, hc]
  have hrefreshes : (s.leave c).refreshes.map (Refresh.without hidden) =
      s.refreshes.map (Refresh.without hidden) := by
    simp only [leave, List.map_map]
    exact List.map_congr_left fun r _ => hr r
  unfold without
  rw [hrefreshes]
  rfl

theorem clear_without (s : State) (k : RefreshId) :
    (s.clear k).without hidden = (s.without hidden).clear k := by
  by_cases h : s.slot = some k <;> simp [clear, h, without]

theorem finish_without (s : State) (k : RefreshId) (outcome : Result Token) :
    (s.without hidden).finish set k outcome = (s.finish set k outcome).without hidden := by
  have hs : (s.finish set k outcome).1.without hidden =
      ((s.without hidden).finish set k outcome).1 := s.modify_without k fun _ => rfl
  have hw : (((s.without hidden).refreshes[k]?).map Refresh.waiters).getD [] =
      (((s.refreshes[k]?).map Refresh.waiters).getD []).filter (fun c => !hidden c) :=
    s.waitersOf_without k
  refine Prod.ext hs.symm ?_
  simp only [finish, Outcome.without, visible_append, visible_answers, hw]
  cases outcome <;> simp

theorem notifyNext_without (s : State) (k : RefreshId) (token : Token)
    (left : List ListenerId) :
    (s.without hidden).notifyNext set k token left =
      (s.notifyNext set k token left).without hidden := by
  cases left with
  | nil => exact s.finish_without set k (.ok token)
  | cons l rest => simp [notifyNext, Outcome.without, setStage_without, Effect.isFor]

theorem opens_without (s : State) (e : Event) : (s.without hidden).opens e = s.opens e := by
  cases e <;> rfl

theorem reply?_without (s : State) (e : Event) :
    (s.without hidden).reply? e = s.reply? e := by
  cases e <;> rfl

theorem opened_without (s : State) (e : Event) :
    (s.without hidden).opened set e = (s.opened set e).without hidden := by
  simp only [opened, opens_without]
  split
  · exact s.start_without set _
  · rfl

/-- An event without a caller does the same whoever waits. -/
theorem inner_without (s : State) (e : Event) (he : e.party? = none) :
    step set e (s.without hidden) = (step set e s).without hidden := by
  cases e with
  | launch k =>
    simp only [step, launch, stage?_without]
    split
    · simp [Outcome.without, setStage_without, Effect.isFor]
    · rfl
  | settle k outcome =>
    simp only [step, settle, stage?_without]
    split
    · simp [Outcome.without, setStage_without, Effect.isFor]
    · rfl
  | process k =>
    simp only [step, process, stage?_without]
    split
    · next token hk =>
      have hclear : ({ s.without hidden with token := some token } : State).clear k =
          (({ s with token := some token } : State).clear k).without hidden := by
        rw [clear_without]
        rfl
      rw [hclear, listeners_without, notifyNext_without]
      simp only [Outcome.without, visible_append, visible_say]
    · rw [← clear_without]
      exact finish_without set _ k _
    · rfl
  | listenerDone k failure =>
    cases hk : s.stage? k with
    | none => simp [step, listenerDone, hk, Outcome.without]
    | some stage =>
      cases stage with
      | notifying token l rest =>
        have hk' : (s.without hidden).stage? k = some (.notifying token l rest) := by
          rw [stage?_without, hk]
        simp only [step, listenerDone_eq set _ k failure token l rest hk,
          listenerDone_eq set _ k failure token l rest hk']
        split
        · next said hf =>
          simp only [notifyNext_without, Outcome.without, visible_append, visible_complaint hf]
        · exact s.finish_without set k _
      | _ => simp [step, listenerDone, hk, Outcome.without]
  | listen l => rfl
  | callbackFailed failure => simp [step, callbackFailed, Outcome.without]
  | abort | fetch | refresh | refreshIfExpired => cases he

theorem call_without (s : State) (e : Event) (c : CallerId) (hc : e.caller? = some c)
    (hseen : hidden c = false) :
    step set e (s.without hidden) = (step set e s).without hidden := by
  rw [step_call set s e c hc, step_call set _ e c hc, reply?_without, opened_without]
  cases s.reply? e with
  | some reply => simp [Outcome.without, Effect.isFor, hseen]
  | none => simp [Outcome.without, joinSlot_without, hseen]

/-- Of a hidden call nothing is seen but the refresh that it starts. -/
theorem call_hidden (s : State) (e : Event) (c : CallerId) (hc : e.caller? = some c)
    (hhidden : hidden c = true) :
    (step set e s).without hidden = (s.opened set e).without hidden := by
  rw [step_call set s e c hc]
  cases s.reply? e with
  | some reply => simp [Outcome.without, Effect.isFor, hhidden]
  | none => simp [Outcome.without, joinSlot_without, hhidden]

theorem abort_without (s : State) (c : CallerId) (reason : Thrown) (hc : hidden c = true) :
    (step set (.abort c reason) s).without hidden = (s.without hidden, []) := by
  simp only [step, abort]
  split
  · simp [Outcome.without, leave_without s c hc, turnAway_eq, Effect.isFor, hc]
  · rfl

theorem opens_unsignalled (s : State) {e f : Event} (hf : e.unsignalled = some f) :
    s.opens f = s.opens e := by
  cases e <;> cases hf <;> rfl

theorem caller_unsignalled {e f : Event} (hf : e.unsignalled = some f) :
    f.caller? = e.caller? := by
  cases e <;> cases hf <;> rfl

theorem unsignalled_of_not_signalled {e f : Event} (hf : e.unsignalled = some f)
    (hs : e.signalled? = none) : f = e := by
  cases e with
  | abort => cases hf
  | fetch c how first second aborted | refresh c aborted | refreshIfExpired c reading aborted =>
    cases aborted with
    | none =>
      cases hf
      rfl
    | some reason => cases hs
  | _ =>
    cases hf
    rfl

theorem caller_of_signalled {e f : Event} {c : CallerId} (hf : e.unsignalled = some f)
    (hs : e.signalled? = some c) : e.caller? = some c := by
  cases e with
  | abort => cases hf
  | fetch d how first second aborted | refresh d aborted | refreshIfExpired d reading aborted =>
    cases aborted with
    | none => cases hs
    | some reason => exact hs
  | _ => cases hs

theorem seen_without (s : State) {e f : Event} (hf : e.unsignalled = some f)
    (hseen : ∀ c, e.caller? = some c → hidden c = false) :
    step set e (s.without hidden) = (step set e s).without hidden := by
  cases hc : e.caller? with
  | some c => exact s.call_without set e c hc (hseen c hc)
  | none =>
    refine s.inner_without set e ?_
    cases e with
    | abort => cases hf
    | _ => exact hc

/-- Signals of hidden callers make no difference to one step. -/
theorem step_unsignalled {s s' : State} {e f : Event} (hs : s.without hidden = s'.without hidden)
    (hf : e.unsignalled = some f) (hsignals : ∀ c, e.signalled? = some c → hidden c = true) :
    (step set e s).without hidden = (step set f s').without hidden := by
  by_cases hh : ∃ c, e.caller? = some c ∧ hidden c = true
  · obtain ⟨c, hc, hh⟩ := hh
    have hopened : s'.opened set f = s'.opened set e := by
      simp only [opened, opens_unsignalled s' hf]
    rw [call_hidden set s e c hc hh, call_hidden set s' f c (caller_unsignalled hf ▸ hc) hh,
      hopened, ← opened_without, ← opened_without, hs]
  · have hseen : ∀ c, e.caller? = some c → hidden c = false := fun c hc =>
      Bool.eq_false_iff.mpr fun hx => hh ⟨c, hc, hx⟩
    have hnone : e.signalled? = none := by
      cases hx : e.signalled? with
      | none => rfl
      | some c => exact absurd ⟨c, caller_of_signalled hf hx, hsignals c hx⟩ hh
    rw [unsignalled_of_not_signalled hf hnone, ← seen_without set s hf hseen,
      ← seen_without set s' hf hseen, hs]

theorem run_unsignalled {s s' : State} {es : List Event}
    (hs : s.without hidden = s'.without hidden)
    (hsignals : ∀ e ∈ es, ∀ c, e.signalled? = some c → hidden c = true) :
    (s.after set es).without hidden =
        (s'.after set (es.filterMap Event.unsignalled)).without hidden ∧
      visible hidden (s.effects set es) =
        visible hidden (s'.effects set (es.filterMap Event.unsignalled)) := by
  -- The runs are in step but for aborts, which only the first one has.
  induction es generalizing s s' with
  | nil => exact ⟨hs, rfl⟩
  | cons e es ih =>
    have hhead := hsignals e List.mem_cons_self
    have htail : ∀ f ∈ es, ∀ c, f.signalled? = some c → hidden c = true :=
      fun f hf => hsignals f (List.mem_cons_of_mem _ hf)
    cases hf : e.unsignalled with
    | some f =>
      have hstep := step_unsignalled set hs hf hhead
      obtain ⟨hafter, heffects⟩ := ih (congrArg Prod.fst hstep) htail
      have hseen : visible hidden (step set e s).2 = visible hidden (step set f s').2 :=
        congrArg Prod.snd hstep
      rw [List.filterMap_cons_some hf]
      exact ⟨hafter, by simp [hseen, heffects]⟩
    | none =>
      cases e with
      | abort c reason =>
        have hstep := s.abort_without set c reason (hhead c rfl)
        have hnext : (step set (.abort c reason) s).1.without hidden = s.without hidden :=
          congrArg Prod.fst hstep
        have hseen : visible hidden (step set (.abort c reason) s).2 = [] :=
          congrArg Prod.snd hstep
        obtain ⟨hafter, heffects⟩ := ih (hnext.trans hs) htail
        rw [List.filterMap_cons_none hf]
        exact ⟨hafter, by simp [hseen, heffects]⟩
      | _ => cases hf

theorem runs_alike {s : State} {es es' : List Event}
    (hsame : es.filterMap Event.unsignalled = es'.filterMap Event.unsignalled)
    (hsignals : ∀ e ∈ es, ∀ c, e.signalled? = some c → hidden c = true)
    (hsignals' : ∀ e ∈ es', ∀ c, e.signalled? = some c → hidden c = true) :
    (s.after set es).without hidden = (s.after set es').without hidden ∧
      visible hidden (s.effects set es) = visible hidden (s.effects set es') := by
  obtain ⟨hafter, heffects⟩ := run_unsignalled set (s := s) rfl hsignals
  obtain ⟨hafter', heffects'⟩ := run_unsignalled set (s := s) rfl hsignals'
  rw [hsame] at hafter heffects
  exact ⟨hafter.trans hafter'.symm, heffects.trans heffects'.symm⟩

variable {set}

/-- The same refreshes in the same stages, the same token, slot and listeners. -/
structure Alike (s s' : State) : Prop where
  token : s.token = s'.token
  slot : s.slot = s'.slot
  stages : ∀ k, s.stage? k = s'.stage? k
  listeners : s.listeners = s'.listeners

theorem alike_of_without {s s' : State} (h : s.without hidden = s'.without hidden) :
    s.Alike s' := by
  have htoken := congrArg State.token h
  have hslot := congrArg State.slot h
  have hlisteners := congrArg State.listeners h
  exact ⟨htoken, hslot, fun k => by rw [← s.stage?_without, h, stage?_without], hlisteners⟩

theorem waits_without (s : State) (c : CallerId) (hc : hidden c = false) :
    (s.without hidden).waits c = s.waits c := by
  refine Bool.eq_iff_iff.mpr ?_
  simp [waits_iff, hc]

/-- What happens in two runs of the same events happens in the same order. -/
theorem same_prefix {es es' : List Event}
    (hsame : es.filterMap Event.unsignalled = es'.filterMap Event.unsignalled) (n : Nat) :
    ∃ n', (es.take n).filterMap Event.unsignalled = (es'.take n').filterMap Event.unsignalled ∧
      (es.drop n).filterMap Event.unsignalled = (es'.drop n').filterMap Event.unsignalled := by
  rw [← List.take_append_drop n es, List.filterMap_append] at hsame
  obtain ⟨before, rest, rfl, hbefore, hrest⟩ := List.filterMap_eq_append_iff.mp hsame.symm
  exact ⟨before.length, by simp [hbefore], by simp [hrest]⟩

theorem same_callers {es es' : List Event} {c : CallerId}
    (hsame : es.filterMap Event.unsignalled = es'.filterMap Event.unsignalled)
    (h : ∀ e ∈ es, e.caller? ≠ some c) : ∀ e ∈ es', e.caller? ≠ some c := by
  intro e he hc
  have hf : ∃ f, e.unsignalled = some f := by
    cases e <;> first | exact ⟨_, rfl⟩ | cases hc
  obtain ⟨f, hf⟩ := hf
  have hmem : f ∈ es.filterMap Event.unsignalled :=
    hsame ▸ List.mem_filterMap.mpr ⟨e, he, hf⟩
  obtain ⟨d, hd, hdf⟩ := List.mem_filterMap.mp hmem
  exact h d hd (caller_unsignalled hdf ▸ caller_unsignalled hf ▸ hc)

end State
end Bearer.Cache
