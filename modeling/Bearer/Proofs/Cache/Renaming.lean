import Bearer.Proofs.Cache.Delivery
import Bearer.Proofs.Correspondence

namespace Bearer.Cache
variable (R : Token → Token → Prop)

/-- Tokens that stand for one another end at the same time. -/
def KeepsExpiry : Prop := ∀ t u, R t u → t.expiry = u.expiry

/-- The same stage, but for tokens in place of others. -/
inductive Stage.Renamed : Stage → Stage → Prop
  | held : Renamed .held .held
  | working : Renamed .working .working
  | settled {outcome outcome' : Result Token} (h : Result.Rel R outcome outcome') :
      Renamed (.settled outcome) (.settled outcome')
  | notifying {t u : Token} (h : R t u) (l : ListenerId) (rest : List ListenerId) :
      Renamed (.notifying t l rest) (.notifying u l rest)
  | finished {outcome outcome' : Result Token} (h : Result.Rel R outcome outcome') :
      Renamed (.finished outcome) (.finished outcome')

structure Refresh.Renamed (r r' : Refresh) : Prop where
  stage : Stage.Renamed R r.stage r'.stage
  waiters : r.waiters = r'.waiters

structure State.Renamed (s s' : State) : Prop where
  token : Option.Rel R s.token s'.token
  slot : s.slot = s'.slot
  refreshes : List.Forall₂ (Refresh.Renamed R) s.refreshes s'.refreshes
  listeners : s.listeners = s'.listeners

def Effect.isAnswer : Effect → Bool
  | .answer .. => true
  | _ => false

inductive Effect.Renamed : Effect → Effect → Prop
  | answer (c : CallerId) {reply reply' : Result (Option Token)}
      (h : Result.Rel (Option.Rel R) reply reply') : Renamed (.answer c reply) (.answer c reply')
  | same {e : Effect} (h : e.isAnswer = false) : Renamed e e

/-- The token that an event brings into the cache. -/
def Event.brings? : Event → Option Token
  | .settle _ (.ok t) => some t
  | _ => none

inductive Event.Renamed : Event → Event → Prop
  | brings (k : RefreshId) {t u : Token} (h : R t u) :
      Renamed (.settle k (.ok t)) (.settle k (.ok u))
  | same {e : Event} (h : e.brings? = none) : Renamed e e

structure Outcome.Renamed (o o' : Outcome) : Prop where
  state : State.Renamed R o.1 o'.1
  effects : List.Forall₂ (Effect.Renamed R) o.2 o'.2

variable {R}

theorem renamed_of_no_answer {effects : List Effect} (h : ∀ e ∈ effects, e.isAnswer = false) :
    List.Forall₂ (Effect.Renamed R) effects effects :=
  List.forall₂_same.mpr fun e he => .same (h e he)

theorem isAnswer_say (set : Settings) (entry : Log.Entry) :
    ∀ e ∈ set.say entry, e.isAnswer = false := by
  intro e he
  unfold Settings.say at he
  split at he
  · rw [List.mem_singleton.mp he]
    rfl
  · cases he

theorem isAnswer_warn (set : Settings) (message : String) (failure : Thrown) :
    ∀ e ∈ set.warn message failure, e.isAnswer = false := by
  intro e he
  unfold Settings.warn at he
  split at he
  · split at he
    · rw [List.mem_singleton.mp he]
      rfl
    · cases he
  · cases he

theorem isAnswer_complaint {set : Settings} {failure : Option Thrown} {said : List Effect}
    (h : set.complaint failure = .ok said) : ∀ e ∈ said, e.isAnswer = false := by
  intro e he
  obtain rfl | ⟨entry, rfl⟩ := Settings.complaint_cases h
  · cases he
  · rw [List.mem_singleton.mp he]
    rfl

theorem renamed_answers {outcome outcome' : Result Token} (h : Result.Rel R outcome outcome')
    (cs : List CallerId) :
    List.Forall₂ (Effect.Renamed R) (cs.map (State.answerOf outcome))
      (cs.map (State.answerOf outcome')) := by
  induction cs with
  | nil => exact .nil
  | cons c cs ih => exact .cons (.answer c (h.map fun _ _ => Option.Rel.some)) ih

namespace State
variable (set : Settings) {s s' : State}

namespace Renamed

theorem freshness (h : State.Renamed R s s') (hR : KeepsExpiry R)
    (now : Double) : s.freshness now = s'.freshness now := by
  have htoken := h.token
  unfold State.freshness
  cases ht : s.token with
  | none =>
    rw [ht] at htoken
    generalize s'.token = token' at htoken
    cases htoken
    rfl
  | some t =>
    rw [ht] at htoken
    generalize s'.token = token' at htoken
    cases htoken with
    | some hp => simp [Token.freshness, hR _ _ hp]

theorem stage (h : State.Renamed R s s') (k : RefreshId) :
    Option.Rel (Stage.Renamed R) (s.stage? k) (s'.stage? k) := by
  have hk := Correspondence.getElem? h.refreshes k
  unfold State.stage?
  generalize s.refreshes[k]? = r at hk
  generalize s'.refreshes[k]? = r' at hk
  cases hk with
  | some hr => exact .some hr.stage
  | none => exact .none

theorem waitersOf (h : State.Renamed R s s') (k : RefreshId) : s.waitersOf k = s'.waitersOf k := by
  have hk := Correspondence.getElem? h.refreshes k
  unfold State.waitersOf
  generalize s.refreshes[k]? = r at hk
  generalize s'.refreshes[k]? = r' at hk
  cases hk with
  | some hr => simp [hr.waiters]
  | none => rfl

theorem length (h : State.Renamed R s s') : s.refreshes.length = s'.refreshes.length :=
  h.refreshes.length_eq

theorem modify (h : State.Renamed R s s') (k : RefreshId) {f g : Refresh → Refresh}
    (hfg : ∀ r r', Refresh.Renamed R r r' → Refresh.Renamed R (f r) (g r')) :
    State.Renamed R { s with refreshes := s.refreshes.modify k f }
      { s' with refreshes := s'.refreshes.modify k g } :=
  { h with refreshes := Correspondence.modify h.refreshes hfg k }

theorem setStage (h : State.Renamed R s s') (k : RefreshId) {stage stage' : Stage}
    (hs : Stage.Renamed R stage stage') :
    State.Renamed R (s.setStage k stage) (s'.setStage k stage') :=
  h.modify k fun _ _ hr => ⟨hs, hr.waiters⟩

theorem clear (h : State.Renamed R s s') (k : RefreshId) :
    State.Renamed R (s.clear k) (s'.clear k) := by
  unfold State.clear
  rw [h.slot]
  split
  · exact { h with slot := rfl }
  · exact h

theorem start (h : State.Renamed R s s') (how : Start) :
    Outcome.Renamed R (s.start set how) (s'.start set how) := by
  have hstarted (stage : Stage) (hs : Stage.Renamed R stage stage) :
      State.Renamed R
        { s with refreshes := s.refreshes ++ [⟨stage, []⟩], slot := some s.refreshes.length }
        { s' with refreshes := s'.refreshes ++ [⟨stage, []⟩], slot := some s'.refreshes.length } :=
    { h with
      slot := congrArg some h.length
      refreshes := List.rel_append h.refreshes (.cons ⟨hs, rfl⟩ .nil) }
  have hsaid {e e' : Effect} (he : e = e') (hn : e.isAnswer = false) :
      List.Forall₂ (Effect.Renamed R) (set.say (Log.debug "refreshing access token") ++ [e])
        (set.say (Log.debug "refreshing access token") ++ [e']) := by
    subst he
    exact List.rel_append (renamed_of_no_answer (isAnswer_say set _)) (.cons (.same hn) .nil)
  cases how with
  | now => exact ⟨hstarted _ .working, hsaid (congrArg Effect.run h.length) rfl⟩
  | later => exact ⟨hstarted _ .held, hsaid (congrArg Effect.hold h.length) rfl⟩
  | refused failure =>
    exact ⟨hstarted _ (.settled (.error failure)), hsaid (congrArg Effect.due h.length) rfl⟩

theorem joinSlot (h : State.Renamed R s s') (c : CallerId) :
    State.Renamed R (s.joinSlot c) (s'.joinSlot c) := by
  unfold State.joinSlot
  rw [h.slot]
  split
  · exact h.modify _ fun _ _ hr => ⟨hr.stage, by simp [hr.waiters]⟩
  · exact h

theorem leave (h : State.Renamed R s s') (c : CallerId) :
    State.Renamed R (s.leave c) (s'.leave c) := by
  refine { h with refreshes := ?_ }
  refine List.rel_map (fun r r' hr => ?_) h.refreshes
  exact ⟨hr.stage, by simp [hr.waiters]⟩

theorem finish (h : State.Renamed R s s') (k : RefreshId) {outcome outcome' : Result Token}
    (ho : Result.Rel R outcome outcome') :
    Outcome.Renamed R (s.finish set k outcome) (s'.finish set k outcome') := by
  have hwaiters : ((s.refreshes[k]?).map Refresh.waiters).getD [] =
      ((s'.refreshes[k]?).map Refresh.waiters).getD [] := h.waitersOf k
  refine ⟨h.modify k fun _ _ _ => ⟨.finished ho, rfl⟩, ?_⟩
  simp only [State.finish, hwaiters]
  refine List.rel_append ?_ (renamed_answers ho _)
  cases ho with
  | ok _ => exact .nil
  | error failure => exact renamed_of_no_answer (isAnswer_warn set _ _)

theorem notifyNext (h : State.Renamed R s s') (k : RefreshId) {t u : Token} (hp : R t u)
    {left left' : List ListenerId} (hleft : left = left') :
    Outcome.Renamed R (s.notifyNext set k t left) (s'.notifyNext set k u left') := by
  subst hleft
  cases left with
  | nil => exact h.finish set k (.ok hp)
  | cons l rest => exact ⟨h.setStage k (.notifying hp l rest), .cons (.same rfl) .nil⟩

theorem opens (h : State.Renamed R s s') (hR : KeepsExpiry R) (e : Event) :
    s.opens e = s'.opens e := by
  cases e <;> simp [State.opens, h.slot, h.freshness hR]

theorem opened (h : State.Renamed R s s') (hR : KeepsExpiry R) (e : Event) :
    Outcome.Renamed R (s.opened set e) (s'.opened set e) := by
  unfold State.opened
  rw [h.opens hR e]
  split
  · exact h.start set _
  · exact ⟨h, .nil⟩

theorem reply (h : State.Renamed R s s') (hR : KeepsExpiry R) (e : Event) :
    Option.Rel (Result.Rel (Option.Rel R)) (s.reply? e) (s'.reply? e) := by
  have hdenied (aborted : Option Thrown) :
      Option.Rel (Result.Rel (Option.Rel R)) (aborted.map denial) (aborted.map denial) := by
    cases aborted with
    | none => exact .none
    | some reason => exact .some (.error _)
  cases e with
  | fetch caller how first second aborted =>
    simp only [State.reply?, h.freshness hR]
    split
    · cases aborted with
      | none => exact .some (.ok h.token)
      | some reason => exact .some (.error _)
    · exact hdenied aborted
  | refresh caller aborted => exact hdenied aborted
  | refreshIfExpired caller reading aborted =>
    simp only [State.reply?, h.freshness hR]
    split
    · exact .some (.ok .none)
    · exact hdenied aborted
  | _ => exact .none

theorem step_call (h : State.Renamed R s s') (hR : KeepsExpiry R)
    {e : Event} {c : CallerId} (hc : e.caller? = some c) :
    Outcome.Renamed R (step set e s) (step set e s') := by
  obtain ⟨hstate, heffects⟩ := h.opened set hR e
  have hreply := h.reply hR e
  rw [State.step_call set s e c hc, State.step_call set s' e c hc]
  generalize s.reply? e = reply at hreply
  generalize s'.reply? e = reply' at hreply
  cases hreply with
  | some hr => exact ⟨hstate, List.rel_append heffects (.cons (.answer c hr) .nil)⟩
  | none => exact ⟨hstate.joinSlot c, heffects⟩

theorem settle (h : State.Renamed R s s') (k : RefreshId) {outcome outcome' : Result Token}
    (ho : Result.Rel R outcome outcome') :
    Outcome.Renamed R (s.settle k outcome) (s'.settle k outcome') := by
  have hk := h.stage k
  unfold State.settle
  generalize s.stage? k = stage at hk
  generalize s'.stage? k = stage' at hk
  cases hk with
  | none => exact ⟨h, .nil⟩
  | some hs =>
    cases hs with
    | working => exact ⟨h.setStage k (.settled ho), .cons (.same rfl) .nil⟩
    | _ => exact ⟨h, .nil⟩

theorem launch (h : State.Renamed R s s') (k : RefreshId) :
    Outcome.Renamed R (s.launch k) (s'.launch k) := by
  have hk := h.stage k
  unfold State.launch
  generalize s.stage? k = stage at hk
  generalize s'.stage? k = stage' at hk
  cases hk with
  | none => exact ⟨h, .nil⟩
  | some hs =>
    cases hs with
    | held => exact ⟨h.setStage k .working, .cons (.same rfl) .nil⟩
    | _ => exact ⟨h, .nil⟩

theorem process (h : State.Renamed R s s') (k : RefreshId) :
    Outcome.Renamed R (s.process set k) (s'.process set k) := by
  have hk := h.stage k
  unfold State.process
  generalize s.stage? k = stage at hk
  generalize s'.stage? k = stage' at hk
  cases hk with
  | none => exact ⟨h, .nil⟩
  | some hs =>
    cases hs with
    | settled ho =>
      cases ho with
      | @ok t u hp =>
        have hnew : State.Renamed R { s with token := some t } { s' with token := some u } :=
          ⟨.some hp, h.slot, h.refreshes, h.listeners⟩
        obtain ⟨hstate, heffects⟩ := (hnew.clear k).notifyNext set k hp (hnew.clear k).listeners
        exact ⟨hstate, List.rel_append (renamed_of_no_answer (isAnswer_say set _)) heffects⟩
      | error failure => exact (h.clear k).finish set k (.error failure)
    | _ => exact ⟨h, .nil⟩

theorem listenerDone (h : State.Renamed R s s') (k : RefreshId) (failure : Option Thrown) :
    Outcome.Renamed R (s.listenerDone set k failure) (s'.listenerDone set k failure) := by
  have hk := h.stage k
  cases hs : s.stage? k with
  | none =>
    rw [hs] at hk
    have hs' : s'.stage? k = none := by
      generalize s'.stage? k = stage' at hk
      cases hk
      rfl
    simp only [State.listenerDone, hs, hs']
    exact ⟨h, .nil⟩
  | some stage =>
    rw [hs] at hk
    obtain ⟨stage', hs', hstage⟩ : ∃ stage', s'.stage? k = some stage' ∧
        Stage.Renamed R stage stage' := by
      generalize s'.stage? k = x at hk
      cases hk with
      | some hstage => exact ⟨_, rfl, hstage⟩
    cases hstage with
    | @notifying t u hp l rest =>
      rw [listenerDone_eq set s k failure t l rest hs,
        listenerDone_eq set s' k failure u l rest hs']
      cases hf : set.complaint failure with
      | ok said =>
        obtain ⟨hstate, heffects⟩ := h.notifyNext set k hp rfl
        exact ⟨hstate, List.rel_append (renamed_of_no_answer (isAnswer_complaint hf)) heffects⟩
      | error fault => exact h.finish set k (.error _)
    | _ =>
      simp only [State.listenerDone, hs, hs']
      exact ⟨h, .nil⟩

theorem waits (h : State.Renamed R s s') (c : CallerId) : s.waits c = s'.waits c := by
  refine Bool.eq_iff_iff.mpr ?_
  simp only [waits_iff, h.waitersOf]

theorem step (h : State.Renamed R s s') (hR : KeepsExpiry R)
    {e e' : Event} (he : Event.Renamed R e e') :
    Outcome.Renamed R (Cache.step set e s) (Cache.step set e' s') := by
  cases he with
  | brings k hp => exact h.settle k (.ok hp)
  | same hnone =>
    cases e with
    | fetch | refresh | refreshIfExpired => exact h.step_call set hR rfl
    | launch k => exact h.launch k
    | settle k outcome =>
      cases outcome with
      | ok t => cases hnone
      | error failure => exact h.settle k (.error failure)
    | process k => exact h.process set k
    | listenerDone k failure => exact h.listenerDone set k failure
    | listen l => exact ⟨{ h with listeners := congrArg (· ++ [l]) h.listeners }, .nil⟩
    | abort c reason =>
      simp only [Cache.step, State.abort, h.waits c]
      split
      · exact ⟨h.leave c, .cons (.answer c (.error _)) .nil⟩
      · exact ⟨h, .nil⟩
    | callbackFailed failure => exact ⟨h, renamed_of_no_answer (isAnswer_warn set _ _)⟩

end Renamed
end State
end Bearer.Cache
