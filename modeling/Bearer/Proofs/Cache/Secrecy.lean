import Bearer.Proofs.Cache.Renaming

namespace Bearer
namespace Cache

def Effect.logged? : Effect → Option Log.Entry
  | .log entry => some entry
  | _ => none

def logged (effects : List Effect) : List Log.Entry := effects.filterMap Effect.logged?

variable {R : Token → Token → Prop} {effects effects' : List Effect}

theorem logged_renamed (h : List.Forall₂ (Effect.Renamed R) effects effects') :
    logged effects = logged effects' := by
  induction h with
  | nil => rfl
  | cons hhead _ ih =>
    simp only [logged, List.filterMap_cons] at ih ⊢
    cases hhead with
    | answer => exact ih
    | same => rw [ih]

theorem callsFor_renamed (h : List.Forall₂ (Effect.Renamed R) effects effects')
    (k : RefreshId) : callsFor k effects = callsFor k effects' := by
  induction h with
  | nil => rfl
  | cons hhead _ ih =>
    rw [callsFor_cons, callsFor_cons, ih]
    cases hhead <;> rfl

theorem answersTo_renamed (h : List.Forall₂ (Effect.Renamed R) effects effects')
    (c : CallerId) :
    List.Forall₂ (Result.Rel (Option.Rel R)) (answersTo c effects) (answersTo c effects') := by
  refine List.rel_filterMap (fun e e' he => ?_) h
  cases he with
  | answer d hreply =>
    by_cases hd : d = c
    · simp only [Effect.answer?, hd, ↓reduceIte]
      exact .some hreply
    · simp only [Effect.answer?, hd, ↓reduceIte]
      exact .none
  | @same e he =>
    cases e with
    | answer => cases he
    | _ => exact .none

theorem State.Renamed.run (set : Settings) {s s' : State} (h : State.Renamed R s s')
    (hR : KeepsExpiry R) {es es' : List Event} (hes : List.Forall₂ (Event.Renamed R) es es') :
    Outcome.Renamed R (Cache.run set es s) (Cache.run set es' s') := by
  induction hes generalizing s s' with
  | nil => exact ⟨h, .nil⟩
  | cons he _ ih =>
    obtain ⟨hnext, heffects⟩ := h.step set hR he
    obtain ⟨hlast, hmore⟩ := ih hnext
    exact ⟨hlast, List.rel_append heffects hmore⟩

end Cache

/-- The same header, or the header that carries a token, with one token in place of another. -/
def Token.SameHeader (t u : Token) (h h' : String × List String) : Prop :=
  h = h' ∨ h = (authorizationHeader, [bearerScheme ++ t.value]) ∧
    h' = (authorizationHeader, [bearerScheme ++ u.value])

namespace Metadata
variable {t u : Token} {m m' : Metadata}

theorem set_sameHeader (h : List.Forall₂ (t.SameHeader u) m m') (name : String)
    (values : List String) :
    List.Forall₂ (t.SameHeader u) (m.set name values) (m'.set name values) := by
  induction h with
  | nil => exact .cons (.inl rfl) .nil
  | @cons a b _ _ hhead htail ih =>
    have hname : a.1 = b.1 := by
      rcases hhead with rfl | ⟨rfl, rfl⟩ <;> rfl
    simp only [set, hname]
    split
    · exact .cons (.inl rfl) htail
    · exact .cons hhead ih

end Metadata

/-- Headers for two tokens differ in the header that carries the token, if at all. -/
theorem Credential.decorate_sameHeader (c : Credential) (t u : Token) :
    List.Forall₂ (t.SameHeader u) (c.decorate t.metadata) (c.decorate u.metadata) := by
  have hplain : List.Forall₂ (t.SameHeader u) t.metadata u.metadata :=
    .cons (.inr ⟨rfl, rfl⟩) .nil
  have hheaders (hs : Metadata) {m m' : Metadata} (h : List.Forall₂ (t.SameHeader u) m m') :
      List.Forall₂ (t.SameHeader u) (hs.foldl (fun m h => Metadata.set m h.1 h.2) m)
        (hs.foldl (fun m h => Metadata.set m h.1 h.2) m') := by
    induction hs generalizing m m' with
    | nil => exact h
    | cons a hs ih => exact ih (Metadata.set_sameHeader h a.1 a.2)
  unfold decorate
  cases c.quotaProject.filled? with
  | none => exact hheaders c.headers hplain
  | some project => exact hheaders c.headers (Metadata.set_sameHeader hplain _ _)

namespace Cache

/-- What a credential makes of an answer: headers that differ where they carry the token, or
the same failure. -/
def HandedAlike (R : Token → Token → Prop) (reply reply' : Result (Option Token)) : Prop :=
  Result.Rel (Option.Rel R) reply reply' ∧ ∀ c : Credential,
    Result.Rel (fun m m' => ∃ t u, R t u ∧ List.Forall₂ (t.SameHeader u) m m')
      (c.headersOf (Session.givenToken reply)) (c.headersOf (Session.givenToken reply'))

theorem handedAlike {reply reply' : Result (Option Token)}
    (h : Result.Rel (Option.Rel R) reply reply') : HandedAlike R reply reply' := by
  refine ⟨h, fun c => ?_⟩
  cases h with
  | error failure => exact .error failure
  | ok h =>
    cases h with
    | none => exact .error .undefined
    | @some t u h => exact .ok ⟨t, u, h, c.decorate_sameHeader t u⟩

open State in
/-- Two runs of the same events with other tokens, each ending when the one ends that it
stands for, are in step at every moment: the same refreshes in the same stages, the same slot,
listeners and waiters, the same freshness at every reading of the clock, the same start or
none by whatever call comes next, the same effects in the same order. So the listeners are
called alike, the log is the same from beginning to end, failures are the same, and the
answers are the same but that a token stands for another; of the headers that a credential
makes of it only the one that carries the token differs. -/
theorem token_values_opaque (set : Settings) (R : Token → Token → Prop) (hR : KeepsExpiry R)
    (token token' : Option Token) (htoken : Option.Rel R token token') (es es' : List Event)
    (hes : List.Forall₂ (Event.Renamed R) es es') :
    let s := initial token
    let s' := initial token'
    (∀ n, State.Renamed R (s.moment set es n) (s'.moment set es' n) ∧
      (∀ now, (s.moment set es n).freshness now = (s'.moment set es' n).freshness now) ∧
      (∀ e, (s.moment set es n).opens e = (s'.moment set es' n).opens e) ∧
      List.Forall₂ (Effect.Renamed R) (s.effects set (es.take n))
        (s'.effects set (es'.take n))) ∧
    logged (s.effects set es) = logged (s'.effects set es') ∧
    (∀ k, callsFor k (s.effects set es) = callsFor k (s'.effects set es')) ∧
    ∀ c, List.Forall₂ (HandedAlike R) (answersTo c (s.effects set es))
      (answersTo c (s'.effects set es')) := by
  intro s s'
  have hinitial : State.Renamed R s s' := ⟨htoken, rfl, .nil, rfl⟩
  have heffects := (hinitial.run set hR hes).effects
  refine ⟨fun n => ?_, logged_renamed heffects, callsFor_renamed heffects, fun c =>
    (answersTo_renamed heffects c).imp fun _ _ => handedAlike⟩
  have hrun := hinitial.run set hR (List.forall₂_take n hes)
  exact ⟨hrun.state, hrun.state.freshness hR, hrun.state.opens hR, hrun.effects⟩

/-- A refresh in the background of a call that is served, and a call after it. -/
def renewal (new : String) : List Event :=
  [.listen 0, .fetch 10 .now 0 0 none, .refresh 11 none, .settle 0 (.ok ⟨new, .never⟩),
    .process 0, .listenerDone 0 (some (.plain .plain "store unavailable")),
    .fetch 12 .now 0 0 none]

open State in
/-- The log tells of the refresh and of the listener's failure, not of the tokens. -/
theorem token_values_opaque_renewal :
    logged ((initial (some ⟨"hers", .never⟩)).effects {} (renewal "hers, renewed")) =
      logged ((initial (some ⟨"his", .never⟩)).effects {} (renewal "his, renewed")) ∧
    answersTo 10 ((initial (some ⟨"his", .never⟩)).effects {} (renewal "his, renewed")) =
      [.ok (some ⟨"his", .never⟩)] := by
  let R (t u : Token) : Prop :=
    (t = ⟨"hers", .never⟩ ∧ u = ⟨"his", .never⟩) ∨
      (t = ⟨"hers, renewed", .never⟩ ∧ u = ⟨"his, renewed", .never⟩)
  have hR : KeepsExpiry R := by
    rintro t u (⟨rfl, rfl⟩ | ⟨rfl, rfl⟩) <;> rfl
  have hes : List.Forall₂ (Event.Renamed R) (renewal "hers, renewed") (renewal "his, renewed") :=
    .cons (.same rfl) (.cons (.same rfl) (.cons (.same rfl)
      (.cons (.brings 0 (.inr ⟨rfl, rfl⟩)) (.cons (.same rfl) (.cons (.same rfl)
        (.cons (.same rfl) .nil))))))
  obtain ⟨-, hlog, -, hanswers⟩ := token_values_opaque {} R hR _ _
    (.some (.inl ⟨rfl, rfl⟩)) _ _ hes
  refine ⟨hlog, ?_⟩
  have hown : answersTo 10
      ((initial (some ⟨"hers", .never⟩)).effects {} (renewal "hers, renewed")) =
        [.ok (some ⟨"hers", .never⟩)] := rfl
  have hten := hanswers 10
  rw [hown] at hten
  generalize answersTo 10 _ = answers at hten
  cases hten with
  | cons hhead htail =>
    cases htail
    cases hhead.1 with
    | ok hpair =>
      cases hpair with
      | some hpair =>
        rcases hpair with ⟨-, rfl⟩ | ⟨hne, -⟩
        · rfl
        · exact absurd hne (by decide)

end Cache
end Bearer
