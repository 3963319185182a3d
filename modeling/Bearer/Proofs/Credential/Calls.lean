import Bearer.Proofs.Cache.Delivery
import Bearer.Proofs.Http.Answers
import Bearer.Proofs.Session.Fates

namespace Bearer

open Session

def Procedure.andThen {α : Type} (k : Result α → Procedure Ending) :
    Procedure α → Procedure Ending
  | .done outcome => k outcome
  | .ask q next => .ask q fun r => (next r).andThen k

namespace Procedure
variable {α β : Type}

theorem andThen_bind (k : Result β → Procedure Ending) (f : α → Procedure β)
    (p : Procedure α) : (p >>= f).andThen k = p.andThen fun
      | .ok a => (f a).andThen k
      | .error e => k (.error e) := by
  induction p with
  | done outcome => cases outcome <;> rfl
  | ask q next ih => exact congrArg (ask q) (funext ih)

theorem andThen_attempt (k : Result (Result α) → Procedure Ending) (p : Procedure α) :
    p.attempt.andThen k = p.andThen fun outcome => k (.ok outcome) := by
  induction p with
  | done outcome => rfl
  | ask q next ih => exact congrArg (ask q) (funext ih)

theorem map_attempt (f : Result α → Ending) (p : Procedure α) :
    f <$> p.attempt = p.andThen fun outcome => .done (.ok (f outcome)) := by
  induction p with
  | done outcome => rfl
  | ask q next ih => exact congrArg (ask q) (funext ih)

end Procedure

namespace Credential

/-- A credential that caches its token is looked at, and then asked for it. -/
theorem requestMetadata_asks_cache (self : CredentialId) (uri : Given String)
    (signal : Option Signal) :
    ∃ next, requestMetadata self uri signal = .ask (.credential self) next ∧
      ∀ c : Credential, (∀ a, c.kind ≠ .jwtAccess a) →
        next c = .ask (.fetch self .direct signal) fun outcome => .done (c.headersOf outcome) := by
  refine ⟨_, rfl, fun c hc => ?_⟩
  obtain ⟨setup, kind⟩ := c
  cases kind with
  | jwtAccess a => exact absurd rfl (hc a)
  | _ => exact congrArg (Procedure.ask _) (funext fun outcome => by cases outcome <;> rfl)

theorem requestMetadataAsync_asks_cache (self : CredentialId) (call : String)
    (uri : Given String) (executor : Executor) (throwing : Option Thrown) :
    ∃ next, requestMetadataAsync self call uri executor throwing =
        .ask (.credential self) next ∧
      ∀ c : Credential, (∀ a, c.kind ≠ .jwtAccess a) →
        next c = .ask (.fetch self executor none) fun outcome =>
          callBack self call throwing (c.headersOf outcome) := by
  refine ⟨_, rfl, fun c hc => ?_⟩
  obtain ⟨setup, kind⟩ := c
  cases kind with
  | jwtAccess a => exact absurd rfl (hc a)
  | _ => exact congrArg (Procedure.ask _) (funext fun outcome => by cases outcome <;> rfl)

theorem refresh_asks_cache (self : CredentialId) (signal : Option Signal) :
    ∃ next, refresh self signal = .ask (.credential self) next ∧
      ∀ c : Credential, (∀ a, c.kind ≠ .jwtAccess a) → next c = refreshToken self signal := by
  refine ⟨_, rfl, fun c hc => ?_⟩
  obtain ⟨setup, kind⟩ := c
  cases kind with
  | jwtAccess a => exact absurd rfl (hc a)
  | _ => rfl

theorem keeps_requestMetadata {d : Discipline} {start v : View} {self : CredentialId}
    {uri : Given String} {signal : Option Signal} {k : Result Metadata → Procedure Ending}
    (hlater : d.Later start v) (hkind : ∀ a, (v.credential self).kind ≠ .jwtAccess a)
    (hpart : d.takesPart self) (hself : self < v.table.length)
    (hawaits : d.awaits self signal fun r => k ((v.credential self).headersOf (givenToken r)))
    (hk : ∀ r v', d.Later v v' → (∀ t, r = .ok (some t) → d.token v'.contacts self t) →
      d.Keeps v' v' (k ((v.credential self).headersOf (givenToken r)))) :
    d.Keeps start v ((requestMetadata self uri signal).andThen k) := by
  obtain ⟨next, heq, hnext⟩ := requestMetadata_asks_cache self uri signal
  rw [heq]
  show d.Keeps start v ((next (v.credential self)).andThen k)
  rw [hnext _ hkind]
  exact ⟨hlater, ⟨hpart, hself, fun _ => rfl⟩, hawaits, hk⟩

/-- The operation of a refresh is what the kind of the credential makes it. -/
theorem requestToken_looks (self : CredentialId) :
    ∃ next, requestToken self = .ask (.credential self) next ∧
      (∀ (c : Credential) e, c.kind = .externalAccount e → next c = e.requestToken) ∧
      (∀ (c : Credential) i, c.kind = .impersonated i → next c = i.requestToken self) ∧
      (∀ (c : Credential) a, c.kind = .serviceAccount a → next c = a.requestToken) ∧
      next default = .raise .refreshNotSupported := by
  refine ⟨_, rfl, ?_, ?_, ?_, rfl⟩ <;>
    · rintro ⟨setup, kind⟩ made rfl
      rfl

end Credential

namespace Impersonated

variable (i : Impersonated) (self : CredentialId)

/-- The source is asked for as it is, or gives way to a copy if it lacks scopes. -/
theorem scopedSource_looks :
    ∃ next, i.scopedSource self = .ask (.credential i.source) next ∧
      (∀ (c : Credential) a, c.kind = .serviceAccount a → a.scopes.isEmpty = true →
        next c = .ask (.create (a.withScopes c [Google.cloudPlatformScope])) fun copy =>
          .ask (.redirect self copy) fun _ => .done (.ok copy)) ∧
      (∀ (c : Credential) a, c.kind = .serviceAccount a → a.scopes.isEmpty = false →
        next c = .done (.ok i.source)) ∧
      (∀ (c : Credential) e, c.kind = .externalAccount e → next c = .done (.ok i.source)) := by
  refine ⟨_, rfl, ?_, ?_, ?_⟩
  · rintro ⟨setup, kind⟩ a rfl hscopes
    exact if_pos hscopes
  · rintro ⟨setup, kind⟩ a rfl hscopes
    exact if_neg (by rw [hscopes]; exact Bool.false_ne_true)
  · rintro ⟨setup, kind⟩ e rfl
    rfl

theorem sourceMetadata_andThen (k : Result Metadata → Procedure Ending) :
    (i.sourceMetadata self).andThen k = (i.scopedSource self).andThen fun
      | .ok source => (Credential.requestMetadata source (.value i.iamEndpoint)).andThen fun
        | .ok metadata => k (.ok metadata)
        | .error cause => k (.error (Fault.sourceNotRefreshed cause).thrown)
      | .error e => k (.error e) := by
  rw [sourceMetadata, Procedure.andThen_bind]
  congr 1
  funext outcome
  cases outcome with
  | error e => rfl
  | ok source =>
    dsimp only
    rw [Procedure.andThen_bind, Procedure.andThen_attempt]
    congr 1
    funext outcome
    cases outcome <;> rfl

theorem requestToken_andThen (k : Result Token → Procedure Ending) :
    (i.requestToken self).andThen k = (i.sourceMetadata self).andThen fun
      | .ok metadata => .ask (.send (Http.postJson i.iamEndpoint i.mintingData
          (Http.Headers.ofMetadata metadata))) fun
        | .ok response => k (tokenIn response)
        | .error e => k (.error e)
      | .error e => k (.error e) := by
  rw [requestToken, Procedure.andThen_bind]
  congr 1
  funext outcome
  cases outcome with
  | error e => rfl
  | ok metadata =>
    refine congrArg (Procedure.ask _) (funext fun outcome => ?_)
    cases outcome with
    | error e => rfl
    | ok response =>
      show Procedure.andThen k (.done (tokenIn response)) = _
      rfl

theorem sign_andThen (bytes : List UInt8) (k : Result (List UInt8) → Procedure Ending) :
    (i.sign self bytes).andThen k = (i.sourceMetadata self).andThen fun
      | .ok metadata => .ask (.send (Iam.signRequest i.target metadata bytes)) fun
        | .ok response => k (Iam.signatureIn response)
        | .error e => k (.error e)
      | .error e => k (.error e) := by
  rw [sign, Procedure.andThen_bind]
  congr 1
  funext outcome
  cases outcome with
  | error e => rfl
  | ok metadata =>
    refine congrArg (Procedure.ask _) (funext fun outcome => ?_)
    cases outcome with
    | error e => rfl
    | ok response =>
      show Procedure.andThen k (.done (Iam.signatureIn response)) = _
      rfl

end Impersonated

namespace Credential

/-- Credentials that impersonate have the service sign. -/
theorem sign_looks (self : CredentialId) (bytes : List UInt8) :
    ∃ next, sign self bytes = .ask (.credential self) next ∧
      ∀ (c : Credential) i, c.kind = .impersonated i → next c = i.sign self bytes := by
  refine ⟨_, rfl, ?_⟩
  rintro ⟨setup, kind⟩ i rfl
  rfl

/-- What an application has a credential do: it asks for headers, awaits them or has them told
to a callback, or has the token refreshed. -/
inductive Calls (self : CredentialId) : Procedure Ending → Prop
  | requestMetadata (name : String) (uri : Given String) (signal : Option Signal) :
      Calls self (Ending.call name <$>
        (Answer.metadata <$> Credential.requestMetadata self uri signal).attempt)
  | requestMetadataAsync (name : String) (uri : Given String) (executor : Executor)
      (throwing : Option Thrown) :
      Calls self ((fun _ => Ending.nothing) <$>
        (Credential.requestMetadataAsync self name uri executor throwing).attempt)
  | refresh (name : String) (signal : Option Signal) :
      Calls self (Ending.call name <$>
        ((fun _ => Answer.nothing) <$> Credential.refresh self signal).attempt)
  | refreshIfExpired (name : String) (signal : Option Signal) :
      Calls self (Ending.call name <$>
        ((fun _ => Answer.nothing) <$> refreshTokenIfExpired self signal).attempt)

/-- All that is left of a call is to come back with a failure, or to call back with it. -/
inductive Rejection (self : CredentialId) (name : String) (e : Thrown) : Procedure Ending → Prop
  | call : Rejection self name e (.done (.ok (.call name (.error e))))
  | callBack (throwing : Option Thrown) : Rejection self name e
      ((fun _ => Ending.nothing) <$> (Credential.callBack self name throwing (.error e)).attempt)

/-- If there is no token, the call is rejected. -/
def Rejects (self : CredentialId) (next : Result (Option Token) → Procedure Ending) : Prop :=
  ∃ name, ∀ e, Rejection self name e (next (.error e))

theorem Calls.elsewhere {self : CredentialId} {p : Procedure Ending} (h : Calls self p)
    (c : CredentialId) (k : Cache.RefreshId) : Elsewhere c k p := by
  cases h with
  | requestMetadataAsync => exact elsewhere_attempt _ nofun
  | requestMetadata | refresh | refreshIfExpired => exact elsewhere_attempt _ nofun

end Credential

/-- What is seen hands out no headers but such. -/
def Session.Observation.HandsOnly (ok : Metadata → Prop) : Session.Observation → Prop
  | .answered _ (.ok (.metadata m)) | .noted (.calledBack _ (.ok m)) => ok m
  | .answered _ (.ok .nothing) | .answered _ (.ok (.bytes _)) | .answered _ (.error _) => True
  | .noted (.calledBack _ (.error _)) | .logged _ | .sent _ => True
  | _ => False

theorem Session.Observation.HandsOnly.mono {ok ok' : Metadata → Prop}
    (hok : ∀ m, ok m → ok' m) {o : Session.Observation} (h : o.HandsOnly ok) :
    o.HandsOnly ok' := by
  unfold HandsOnly at h ⊢
  split at h
  · exact hok _ h
  · exact hok _ h
  all_goals trivial

namespace Session.Discipline

open Credential

variable {d : Discipline} {v : View} {self : CredentialId}

/-- What a call that was made with a callback has come to may be handed to it. If the callback
throws, the cache is told. -/
theorem keeps_callBack (hgood : d.good v) (hpart : d.takesPart self) {name : String}
    {outcome : Result Metadata} (hsees : d.sees v.contacts (.noted (.calledBack name outcome)))
    (throwing : Option Thrown) :
    d.Keeps v v ((fun _ => Ending.nothing) <$>
      (Credential.callBack self name throwing outcome).attempt) := by
  refine ⟨hsees, ?_⟩
  cases throwing with
  | none => exact ⟨.refl hgood, trivial⟩
  | some failure => exact ⟨hpart, .refl hgood, trivial⟩

/-- Calls of a credential keep the discipline if they may ask its cache, and the headers of its
tokens may be seen. -/
theorem keeps_call {p : Procedure Ending} (hp : Calls self p) (hgood : d.good v)
    (hkind : ∀ a, (v.credential self).kind ≠ .jwtAccess a) (hpart : d.takesPart self)
    (hself : self < v.table.length) (hfree : ¬ d.fetched self)
    (hawaits : ∀ signal next, Rejects self next → d.awaits self signal next)
    (hanswered : ∀ v' name t, d.Later v v' → d.token v'.contacts self t →
      d.sees v'.contacts
        (.answered name (.ok (.metadata ((v.credential self).decorate t.metadata)))))
    (hcalled : ∀ v' name t, d.Later v v' → d.token v'.contacts self t →
      d.sees v'.contacts
        (.noted (.calledBack name (.ok ((v.credential self).decorate t.metadata)))))
    (hnothing : ∀ contacts name, d.sees contacts (.answered name (.ok .nothing)))
    (hrejected : ∀ contacts name e, d.sees contacts (.answered name (.error e)) ∧
      d.sees contacts (.noted (.calledBack name (.error e)))) : d.Keeps v v p := by
  have hnow : d.Later v v := .refl hgood
  cases hp with
  | requestMetadata name uri signal =>
    obtain ⟨next, heq, hnext⟩ := requestMetadata_asks_cache self uri signal
    rw [heq]
    show d.Keeps v v (Ending.call name <$>
      (Answer.metadata <$> next (v.credential self)).attempt)
    rw [hnext _ hkind]
    refine ⟨hnow, ⟨hpart, hself, fun _ => rfl⟩, hawaits signal _ ⟨name, fun e => .call⟩,
      fun r v' hlater htoken => ?_⟩
    have hthen : d.Later v' v' := .refl hlater.good
    rcases r with e | - | t
    · exact ⟨hthen, (hrejected _ name e).1⟩
    · exact ⟨hthen, (hrejected _ name _).1⟩
    · exact ⟨hthen, hanswered v' name t hlater (htoken t rfl)⟩
  | requestMetadataAsync name uri executor throwing =>
    obtain ⟨next, heq, hnext⟩ :=
      requestMetadataAsync_asks_cache self name uri executor throwing
    rw [heq]
    show d.Keeps v v ((fun _ => Ending.nothing) <$> (next (v.credential self)).attempt)
    rw [hnext _ hkind]
    refine ⟨hnow, ⟨hpart, hself, fun hfetched => absurd hfetched hfree⟩,
      hawaits none _ ⟨name, fun e => .callBack throwing⟩, fun r v' hlater htoken => ?_⟩
    rcases r with e | - | t
    · exact keeps_callBack hlater.good hpart (hrejected _ name e).2 throwing
    · exact keeps_callBack hlater.good hpart (hrejected _ name _).2 throwing
    · exact keeps_callBack hlater.good hpart (hcalled v' name t hlater (htoken t rfl)) throwing
  | refresh name signal =>
    obtain ⟨next, heq, hnext⟩ := refresh_asks_cache self signal
    rw [heq]
    show d.Keeps v v (Ending.call name <$>
      ((fun _ => Answer.nothing) <$> next (v.credential self)).attempt)
    rw [hnext _ hkind]
    refine ⟨hnow, ⟨hpart, hself, hfree⟩, hawaits signal _ ⟨name, fun e => .call⟩,
      fun r v' hlater _ => ?_⟩
    rcases r with e | t
    · exact ⟨.refl hlater.good, (hrejected _ name e).1⟩
    · exact ⟨.refl hlater.good, hnothing _ name⟩
  | refreshIfExpired name signal =>
    refine ⟨hnow, ⟨hpart, hself, hfree⟩, hawaits signal _ ⟨name, fun e => .call⟩,
      fun r v' hlater _ => ?_⟩
    rcases r with e | t
    · exact ⟨.refl hlater.good, (hrejected _ name e).1⟩
    · exact ⟨.refl hlater.good, hnothing _ name⟩

end Session.Discipline

namespace Session

variable {i : Cache.CallerId} {s s' : Session} {name : String} {e : Thrown}

/-- An application has been told that a call has failed like this. -/
def Told (name : String) (e : Thrown) (s : Session) : Prop :=
  .answered name (.error e) ∈ s.trace ∨ .noted (.calledBack name (.error e)) ∈ s.trace

theorem trace_act {P : Query → Prop} {bystander : Option Cache.CallerId} {o : Observation}
    (h : Act P bystander s s') (ho : o ∈ s.trace) : o ∈ s'.trace := by
  cases h with
  | observe o' => exact List.mem_cons_of_mem _ ho
  | put _ _ _ _ hput => cases hput <;> exact ho
  | take _ _ htake => cases htake <;> exact ho
  | _ => exact ho

theorem Told.act {P : Query → Prop} {bystander : Option Cache.CallerId} (h : Told name e s)
    (hact : Act P bystander s s') : Told name e s' :=
  h.imp (trace_act hact) (trace_act hact)

variable {self : CredentialId} {p : Procedure Ending}

/-- Nobody else has a part in a rejection. -/
theorem Rejection.acts (h : Credential.Rejection self name e p) :
    Acts (fun _ => True) (some i) s (advance i p s) := by
  cases h with
  | call => exact finish_acts s _
  | callBack throwing =>
    have hnote : Act (fun _ => True) (some i) s
        (s.observe (.noted (.calledBack name (.error e)))) := .observe _ trivial
    cases throwing with
    | none => exact .single hnote
    | some failure =>
      exact .head hnote (cache_acts _ self .direct (e := .callbackFailed failure) rfl)

theorem Rejection.told (h : Credential.Rejection self name e p) : Told name e (advance i p s) := by
  cases h with
  | call => exact .inl List.mem_cons_self
  | callBack throwing => cases throwing <;> exact .inr List.mem_cons_self

section Failing
variable {d : Discipline} {replies : List Reply} {programs : Procedure Ending → Prop}
  {c : CredentialId} {j : Cache.RefreshId} {next : Result (Option Token) → Procedure Ending}

/-- In a run that keeps a discipline, a call that waits for a refresh is rejected with its
failure, once the refresh has failed, unless the caller has given up. -/
theorem rejection_concludes (hd : d.Operates)
    (hprograms : ∀ p, programs p → ∀ v, d.good v → d.Keeps v v p)
    (hcalls : ∀ p, programs p → ∀ c k, Elsewhere c k p)
    (hs : Orderly d replies (s.view replies) s) (hstaffed : s.Staffed)
    (hsound : s.Sound (fun _ => True) none) {signal : Option Signal} {f : Thrown → Thrown}
    (hnext : ∀ e, Credential.Rejection self name (f e) (next (.error e)))
    (hw : Whereabouts i [⟨i, .token c signal next⟩] [] [] s) (hp : StandsAt i (some (c, j)) s)
    (huses : Uses programs s s')
    (hj : (s'.held? c).cache.stage? j = some (.finished (.error e))) :
    ∃ e', (e' = e ∨ GaveUp signal e') ∧
      Concludes i (next (.error e')) (Told name (f e')) s' := by
  have hpost (e : Thrown) (s s' : Session) (hact : Act (fun _ => True) (some i) s s')
      (h : Told name (f e) s) : Told name (f e) s' := h.act hact
  exact concludes_uses hd hprograms hcalls hs hstaffed hsound hpost
    (fun e t => Rejection.acts (hnext e)) (fun e s t _ _ => Rejection.told (hnext e)) hw hp huses hj

/-- A call that waits for nothing else, and cannot give up, comes back with the failure. -/
theorem call_concludes (hd : d.Operates)
    (hprograms : ∀ p, programs p → ∀ v, d.good v → d.Keeps v v p)
    (hcalls : ∀ p, programs p → ∀ c k, Elsewhere c k p)
    (hs : Orderly d replies (s.view replies) s) (hstaffed : s.Staffed)
    (hsound : s.Sound (fun _ => True) none) {f : Thrown → Thrown}
    (hnext : ∀ e, next (.error e) = .done (.ok (.call name (.error (f e)))))
    (hw : Whereabouts i [⟨i, .token c none next⟩] [] [] s) (hp : StandsAt i (some (c, j)) s)
    (huses : Uses programs s s')
    (hj : (s'.held? c).cache.stage? j = some (.finished (.error e))) :
    Concludes i (.done (.ok (.call name (.error (f e))))) (Told name (f e)) s' := by
  have hrejects (e : Thrown) : Credential.Rejection c name (f e) (next (.error e)) := by
    rw [hnext]
    exact .call
  obtain ⟨e', he, hconcludes⟩ := rejection_concludes hd hprograms hcalls hs hstaffed hsound
    hrejects hw hp huses hj
  obtain rfl : e' = e := he.resolve_right fun hgave => hgave.1 rfl
  rwa [hnext] at hconcludes

end Failing

/-- Calls that wait for a refresh of a credential are rejected, should the refresh fail, unless
their callers give up. -/
def Rejecting (programs : Procedure Ending → Prop) (c : CredentialId) (s : Session) : Prop :=
  ∀ i k signal next, ⟨i, .token c signal next⟩ ∈ s.threads →
    i ∈ (s.held? c).cache.waitersOf k → ∃ name, ∀ s' e, Uses programs s s' →
      (s'.held? c).cache.stage? k = some (.finished (.error e)) →
      ∃ e' p, (e' = e ∨ GaveUp signal e') ∧ Credential.Rejection c name e' p ∧
        Concludes i p (Told name e') s'

theorem rejecting_of_orderly {d : Discipline} {replies : List Reply}
    {programs : Procedure Ending → Prop} (hd : d.Operates)
    (hprograms : ∀ p, programs p → ∀ v, d.good v → d.Keeps v v p)
    (hcalls : ∀ p, programs p → ∀ c k, Elsewhere c k p)
    (hs : Orderly d replies (s.view replies) s) (hstaffed : s.Staffed)
    (hsound : s.Sound (fun _ => True) none)
    (hawaits : ∀ signal next, d.awaits self signal next → Credential.Rejects self next) :
    Rejecting programs self s := by
  intro i k signal next ht hmem
  obtain ⟨signal', next', ⟨-, hwaits, -⟩, hw, hp⟩ := (hs.everyone.position i).waiting_of_mem hmem
  have hthread : ⟨i, .token self signal next⟩ ∈ s.threads.filter (fun t => t.id = i) :=
    List.mem_filter.mpr ⟨ht, by simp⟩
  rw [hw.threads, List.mem_singleton] at hthread
  cases hthread
  obtain ⟨name, hnext⟩ := hawaits signal next hwaits
  refine ⟨name, fun s' e huses hj => ?_⟩
  obtain ⟨e', he, hconcludes⟩ :=
    rejection_concludes hd hprograms hcalls hs hstaffed hsound hnext hw hp huses hj
  exact ⟨e', _, he, hnext e', hconcludes⟩

end Session
end Bearer
