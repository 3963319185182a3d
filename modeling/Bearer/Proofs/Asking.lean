import Bearer.Listener.Act

namespace Bearer

namespace Procedure
variable {α β : Type} {P R : Query → Prop}

/-- Whatever it is told, a procedure asks nothing but this. -/
def Asks (P : Query → Prop) : Procedure α → Prop
  | done _ => True
  | ask q next => P q ∧ ∀ r, (next r).Asks P

/-- Whatever it is told, a procedure ends in no other way than this. -/
def Ends (Q : Result α → Prop) : Procedure α → Prop
  | done outcome => Q outcome
  | ask _ next => ∀ r, (next r).Ends Q

namespace Asks

theorem anything : ∀ p : Procedure α, p.Asks fun _ => True
  | done _ => trivial
  | ask _ next => ⟨trivial, fun r => anything (next r)⟩

theorem mono (hPR : ∀ q, P q → R q) : ∀ {p : Procedure α}, p.Asks P → p.Asks R
  | done _, _ => trivial
  | ask _ _, h => ⟨hPR _ h.1, fun r => mono hPR (h.2 r)⟩

theorem bind {f : α → Procedure β} (hf : ∀ a, (f a).Asks P) :
    ∀ {p : Procedure α}, p.Asks P → (p >>= f).Asks P
  | done (.ok a), _ => hf a
  | done (.error _), _ => trivial
  | ask _ _, h => ⟨h.1, fun r => bind hf (h.2 r)⟩

theorem pure (a : α) : (Pure.pure a : Procedure α).Asks P := trivial

theorem ofResult (outcome : Result α) : (liftM outcome : Procedure α).Asks P := trivial

theorem map {f : α → β} {p : Procedure α} (h : p.Asks P) : (f <$> p).Asks P :=
  bind (fun a => pure (f a)) h

theorem attempt : ∀ {p : Procedure α}, p.Asks P → p.attempt.Asks P
  | done _, _ => trivial
  | ask _ _, h => ⟨h.1, fun r => attempt (h.2 r)⟩

theorem query {q : Query} (h : P q) : (Procedure.query q).Asks P := ⟨h, fun _ => trivial⟩

end Asks

theorem Ends.bind {Q : Result α → Prop} {Q' : Result β → Prop} {f : α → Procedure β}
    (hok : ∀ a, Q (.ok a) → (f a).Ends Q') (herror : ∀ e, Q (.error e) → Q' (.error e)) :
    ∀ {p : Procedure α}, p.Ends Q → (p >>= f).Ends Q'
  | done (.ok a), h => hok a h
  | done (.error e), h => herror e h
  | ask _ _, h => fun r => Ends.bind hok herror (h r)

/-- A procedure that attempts another does not fail. -/
theorem ends_attempt : ∀ p : Procedure α, p.attempt.Ends (fun outcome => ∃ r, outcome = .ok r)
  | done outcome => ⟨outcome, rfl⟩
  | ask _ next => fun r => ends_attempt (next r)

end Procedure

open Procedure

/-- What the operation of a refresh may ask: it leaves nothing on record, and tells
neither the store nor the listeners anything. -/
def Query.OfRefresh : Query → Prop
  | .now | .send _ | .read _ | .fetch .. | .credential _ | .create _ | .redirect ..
  | .operation _ | .rest => True
  | _ => False

/-- What may be asked for the headers of a credential: nothing is sent for them. -/
def Query.OfHeaders : Query → Prop
  | .now | .fetch .. | .credential _ | .create _ | .redirect .. | .rest => True
  | _ => False

theorem Query.OfHeaders.ofRefresh {q : Query} (h : q.OfHeaders) : q.OfRefresh := by
  cases q <;> trivial

namespace Credential

theorem tokenIn_asks (response : Http.Response) (wording : Grant.Wording) :
    (tokenIn response wording).Asks Query.OfRefresh :=
  Asks.bind (fun _ => Asks.bind (fun _ => Asks.ofResult _) (Asks.query trivial)) (Asks.ofResult _)

theorem send_asks (request : Http.Request) : (send request).Asks Query.OfRefresh :=
  ⟨trivial, fun _ => trivial⟩

theorem wholeSeconds_asks : wholeSeconds.Asks Query.OfHeaders :=
  Asks.bind (fun _ => Asks.pure _) (Asks.query trivial)

theorem serviceAccount_asks (c : ServiceAccount) : c.requestToken.Asks Query.OfRefresh := by
  unfold ServiceAccount.requestToken
  split
  · trivial
  · refine Asks.bind (fun assertion => ?_) ?_
    · exact Asks.bind (fun response => tokenIn_asks response _) (send_asks _)
    · refine Asks.bind (fun _ => ?_) (wholeSeconds_asks.mono fun _ => Query.OfHeaders.ofRefresh)
      exact Asks.bind (fun _ => Asks.bind (fun _ => Asks.pure _) (Asks.query trivial))
        (Asks.ofResult _)

theorem user_asks (c : User) : c.requestToken.Asks Query.OfRefresh := by
  unfold User.requestToken
  split
  · trivial
  · exact Asks.bind (fun response => tokenIn_asks response _) (send_asks _)

theorem computeEngine_asks (c : ComputeEngine) : c.requestToken.Asks Query.OfRefresh := by
  refine Asks.bind (fun outcome => ?_) (Asks.attempt (send_asks _))
  cases outcome with
  | error thrown => trivial
  | ok response =>
    dsimp only
    split
    · exact Asks.bind (fun _ => Asks.bind (fun _ => Asks.ofResult _) (Asks.query trivial))
        (Asks.ofResult _)
    · refine Asks.bind (fun _ => ?_) (Asks.ofResult _)
      split <;> trivial

theorem jwtMetadata_asks (a : JwtAccess) (uri : Given String) :
    (a.metadata uri).Asks Query.OfHeaders := by
  unfold JwtAccess.metadata
  split
  · trivial
  · refine Asks.bind (fun _ => ?_) wholeSeconds_asks
    exact Asks.bind (fun _ => Asks.bind (fun _ => Asks.pure _) (Asks.query trivial))
      (Asks.ofResult _)

theorem requestMetadata_asks (self : CredentialId) (uri : Given String)
    (signal : Option Signal) : (requestMetadata self uri signal).Asks Query.OfHeaders := by
  refine Asks.bind (fun c => ?_) (Asks.query trivial)
  cases c.kind with
  | jwtAccess a => exact jwtMetadata_asks a uri
  | _ => exact Asks.bind (fun _ => Asks.pure _) ⟨trivial, fun _ => trivial⟩

theorem sourceMetadata_asks (self : CredentialId) (i : Impersonated) :
    (i.sourceMetadata self).Asks Query.OfHeaders := by
  have hsource : (i.scopedSource self).Asks Query.OfHeaders := by
    refine Asks.bind (fun source => ?_) (Asks.query trivial)
    cases source.kind with
    | serviceAccount a =>
      dsimp only
      split
      · exact Asks.bind (fun copy => Asks.bind (fun _ => Asks.pure _) (Asks.query trivial))
          (Asks.query trivial)
      · trivial
    | _ => trivial
  refine Asks.bind (fun source => ?_) hsource
  refine Asks.bind (fun outcome => ?_) (Asks.attempt (requestMetadata_asks source _ _))
  cases outcome <;> trivial

theorem impersonated_asks (self : CredentialId) (i : Impersonated) :
    (i.requestToken self).Asks Query.OfRefresh := by
  have hmetadata := (sourceMetadata_asks self i).mono fun _ => Query.OfHeaders.ofRefresh
  refine Asks.bind (fun metadata => ?_) hmetadata
  exact Asks.bind (fun response => Asks.ofResult _) (send_asks _)

theorem retrieve_asks (source : SubjectToken.Source) :
    source.retrieve.Asks Query.OfRefresh := by
  cases source with
  | supplied outcome => trivial
  | file path format =>
    refine Asks.bind (fun content => ?_) (Asks.query trivial)
    cases content <;> trivial
  | url address headers format =>
    refine Asks.bind (fun response => ?_) (send_asks _)
    refine Asks.bind (fun body => ?_) (Asks.ofResult _)
    split <;> trivial

theorem externalAccount_asks (c : ExternalAccount) : c.requestToken.Asks Query.OfRefresh := by
  unfold ExternalAccount.requestToken
  split
  · next id _ _ =>
    refine Asks.bind (fun other => ?_) (Asks.query trivial)
    cases other.kind with
    | impersonated i => exact impersonated_asks id i
    | _ => trivial
  · refine Asks.bind (fun subject => ?_) (retrieve_asks c.source)
    refine Asks.bind (fun answer => Asks.pure _) ?_
    refine Asks.bind (fun response => ?_) (send_asks _)
    exact Asks.bind (fun _ => Asks.bind (fun _ => Asks.ofResult _) (Asks.query trivial))
      (Asks.ofResult _)

theorem requestToken_asks (self : CredentialId) :
    (requestToken self).Asks Query.OfRefresh := by
  refine Asks.bind (fun c => ?_) (Asks.query trivial)
  cases c.kind with
  | serviceAccount a => exact serviceAccount_asks a
  | user u => exact user_asks u
  | computeEngine e => exact computeEngine_asks e
  | externalAccount e => exact externalAccount_asks e
  | impersonated i => exact impersonated_asks self i
  | supplied => exact ⟨trivial, fun _ => trivial⟩
  | jwtAccess | fixed => trivial

end Credential

/-- What a listener may ask when it is called; callbacks of others are not its business. -/
def Query.OfListener : Query → Prop
  | .note (.calledBack ..) => False
  | .note _ | .store _ | .refresh .. | .refreshIfExpired .. | .cached _ | .freshness _
  | .listen .. | .gate _ => True
  | q => q.OfRefresh

/-- What nobody asks who has no business with the store. -/
def Query.Storeless : Query → Prop
  | .store _ => False
  | _ => True

/-- What listeners ask that keep no store up to date. -/
def Query.OfObserver (q : Query) : Prop := q.OfListener ∧ q.Storeless

namespace Listener

theorem ofRefresh {q : Query} (h : q.OfRefresh) : q.OfObserver := by
  cases q <;> first | exact ⟨h, trivial⟩ | exact ⟨trivial, trivial⟩ | cases h

theorem see_asks (name : String) (c : CredentialId) : (see name c).Asks Query.OfObserver := by
  refine Asks.bind (fun token => ?_) (Asks.query ⟨trivial, trivial⟩)
  refine Asks.bind (fun freshness => ?_) (Asks.query ⟨trivial, trivial⟩)
  exact Asks.query ⟨trivial, trivial⟩

/-- Most listeners leave on record what they see, and at some calls do more. -/
theorem see_then_asks (name : String) (c : CredentialId) (more : Prop) [Decidable more]
    {p : Procedure Unit} (hp : p.Asks Query.OfObserver) :
    (see name c >>= fun _ => if more then p else pure ()).Asks Query.OfObserver := by
  refine Asks.bind (fun _ => ?_) (see_asks name c)
  split
  · exact hp
  · trivial

theorem report_asks (name : String) {p : Procedure (Option Metadata)}
    (hp : p.Asks Query.OfObserver) : (report name p).Asks Query.OfObserver := by
  refine Asks.bind (fun outcome => ?_) hp.attempt
  cases outcome with
  | ok metadata => exact Asks.query ⟨trivial, trivial⟩
  | error failure =>
    refine Asks.bind (fun _ => ?_) (Asks.query ⟨trivial, trivial⟩)
    trivial

/-- Only the listener of an authorizer has business with the store. -/
theorem observer_asks {l : Listener} (hl : ∀ a user, l ≠ .saving a user) (c : CredentialId)
    (calls : Nat) : (l.act c calls).Asks Query.OfObserver := by
  cases l with
  | saving authorizer user => exact absurd rfl (hl authorizer user)
  | observing name => exact see_asks name c
  | failing name times failure => exact see_then_asks name c _ trivial
  | fetching name times =>
    have hmetadata := (Credential.requestMetadata_asks c .missing none).mono
      fun _ h => ofRefresh h.ofRefresh
    exact see_then_asks name c _ (report_asks name hmetadata.map)
  | refreshing name times =>
    exact see_then_asks name c _
      (report_asks name (Asks.map ⟨⟨trivial, trivial⟩, fun _ => trivial⟩))
  | refreshingIfExpired name times =>
    exact see_then_asks name c _
      (report_asks name (Asks.map ⟨⟨trivial, trivial⟩, fun _ => trivial⟩))
  | adding name times other => exact see_then_asks name c _ (Asks.query ⟨trivial, trivial⟩)
  | waiting name times => exact see_then_asks name c _ (Asks.query ⟨trivial, trivial⟩)

theorem act_asks (l : Listener) (c : CredentialId) (calls : Nat) :
    (l.act c calls).Asks Query.OfListener := by
  by_cases hl : ∃ a user, l = .saving a user
  · obtain ⟨authorizer, user, rfl⟩ := hl
    refine Asks.bind (fun _ => ?_) (Asks.ofResult _)
    refine Asks.bind (fun token => ?_) (Asks.query trivial)
    refine Asks.bind (fun credential => ?_) (Asks.query trivial)
    exact Asks.bind (fun _ => Asks.pure _) ⟨trivial, fun _ => trivial⟩
  · have hobserver := observer_asks (fun a user h => hl ⟨a, user, h⟩) c calls
    exact hobserver.mono fun _ h => h.1

end Listener
end Bearer
