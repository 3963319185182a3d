import Bearer.Proofs.Authorizer.RoundTrip
import Bearer.Proofs.Session.Alone
import Bearer.Proofs.Session.Onward

namespace Bearer

namespace Authorizer

open Session Procedure

variable {a : Authorizer} {user : String}

def keep (a : Authorizer) (user : String) (tokens : Result Stored) : Procedure CredentialId := do
  let c ← a.createCredential (← tokens)
  a.storeCredential user c
  a.monitor user c
  return c

/-- How a code is redeemed when the server has answered. -/
def redeemed (a : Authorizer) (user : String) (answer : Result Http.Response) :
    Procedure CredentialId :=
  Procedure.bind (.done answer) fun response => do a.keep user (tokensIn response (← now))

def redemption (a : Authorizer) (code : Given String) (callback : String) : Http.Request :=
  Http.postForm (a.tokenServer.getD Google.tokenUrl) (.ofStrings
    [("code", code.formText),
     ("client_id", some a.client.id),
     ("client_secret", a.client.secret.formText),
     ("redirect_uri", some callback),
     ("grant_type", some "authorization_code")])

theorem redeemAndStore_eq (user : String) (code base : Given String) :
    a.redeemAndStore user code base = ofResult (a.callback base) >>= fun callback =>
      .ask (.send (a.redemption code callback)) (a.redeemed user) := by
  unfold redeemAndStore redeem
  cases a.callback base with
  | error failure => rfl
  | ok callback =>
    refine congrArg (Procedure.ask (.send (a.redemption code callback))) (funext fun answer => ?_)
    cases answer with
    | error failure => rfl
    | ok response =>
      refine congrArg (Procedure.ask .now) (funext fun now => ?_)
      show Procedure.bind (Procedure.bind (ofResult (tokensIn response now)) a.createCredential) _ =
        Procedure.bind (ofResult (tokensIn response now)) _
      cases tokensIn response now with
      | error failure => rfl
      | ok s => rfl

/-- The tokens are stored as soon as there is a credential of them. -/
theorem keep_eq (user : String) (tokens : Result Stored) :
    a.keep user tokens = ofResult (tokens >>= a.credentialOf) >>= fun credential =>
      .ask (.create credential) fun c => a.storeCredential user c >>= fun _ =>
        .ask (.listen c (.saving a user)) fun _ => .done (.ok c) := by
  cases tokens with
  | error failure => rfl
  | ok s =>
    have hcreate : a.createCredential s = ofResult (a.credentialOf s) >>= create := rfl
    show Procedure.bind (a.createCredential s) _ = Procedure.bind (ofResult (a.credentialOf s)) _
    rw [hcreate]
    cases a.credentialOf s with
    | error failure => rfl
    | ok credential => rfl

/-- All credentials of an authorizer are of users. -/
theorem credentialOf_kind {s : Stored} {credential : Credential}
    (h : a.credentialOf s = .ok credential) : ∃ u, credential.kind = .user u := by
  have hcases := a.credentialOf_cases s
  split at hcases
  · exact nomatch h.symm.trans hcases
  · obtain ⟨made, hmade, -, u, hkind, -⟩ := hcases
    cases h.symm.trans hmade
    exact ⟨u, hkind⟩

end Authorizer

namespace Session

open Authorizer Procedure

variable {a : Authorizer} {name user : String} {c : CredentialId} {i : Cache.CallerId}
  {s s' t : Session}

def Answer.made (c : CredentialId) : Answer := .credential (some c)

/-- How a call goes on that has stored the tokens of a credential. -/
def handing (a : Authorizer) (name user : String) (c : CredentialId) : Procedure Ending :=
  .ask (.listen c (.saving a user)) fun _ => .done (.ok (.call name (.ok (Answer.made c))))

theorem advance_keep (ha : a.stores = true) (hs : s.store.Reliable) (tokens : Result Stored) :
    advance i (calling name (Answer.made <$> a.keep user tokens)) s =
      match tokens >>= a.credentialOf with
      | .error failure => s.observe (.answered name (.error failure))
      | .ok credential => ((s.make credential).written user s.held.length).doNext
          (.resume i (handing a name user s.held.length)) := by
  rw [keep_eq]
  cases tokens >>= a.credentialOf with
  | error failure => rfl
  | ok credential =>
    have hstored := congrArg Prod.snd (hs.perform_store user
      ((s.make credential).held? s.held.length).entry)
    show advance i (calling name (Answer.made <$> (a.storeCredential user s.held.length >>= _)))
      (s.make credential) = _
    rw [storeCredential_eq ha]
    show ((s.make credential).written user s.held.length).doNext (.resume i (calling name
      (Answer.made <$> Procedure.bind (Procedure.bind (.done (s.store.perform (.store user
        ((s.make credential).held? s.held.length).entry)).2) _) _))) = _
    rw [hstored]
    rfl

/-- A credential of a user has been made, and the entry is the one that it had then. -/
structure Deposited (user : String) (c : CredentialId) (s : Session) : Prop where
  held : c < s.held.length
  kind : ∃ u, (s.held? c).credential.kind = .user u
  entry : s.store.find? user = some (Held.fresh (s.held? c).credential).entry

/-- How far the thread has come that redeems a code. -/
inductive Redeeming (a : Authorizer) (name user : String) :
    Option (Procedure Ending) → Session → Prop
  | answered (answer : Result Http.Response) (s : Session) :
      Redeeming a name user (some (calling name (Answer.made <$> a.redeemed user answer))) s
  | deposited {c : CredentialId} {s : Session} (h : Deposited user c s) :
      Redeeming a name user (some (handing a name user c)) s
  | finished (s : Session) : Redeeming a name user none s

abbrev Redeems (a : Authorizer) (name user : String) (i : Cache.CallerId) : Session → Prop :=
  Phased i fun program s => s.store.Reliable ∧ Redeeming a name user program s

theorem redeems_failed (hnone : Alone i none s) (hs : s.store.Reliable) (failure : Thrown) :
    Redeems a name user i (s.observe (.answered name (.error failure))) :=
  ⟨none, hnone.act (.observe _ trivial), hs, .finished _⟩

theorem redeems_keep (ha : a.stores = true) (hnone : Alone i none s) (hs : s.store.Reliable)
    (name user : String) (tokens : Result Stored) :
    Redeems a name user i (advance i (calling name (Answer.made <$> a.keep user tokens)) s) ∧
      ∀ c, (advance i (calling name (Answer.made <$> a.keep user tokens)) s).trace ≠
        .answered name (.ok (Answer.made c)) :: s.trace := by
  rw [advance_keep ha hs]
  cases hmade : tokens >>= a.credentialOf with
  | error failure =>
    refine ⟨redeems_failed hnone hs failure, fun c h => ?_⟩
    cases (List.cons.inj h).1
  | ok credential =>
    obtain ⟨stored, -, hcredential⟩ : ∃ stored, tokens = .ok stored ∧
        a.credentialOf stored = .ok credential := by
      cases tokens with
      | error failure => cases hmade
      | ok stored => exact ⟨stored, rfl, hmade⟩
    have hkind := credentialOf_kind hcredential
    have hheld := held?_make s credential
    have hstore : ((s.make credential).written user s.held.length).store =
        s.store.insert user (Held.fresh credential).entry := by
      rw [written, hheld]
      exact congrArg Prod.fst (hs.perform_store user _)
    have hwritten : Alone i none ((s.make credential).written user s.held.length) :=
      ((hnone.act (.create credential)).act (.observe (.stored (.store user _)) trivial)).act
        (.store (.store user _) trivial)
    refine ⟨⟨_, hwritten.put .next, ?_, .deposited ⟨?_, ?_, ?_⟩⟩, fun c h => ?_⟩
    · exact hstore ▸ ⟨hs.load, hs.store, hs.delete⟩
    · exact held_lt_make s credential
    · show ∃ u, ((s.make credential).held? s.held.length).credential.kind = .user u
      rwa [hheld]
    · show ((s.make credential).written user s.held.length).store.find? user =
        some (Held.fresh ((s.make credential).held? s.held.length).credential).entry
      rw [hstore, hheld, TokenStore.find?_insert, if_pos rfl]
      rfl
    · cases (List.cons.inj h).1

theorem read_frame (s : Session) : s.read.2.store = s.store ∧ s.read.2.trace = s.trace := by
  unfold Session.read
  split <;> exact ⟨rfl, rfl⟩

/-- When the server grants something, a credential of it is stored at once, and handed out
afterwards. -/
theorem advance_redeemed (ha : a.stores = true) (hs : s.store.Reliable) {response : Http.Response}
    {credential : Credential}
    (hmade : (tokensIn response s.read.1 >>= a.credentialOf) = .ok credential) :
    advance i (calling name (Answer.made <$> a.redeemed user (.ok response))) s =
      ((s.read.2.make credential).written user s.read.2.held.length).doNext
        (.resume i (handing a name user s.read.2.held.length)) := by
  have hs' : s.read.2.store.Reliable := (read_frame s).1.symm ▸ hs
  show advance i (calling name (Answer.made <$> a.keep user (tokensIn response s.read.1)))
    s.read.2 = _
  rw [advance_keep ha hs', hmade]

theorem heard_acts (s : Session) (c : CredentialId) (l : Listener) :
    Acts (fun _ => True) (some i) s (s.heard c l) :=
  .head (.reshape c (fun h => { h with listeners := h.listeners ++ [(l, 0)] }) fun _ => ⟨rfl, rfl⟩)
    (cache_acts _ c .direct rfl)

/-- The thread goes on, and if the call comes back with a credential, that is handed out. -/
theorem Redeeming.goes (ha : a.stores = true) (hnone : Alone i none s) (hs : s.store.Reliable)
    {p : Procedure Ending} (hphase : Redeeming a name user (some p) s) :
    Redeems a name user i (advance i p s) ∧
      ∀ c, (advance i p s).trace = .answered name (.ok (Answer.made c)) :: s.trace →
        Deposited user c s ∧ advance i p s =
          (s.heard c (.saving a user)).observe (.answered name (.ok (Answer.made c))) := by
  cases hphase with
  | answered answer =>
    cases answer with
    | error failure =>
      refine ⟨redeems_failed hnone hs failure, fun c h => ?_⟩
      cases (List.cons.inj h).1
    | ok response =>
      obtain ⟨hstore, htrace⟩ := read_frame s
      obtain ⟨hgoes, hnever⟩ := redeems_keep ha (hnone.acts (read_acts s)) (hstore ▸ hs) name user
        (tokensIn response s.read.1)
      exact ⟨hgoes, fun c h => absurd (htrace ▸ h) (hnever c)⟩
  | @deposited c _ hkept =>
    have hheard := hnone.acts (heard_acts s c (.saving a user))
    refine ⟨⟨none, hheard.act (.observe _ trivial), hs, .finished _⟩, fun d h => ?_⟩
    cases (List.cons.inj h).1
    exact ⟨hkept, rfl⟩

/-- What others do leaves a deposit as it is, if they spare the entry. -/
theorem Deposited.step (h : Deposited user c s) (hs : s.Sound (fun _ => True) none)
    (hstep : Step (fun _ => True) s s') (hentry : s'.store.find? user = s.store.find? user) :
    Deposited user c s' := by
  obtain ⟨hc, ⟨u, hkind⟩, hfound⟩ := h
  obtain ⟨hc', hlasting⟩ := (hstep.acts hs).lasting hc
  have hkind' := (hstep.carries c).user u hkind
  have hfresh : (Held.fresh (s'.held? c).credential).entry =
      (Held.fresh (s.held? c).credential).entry := by
    have hstored : (Held.fresh (s'.held? c).credential).stored =
        (Held.fresh (s.held? c).credential).stored := by
      rw [Held.stored, Held.stored, Held.fresh, Held.fresh, hkind, hkind',
        Credential.toSetup_of_lasting hlasting]
    rw [Held.entry, Held.entry, hstored]
  exact ⟨hc', ⟨u, hkind'⟩, by rw [hentry, hfound, hfresh]⟩

/-- It takes nothing but the store and the credentials to tell how far a thread has come. -/
theorem Redeeming.taken {program : Option (Procedure Ending)} {job : Job}
    (h : Redeeming a name user program s) (htake : s.takeJob? = some (job, s')) :
    Redeeming a name user program s' := by
  cases h with
  | answered answer => exact .answered answer s'
  | @deposited c _ hdeposited =>
    obtain ⟨hc, hkind, hentry⟩ := hdeposited
    have hc' := takeJob?_held? htake c
    refine .deposited ⟨takeJob?_held htake ▸ hc, hc' ▸ hkind, ?_⟩
    rw [takeJob?_store htake, hc', hentry]
  | finished => exact .finished s'

theorem Redeems.own (ha : a.stores = true) (h : Redeems a name user i s) {job : Job}
    (htake : s.takeJob? = some (job, t)) (hown : job.Of i) :
    Redeems a name user i (t.perform job) ∧
      ∀ c, (t.perform job).trace = .answered name (.ok (Answer.made c)) :: t.trace →
        Deposited user c t ∧ t.perform job =
          (t.heard c (.saving a user)).observe (.answered name (.ok (Answer.made c))) := by
  obtain ⟨p, rfl, ⟨hs, hphase⟩, hnone⟩ := Phased.own h htake hown
  exact (hphase.taken htake).goes ha hnone ((takeJob?_store htake).symm ▸ hs)

theorem Redeems.run (ha : a.stores = true) (h : Redeems a name user i s)
    (hrun : OwnedRun (Job.Of i) user s s') : Redeems a name user i s' := by
  refine Phased.run (fun _ _ hstep => hstep.1) (fun s t p htake hnone hphase => ?_)
    (fun program s s' halone hstep hdoes hphase => ?_) h hrun
  · have hs : t.store.Reliable := (takeJob?_store htake).symm ▸ hphase.1
    exact ((hphase.2.taken htake).goes ha hnone hs).1
  · refine ⟨hstep.1.reliable hphase.1, ?_⟩
    have hentry := hstep.2.resolve_left hdoes
    cases hphase.2 with
    | answered answer => exact .answered answer s'
    | deposited hdeposited =>
      exact .deposited (hdeposited.step halone.sound.anyhow hstep.1 hentry)
    | finished => exact .finished s'

/-- A code is redeemed from the start, unless there is nowhere to come back to. -/
theorem redeems_spawn (hs : s.Sound (fun _ => True) none) (hmemory : s.store.Reliable)
    (name user : String) (code base : Given String) :
    Redeems a name user s.born
      (s.spawn (calling name (Answer.made <$> a.redeemAndStore user code base))) := by
  rw [redeemAndStore_eq]
  cases a.callback base with
  | error failure => exact redeems_failed hs.alone hmemory failure
  | ok callback =>
    have hstore := send_store { s with born := s.born + 1 } (a.redemption code callback) s.born
      fun answer => calling name (Answer.made <$> a.redeemed user answer)
    exact ⟨_, hs.alone.send _ _, hstore.symm ▸ hmemory, .answered _ _⟩

end Session
end Bearer
