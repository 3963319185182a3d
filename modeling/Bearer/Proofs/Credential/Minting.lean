import Bearer.Credential.Settings
import Bearer.Proofs.Authorizer.Redemption
import Bearer.Proofs.Credential.Calls
import Bearer.Proofs.Decisions
import Bearer.Proofs.Http.Forms

namespace Bearer

open Session Procedure

namespace Lifetime

/-- A setting asks for so many seconds. -/
inductive Sets (setting : Given Json) : Nat → Prop
  | absent (h : setting.toOption = none) : Sets setting 3600
  | number {n : Nat} (h : setting.toOption = some (.number (.finite n))) (hpos : 1 ≤ n)
      (hle : n ≤ 3600) : Sets setting n

theorem Sets.unique {setting : Given Json} {n m : Nat} (h : Sets setting n) (h' : Sets setting m) :
    n = m := by
  cases h with
  | absent hnone =>
    cases h' with
    | absent => rfl
    | number hm => simp [hnone] at hm
  | number hn =>
    cases h' with
    | absent hnone => simp [hnone] at hn
    | number hm => simpa using hn.symm.trans hm

theorem sets_iff {setting : Given Json} {j : Json} (h : setting.toOption = some j) (n : Nat) :
    Sets setting n ↔ j.number?.bind Double.toInt? = some (n : Int) ∧ 1 ≤ n ∧ n ≤ 3600 := by
  constructor
  · rintro (hnone | ⟨hn, hpos, hle⟩)
    · rw [hnone] at h
      cases h
    · cases hn.symm.trans h
      have hwhole : (Double.finite (n : Rat)).toInt? = some (n : Int) :=
        Double.toInt?_eq_some.mpr (by push_cast; rfl)
      exact ⟨hwhole, hpos, hle⟩
  · rintro ⟨hwhole, hpos, hle⟩
    obtain ⟨x, hx, hn⟩ := Option.bind_eq_some_iff.mp hwhole
    obtain rfl := Double.toInt?_eq_some.mp hn
    refine .number (h.trans (congrArg some ?_)) hpos hle
    cases j <;> cases hx
    push_cast
    rfl

/-- Exactly a whole number of seconds, of an hour at most, is a life that can be asked for. -/
theorem decides_ofSetting (setting : Given Json) :
    Result.Decides (∃ n, Sets setting n) (fun l => Sets setting l.seconds)
      (ofSetting setting) := by
  have haccepted {l : Lifetime} (hset : Sets setting l.seconds) :
      Result.Decides (∃ n, Sets setting n) (fun l => Sets setting l.seconds) (.ok l) :=
    ⟨fun _ => ⟨l, rfl, hset⟩, fun hnone => absurd ⟨_, hset⟩ hnone⟩
  unfold ofSetting
  cases hsetting : setting.toOption with
  | none => exact haccepted (.absent hsetting)
  | some j =>
    have hsets := sets_iff hsetting
    have hrefused {f : Fault} (hf : f.kind = .config) (hnone : ∀ n, ¬ Sets setting n) :
        Result.Decides (∃ n, Sets setting n) (fun l : Lifetime => Sets setting l.seconds) f.raise :=
      (Result.Decides.raise hf).congr (iff_of_false id (not_exists.mpr hnone))
    dsimp only
    cases hwhole : j.number?.bind Double.toInt? with
    | none =>
      refine hrefused rfl fun n hn => ?_
      obtain ⟨hn, -⟩ := (hsets n).mp hn
      cases hwhole.symm.trans hn
    | some n =>
      have hseconds {m : Nat} (hm : Sets setting m) : n = m ∧ 1 ≤ m ∧ m ≤ 3600 := by
        obtain ⟨hm, hbounds⟩ := (hsets m).mp hm
        exact ⟨Option.some.inj (hwhole.symm.trans hm), hbounds⟩
      dsimp only
      split
      · next hpos =>
        split
        · next hle =>
          have hcast : n = n.toNat := by omega
          exact haccepted ((hsets n.toNat).mpr ⟨hwhole.trans (congrArg some hcast), hpos, hle⟩)
        · next hlong =>
          refine hrefused rfl fun m hm => ?_
          have := hseconds hm
          omega
      · next hnone =>
        refine hrefused rfl fun m hm => ?_
        have := hseconds hm
        omega

end Lifetime

namespace Impersonated

variable (i : Impersonated)

/-- A request for a token of the scopes that were given, which holds for as many seconds as were
asked for, an hour at most. -/
structure Requests (r : Http.Request) : Prop where
  url : r.url = i.iamEndpoint
  body : ∃ data, r.document? = some (.object data) ∧
    Json.Members.get? data "scope" = some (.array (i.scopes.map .string)) ∧
    ∃ n, 1 ≤ n ∧ n ≤ 3600 ∧ n = i.lifetime.seconds ∧
      Json.Members.get? data "lifetime" = some (.string (toString n ++ "s"))

theorem tidy_mintingData : i.mintingData.Tidy := by
  have hdistinct : ["delegates", "scope", "lifetime"].Nodup := by decide
  have hnames : ∀ name ∈ ["delegates", "scope", "lifetime"], Json.index? name = none := by decide
  exact ⟨hdistinct, fun m hm => hnames m.1 (List.mem_map_of_mem hm), Json.tidyItems_strings _,
    Json.tidyItems_strings _, trivial, trivial⟩

theorem settled_mintingData : i.mintingData.settled = i.mintingData := by
  simp only [mintingData, Json.settled, Json.settledMembers, Json.settledItems_strings]

/-- A request for a token of some scopes or other. -/
def Scoped (r : Http.Request) : Prop :=
  ∃ data scopes, r.document? = some (.object data) ∧
    Json.Members.get? data "scope" = some (.array scopes) ∧ scopes ≠ []

variable {i} in
theorem Requests.scoped_iff {r : Http.Request} (h : i.Requests r) :
    Scoped r ↔ i.scopes ≠ [] := by
  obtain ⟨data, hread, hscope, -⟩ := h.body
  constructor
  · rintro ⟨data', scopes, hread', hscope', hscopes⟩ hnone
    cases hread.symm.trans hread'
    cases hscope.symm.trans hscope'
    exact hscopes (hnone ▸ rfl)
  · exact fun hscopes => ⟨data, _, hread, hscope, mt List.map_eq_nil_iff.mp hscopes⟩

theorem requests_postJson (headers : Http.Headers) :
    i.Requests (Http.postJson i.iamEndpoint i.mintingData headers) := by
  have hread := Http.document?_postJson i.iamEndpoint i.tidy_mintingData headers
  rw [settled_mintingData] at hread
  exact ⟨rfl, _, hread, rfl, _, i.lifetime.positive, i.lifetime.bounded, rfl, rfl⟩

end Impersonated

/-- What is asked sends one of these requests, if any. -/
def Query.SendsOnly (R : Http.Request → Prop) : Query → Prop
  | .send r => R r
  | _ => True

theorem Query.OfHeaders.sendsOnly {R : Http.Request → Prop} {q : Query} (h : q.OfHeaders) :
    q.SendsOnly R := by
  cases q <;> trivial

namespace Impersonated

variable (i : Impersonated) (self : CredentialId)

theorem sourceMetadata_sends (R : Http.Request → Prop) :
    (i.sourceMetadata self).Asks (Query.SendsOnly R) :=
  (Credential.sourceMetadata_asks self i).mono fun _ => Query.OfHeaders.sendsOnly

/-- What mints a token sends nothing but the request for it, whatever source there is. -/
theorem requestToken_sends (source : CredentialId) :
    (({ i with source } : Impersonated).requestToken self).Asks (Query.SendsOnly i.Requests) := by
  refine Asks.bind (fun metadata => ?_) (sourceMetadata_sends _ self _)
  have hrequest := requests_postJson { i with source } (Http.Headers.ofMetadata metadata)
  refine Asks.bind (fun response => Asks.ofResult _) ⟨?_, fun _ => trivial⟩
  exact ⟨hrequest.url, hrequest.body⟩

theorem sign_asks (source : CredentialId) (bytes : List UInt8) :
    (({ i with source } : Impersonated).sign self bytes).Asks
      (Query.SendsOnly fun r => r.url = Iam.signBlobUrl i.target) := by
  refine Asks.bind (fun metadata => ?_) (sourceMetadata_sends _ self _)
  exact Asks.bind (fun response => Asks.ofResult _) ⟨rfl, fun _ => trivial⟩

end Impersonated

/-- An external account that has others act for it leaves its tokens to them. -/
theorem ExternalAccount.requestToken_looks (e : ExternalAccount) {c : CredentialId}
    {target : String} (h : e.impersonated = some (c, target)) :
    ∃ next, e.requestToken = .ask (.credential c) next ∧
      ∀ (inner : Credential) i, inner.kind = .impersonated i → next inner = i.requestToken c := by
  unfold requestToken
  rw [h]
  refine ⟨_, rfl, ?_⟩
  rintro ⟨setup, kind⟩ i rfl
  rfl

namespace Session

variable {s t : Session} {c d : CredentialId} {i : Impersonated}

/-- Credentials that impersonate keep all but their source, whatever is done. -/
theorem Steps.impersonated (h : Steps (fun _ => True) s t) (hs : s.Sound (fun _ => True) none)
    (hc : c < s.held.length) (hkind : (s.held? c).credential.kind = .impersonated i) :
    ∃ source, (t.held? c).credential.kind = .impersonated { i with source } := by
  obtain ⟨-, hlasting⟩ := h.lasting hs hc
  obtain ⟨source, hsame⟩ := Credential.redirected_of_lasting hlasting
  refine ⟨source, ?_⟩
  rw [hsame, Credential.redirected, hkind]

/-- Getting a token for a credential comes to this, for a refresh as for the application. -/
structure Runs (s : Session) (c : CredentialId) (p : Procedure Token) : Prop where
  operation : ∀ k, s.runOperation c k = s.spawn (Ending.operation c k <$> p.attempt)
  call : ∀ name, s.spawn (calling name (Answer.token <$> Credential.requestToken c)) =
    s.spawn (calling name (Answer.token <$> p))

/-- To look at a credential takes no waiting. -/
theorem Runs.look {next : Credential → Procedure Token} (h : s.Runs d (.ask (.credential c) next)) :
    s.Runs d (next (s.held? c).credential) :=
  ⟨fun k => (h.operation k).trans rfl, fun name => (h.call name).trans rfl⟩

theorem runs_requestToken (s : Session) (c : CredentialId) :
    s.Runs c (Credential.requestToken c) :=
  ⟨fun _ => rfl, fun _ => rfl⟩

theorem runs_impersonated (hkind : (s.held? c).credential.kind = .impersonated i) :
    s.Runs c (i.requestToken c) := by
  obtain ⟨next, hrequest, -, hnext, -⟩ := Credential.requestToken_looks c
  have hruns := runs_requestToken s c
  rw [hrequest] at hruns
  exact hnext _ i hkind ▸ hruns.look

theorem runs_externalAccount {e : ExternalAccount} {target : String}
    (hkind : (s.held? d).credential.kind = .externalAccount e)
    (hinner : e.impersonated = some (c, target))
    (hkind' : (s.held? c).credential.kind = .impersonated i) : s.Runs d (i.requestToken c) := by
  obtain ⟨next, hrequest, hnext, -⟩ := Credential.requestToken_looks d
  obtain ⟨next', hhands, hnext'⟩ := e.requestToken_looks hinner
  have hruns := runs_requestToken s d
  rw [hrequest] at hruns
  have hlooks : s.Runs d (.ask (.credential c) next') := hhands ▸ hnext _ e hkind ▸ hruns.look
  exact hnext' _ i hkind' ▸ hlooks.look

theorem spawn_sign (hkind : (s.held? c).credential.kind = .impersonated i) (name : String)
    (bytes : List UInt8) : s.spawn (calling name (Answer.bytes <$> Credential.sign c bytes)) =
      s.spawn (calling name (Answer.bytes <$> i.sign c bytes)) := by
  obtain ⟨next, hsign, hnext⟩ := Credential.sign_looks c bytes
  rw [hsign]
  show s.spawn (calling name (Answer.bytes <$> next (s.held? c).credential)) = _
  rw [hnext _ i hkind]

end Session

namespace ExternalAccount

/-- There are always scopes: those that were given, or one. -/
theorem scopes_ofSettings {settings : Settings} {account : ExternalAccount}
    (h : ofSettings settings = .ok account) :
    account.scopes ≠ [] ∧ (settings.scopes ≠ [] → account.scopes = settings.scopes) := by
  obtain ⟨audience, -, h⟩ := Result.bind_eq_ok h
  obtain ⟨type, -, h⟩ := Result.bind_eq_ok h
  obtain ⟨url, -, h⟩ := Result.bind_eq_ok h
  cases h
  dsimp only
  cases settings.scopes with
  | nil => exact ⟨List.cons_ne_nil _ _, fun h => absurd rfl h⟩
  | cons scope scopes => exact ⟨List.cons_ne_nil _ _, fun _ => rfl⟩

/-- The credentials that are made for an account: its own without impersonation, those that
impersonate, and the account's, which hand over to them. -/
def made (account : ExternalAccount) (setup : Credential.Setup) (url target : String)
    (n : CredentialId) : List Credential :=
  [{ setup.toSurroundings with
     kind := .externalAccount { account with impersonationUrl := .missing, impersonated := none } },
   { setup.toSurroundings with
     kind := .impersonated
      { source := n, target, scopes := account.scopes, lifetime := .longest
        endpoint := .value url } },
   { setup with kind := .externalAccount { account with impersonated := some (n + 1, target) } }]

theorem spawn_createCredential (s : Session) {account : ExternalAccount} {url target : String}
    (hurl : account.impersonationUrl.filled? = some url)
    (htarget : Iam.targetPrincipal url = .ok target) (setup : Credential.Setup) (name : String) :
    s.spawn (calling name (Answer.made <$> account.createCredential setup)) = { s with
      born := s.born + 1
      held := s.held ++ (account.made setup url target s.held.length).map Held.fresh
      trace := .answered name (.ok (Answer.made (s.held.length + 2))) :: s.trace } := by
  rw [createCredential, prepared, hurl]
  dsimp only
  rw [createImpersonated, htarget, made]
  show observe (make (make (make _ _) _) _) _ = _
  simp [make, observe]

end ExternalAccount

namespace Impersonated

def endless : Token := ⟨"source", .never⟩

/-- A session with a source that has a token for ever, and credentials that impersonate by it. -/
def backed (i : Impersonated) : Session :=
  { ({ now := 0 } : World).session with
    born := 1
    held := [.fresh { kind := .fixed, token := some endless },
      .fresh { kind := .impersonated { i with source := 0 } }] }

theorem backed_steps (i : Impersonated) :
    Steps (fun _ => True) ({ now := 0 } : World).session i.backed :=
  .single (.start (p := (fun _ => Ending.nothing) <$> (do
    let source ← create { kind := .fixed, token := some endless }
    create { kind := .impersonated { i with source } } : Procedure CredentialId).attempt)
    (Asks.anything _))

def minting (i : Impersonated) : Session :=
  i.backed.spawn (calling "mint" (Answer.token <$> Credential.requestToken 1))

/-- The thread is told the token of the source at once, and goes on with the request. -/
theorem minting_eq (i : Impersonated) : ∃ next next', i.minting = { i.backed with
      born := 2
      threads := [⟨1, .token 0 none next⟩]
      inner := [.effect 0 .direct (.answer 1 (.ok (some endless)))] } ∧
    next (.ok (some endless)) = .ask (.send (Http.postJson i.iamEndpoint i.mintingData
      (Http.Headers.ofMetadata endless.metadata))) next' := ⟨_, _, rfl, rfl⟩

theorem requests_minting (i : Impersonated) : (i.minting.work 2).requests =
    [Http.postJson i.iamEndpoint i.mintingData (Http.Headers.ofMetadata endless.metadata)] := by
  obtain ⟨next, next', heq, hnext⟩ := i.minting_eq
  have hanswered : i.minting.work 2 = work 1 { i.backed with
      born := 2
      agenda := [.resume 1 (next (.ok (some endless)))] } := by
    rw [heq]
    rfl
  rw [hanswered, hnext]
  rfl

end Impersonated

namespace Impersonated

/-- From now on credentials send what was configured: whoever has them get a token, or an account
that hands over to them, has requests for such tokens sent only, and when they sign nothing is
sent but to where signatures are made. -/
structure Honours (i : Impersonated) (s : Session) (c : CredentialId) : Prop where
  token : ∀ {t}, Steps (fun _ => True) s t → ∃ p, t.Runs c p ∧ p.Asks (Query.SendsOnly i.Requests)
  handedOver : ∀ {t}, Steps (fun _ => True) s t → ∀ d e target,
    (t.held? d).credential.kind = .externalAccount e → e.impersonated = some (c, target) →
    ∃ p, t.Runs d p ∧ p.Asks (Query.SendsOnly i.Requests)
  signature : ∀ {t}, Steps (fun _ => True) s t → ∀ name bytes, ∃ p : Procedure (List UInt8),
    t.spawn (calling name (Answer.bytes <$> Credential.sign c bytes)) =
        t.spawn (calling name (Answer.bytes <$> p)) ∧
      p.Asks (Query.SendsOnly fun r => r.url = Iam.signBlobUrl i.target)

theorem honours {s : Session} (hs : s.Sound (fun _ => True) none) {c : CredentialId}
    {i : Impersonated} (hc : c < s.held.length)
    (hkind : (s.held? c).credential.kind = .impersonated i) : i.Honours s c where
  token h := by
    obtain ⟨source, hlater⟩ := h.impersonated hs hc hkind
    exact ⟨_, runs_impersonated hlater, i.requestToken_sends c source⟩
  handedOver h d e target he hinner := by
    obtain ⟨source, hlater⟩ := h.impersonated hs hc hkind
    exact ⟨_, runs_externalAccount he hinner hlater, i.requestToken_sends c source⟩
  signature h name bytes := by
    obtain ⟨source, hlater⟩ := h.impersonated hs hc hkind
    exact ⟨_, spawn_sign hlater name bytes, i.sign_asks c source bytes⟩

/-- Credentials that impersonate, and whose scopes are listed, are refused exactly if the life asked
for is no whole number of seconds of an hour at most, and without a list none are made; those of an
external account have scopes and live an hour. And whatever is done then, the tokens they request
are of the scopes and the life they were made with: of some scopes exactly if there were any. -/
theorem minting_as_configured {w : World} {wraps : Bool} {s : Session}
    (hreached : Steps (fun _ => True) (w.session wraps) s) :
    (∀ (o : Json.Members) source,
      (listsScopes o = true →
        Result.Decides (∃ n, Lifetime.Sets (o.setting "lifetime" some) n)
          (fun i => i.source = source ∧ i.scopes = o.texts "scopes" ∧
            Lifetime.Sets (o.setting "lifetime" some) i.lifetime.seconds)
          (ofSettings o source)) ∧
      (listsScopes o = false → ∃ e, ofSettings o source = .error e)) ∧
    (∀ settings account, ExternalAccount.ofSettings settings = .ok account →
      account.scopes ≠ [] ∧ (settings.scopes ≠ [] → account.scopes = settings.scopes)) ∧
    (∀ (account : ExternalAccount) template scopes, ∃ (account' : ExternalAccount) (setup : _),
      account.createScoped template scopes = account'.createCredential setup ∧
        account'.scopes ≠ [] ∧ (scopes ≠ [] → account'.scopes = scopes)) ∧
    (∀ (account : ExternalAccount) setup name url target,
      account.impersonationUrl.filled? = some url → Iam.targetPrincipal url = .ok target →
      s.spawn (calling name (Answer.made <$> account.createCredential setup)) = { s with
        born := s.born + 1
        held := s.held ++ (account.made setup url target s.held.length).map Held.fresh
        trace := .answered name (.ok (Answer.made (s.held.length + 2))) :: s.trace }) ∧
    ∀ c i, c < s.held.length → (s.held? c).credential.kind = .impersonated i →
      i.Honours s c ∧ ∀ r, i.Requests r → (Scoped r ↔ i.scopes ≠ []) := by
  refine ⟨fun o source => ?_, fun _ _ => ExternalAccount.scopes_ofSettings, ?_, ?_, ?_⟩
  · have hlife := Lifetime.decides_ofSetting (o.setting "lifetime" some)
    refine ⟨fun hlisted => ?_, fun hnone => ?_⟩
    · have hscopes : listedScopes o = .ok (o.texts "scopes") := if_pos hlisted
      rw [ofSettings, hscopes]
      exact (hlife.bind fun l hl => .ok ⟨rfl, rfl, hl⟩).congr (and_iff_left trivial)
    · have hscopes : listedScopes o = .error (.platform .notIterable) :=
        if_neg (by rw [hnone]; exact Bool.false_ne_true)
      rw [ofSettings, hscopes]
      cases Lifetime.ofSetting (o.setting "lifetime" some) with
      | error e => exact ⟨e, rfl⟩
      | ok l => exact ⟨_, rfl⟩
  · intro account template scopes
    refine ⟨_, _, rfl, ?_⟩
    cases scopes with
    | nil => exact ⟨List.cons_ne_nil _ _, fun h => absurd rfl h⟩
    | cons scope scopes => exact ⟨List.cons_ne_nil _ _, fun _ => rfl⟩
  · intro account setup name url target hurl htarget
    exact ExternalAccount.spawn_createCredential s hurl htarget setup name
  · intro c i hc hkind
    have hsound := (sound_session w wraps).steps hreached
    exact ⟨honours hsound hc hkind, fun r => Requests.scoped_iff⟩

/-- Settings for tokens of one scope that hold ten minutes. -/
def tenMinutes : Json.Members :=
  [("scopes", .array [.string "scope-a"]), ("lifetime", .number (.finite (600 : Nat)))]

theorem minting_as_configured_scoped :
    ∃ i, ofSettings tenMinutes 0 = .ok i ∧ i.scopes = ["scope-a"] ∧ i.lifetime.seconds = 600 ∧
      i.Honours i.backed 1 ∧
      ∃ r, (i.minting.work 2).requests = [r] ∧ i.Requests r ∧ Scoped r := by
  have hset : Lifetime.Sets (tenMinutes.setting "lifetime" some) 600 :=
    .number rfl (by decide) (by decide)
  obtain ⟨hsettings, -⟩ := minting_as_configured (.refl : Steps _ (World.session { now := 0 }) _)
  obtain ⟨i, hok, hsource, hscopes, hlife⟩ := ((hsettings tenMinutes 0).1 rfl).accepts ⟨600, hset⟩
  obtain ⟨-, -, -, -, hheld⟩ := minting_as_configured i.backed_steps
  have hkind : (i.backed.held? 1).credential.kind = .impersonated i := by
    show Credential.Kind.impersonated { i with source := 0 } = .impersonated i
    rw [← hsource]
  obtain ⟨hhonours, hscoped⟩ := hheld 1 i Nat.one_lt_two hkind
  have hrequests := i.requests_postJson (Http.Headers.ofMetadata endless.metadata)
  refine ⟨i, hok, hscopes, hlife.unique hset, hhonours, _, i.requests_minting, hrequests, ?_⟩
  exact (hscoped _ hrequests).mpr (hscopes ▸ List.cons_ne_nil _ _)

def scopeless : Json.Members :=
  [("targetPrincipal", .string "target@project.example"), ("scopes", .array [])]

/-- No scopes are as good as any: credentials are made with none, and request tokens of none. -/
theorem scopeless_impersonation_accepted :
    ∃ i, ofSettings scopeless 0 = .ok i ∧ i.scopes = [] ∧
      Steps (fun _ => True) ({ now := 0 } : World).session (i.minting.work 2) ∧
      ∃ r ∈ (i.minting.work 2).requests, r.url = i.iamEndpoint ∧ r.document? = some (.object
        [("delegates", .array []), ("scope", .array []), ("lifetime", .string "3600s")]) := by
  refine ⟨_, rfl, rfl, ?_, _, requests_minting _ ▸ List.mem_singleton_self _, rfl, ?_⟩
  · exact ((backed_steps _).tail (.start (Asks.anything _))).trans (steps_work 2 _)
  · exact (Http.document?_postJson _ (tidy_mintingData _) _).trans
      (congrArg some (settled_mintingData _))

end Impersonated

end Bearer
