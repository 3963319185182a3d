import Bearer.Proofs.Credential.Calls
import Bearer.Proofs.Exchange.Client
import Bearer.Proofs.Session.Fates

namespace Bearer

open Session

namespace Exchange

/-- A successful answer to an exchange issues an access token. -/
def Issues (response : Http.Response) (value : String) : Prop :=
  response.status = Http.statusOk ∧ ∃ data, response.object parseContext = .ok data ∧
    Http.requireString data "access_token" parseContext = .ok value

theorem answerOf_value {data : Json.Members} {now : Double} {answer : Answer}
    (h : answerOf data now = .ok answer) :
    Http.requireString data "access_token" parseContext = .ok answer.token.value := by
  obtain ⟨life, -, h⟩ := Result.bind_eq_ok h
  obtain ⟨scope, -, h⟩ := Result.bind_eq_ok h
  obtain ⟨value, hvalue, h⟩ := Result.bind_eq_ok h
  obtain ⟨issued, -, h⟩ := Result.bind_eq_ok h
  obtain ⟨tokenType, -, h⟩ := Result.bind_eq_ok h
  obtain ⟨refreshToken, -, h⟩ := Result.bind_eq_ok h
  cases h
  cases life <;> exact hvalue

theorem issues_of_answer {response : Http.Response} {data : Json.Members} {now : Double}
    {answer : Answer} (hdata : response.expectObject refusedContext parseContext = .ok data)
    (h : answerOf data now = .ok answer) : Issues response answer.token.value := by
  unfold Http.Response.expectObject at hdata
  split at hdata
  · next hstatus => exact ⟨hstatus, data, hdata, answerOf_value h⟩
  · obtain ⟨body, -, hbody⟩ := Result.bind_eq_ok hdata
    cases hbody

end Exchange

namespace Impersonated

def Mints (response : Http.Response) (value : String) : Prop :=
  response.status = Http.statusOk ∧ ∃ data, response.object parseContext = .ok data ∧
    Http.requireString data "accessToken" parseContext = .ok value

theorem mints_of_tokenIn {response : Http.Response} {t : Token}
    (h : tokenIn response = .ok t) : Mints response t.value := by
  unfold tokenIn at h
  split at h
  · obtain ⟨body, -, hbody⟩ := Result.bind_eq_ok h
    cases hbody
  · next hstatus =>
    obtain ⟨data, hdata, h⟩ := Result.bind_eq_ok h
    obtain ⟨value, hvalue, h⟩ := Result.bind_eq_ok h
    obtain ⟨expireTime, -, h⟩ := Result.bind_eq_ok h
    refine ⟨Decidable.not_not.mp hstatus, data, hdata, ?_⟩
    split at h
    · cases h
      exact hvalue
    · cases h

end Impersonated

namespace Session.Discipline
variable {d : Discipline} {v : View}

/-- Whatever the source of a foreign token is, getting the token keeps the discipline. -/
theorem keeps_retrieve {source : SubjectToken.Source} {k : Result String → Procedure Ending}
    (hgood : d.good v)
    (hsends : ∀ url headers format next, source = .url url headers format →
      d.sends v { method := .get, url, headers } next)
    (hk : ∀ outcome v', d.Later v v' → d.Keeps v' v' (k outcome)) :
    d.Keeps v v (source.retrieve.andThen k) := by
  cases source with
  | supplied outcome => exact hk outcome v (.refl hgood)
  | file path format =>
    refine ⟨.refl hgood, fun content v' hlater => ?_⟩
    cases content with
    | some bytes => exact hk _ v' hlater
    | none => exact hk _ v' hlater
  | url url headers format =>
    have hr := fun next => hsends url headers format next rfl
    refine ⟨.refl hgood, hr _, fun outcome v' hlater => ?_⟩
    have hlater' : d.Later v v' :=
      (Later.met hgood (hr fun _ => .done (.ok .nothing)) outcome).trans hlater
    cases outcome with
    | error e => exact hk _ v' hlater'
    | ok response =>
      show d.Keeps v' v' (Procedure.andThen k (Procedure.bind (.done response.body) _))
      cases response.body with
      | error e => exact hk _ v' hlater'
      | ok body =>
        show d.Keeps v' v' (Procedure.andThen k (if response.status = Http.statusOk then _ else _))
        split <;> exact hk _ v' hlater'

/-- An exchange sends its request, and makes of the answer what it can. -/
theorem keeps_perform {r : Exchange.Request} {k : Result Exchange.Answer → Procedure Ending}
    (hgood : d.good v) (hr : ∀ next, d.sends v r.http next)
    (herror : ∀ e v', d.Later v v' → d.Keeps v' v' (k (.error e)))
    (hok : ∀ response answer v', d.Later (v.met r.http (.ok response)) v' →
      Exchange.Issues response answer.token.value → d.Keeps v' v' (k (.ok answer))) :
    d.Keeps v v (r.perform.andThen k) := by
  refine ⟨.refl hgood, hr _, fun outcome v' hlater => ?_⟩
  have hlater' : d.Later v v' :=
    (Later.met hgood (hr fun _ => .done (.ok .nothing)) outcome).trans hlater
  cases outcome with
  | error e => exact herror e v' hlater'
  | ok response =>
    show d.Keeps v' v' (Procedure.andThen k (Procedure.bind
      (.done (response.expectObject Exchange.refusedContext Exchange.parseContext)) _))
    cases hdata : response.expectObject Exchange.refusedContext Exchange.parseContext with
    | error e => exact herror e v' hlater'
    | ok data =>
      intro now
      show d.Keeps v' v' (k (Exchange.answerOf data now))
      cases hanswer : Exchange.answerOf data now with
      | error e => exact herror e v' hlater'
      | ok answer => exact hok response answer v' hlater (Exchange.issues_of_answer hdata hanswer)

end Session.Discipline

namespace ExternalAccount

variable (account : ExternalAccount) (setup : Credential.Setup) (url target : String)

def plain : ExternalAccount :=
  { account with impersonationUrl := .missing, impersonated := none }

def exchanger : CredentialId := 0

def impersonator : CredentialId := 1

def outer : CredentialId := 2

def impersonating : Impersonated :=
  { source := exchanger, target, scopes := account.scopes, lifetime := .longest,
    endpoint := .value url }

def outerCredential : Credential :=
  { setup with
    kind := .externalAccount { account with impersonated := some (impersonator, target) } }

def table : List Credential :=
  [{ setup.toSurroundings with kind := .externalAccount account.plain },
   { setup.toSurroundings with kind := .impersonated (account.impersonating url target) },
   account.outerCredential setup target]

def opened (w : World) : Session :=
  w.session.spawn ((fun _ => Ending.nothing) <$> (account.createCredential setup).attempt)

def minting (value : String) : Http.Request :=
  { method := .post
    url
    headers := .value [("Authorization", "Bearer " ++ value), ("Content-Type", "application/json")]
    body := some (Json.object
      [("delegates", .array []), ("scope", .array (account.scopes.map .string)),
       ("lifetime", .string "3600s")]).render }

/-- A token was issued by a successful exchange. -/
def Exchanged (contacts : List Contact) (value : String) : Prop :=
  ∃ subject response, ((account.exchange subject).http, .ok response) ∈ contacts ∧
    Exchange.Issues response value

/-- A token was minted for one that a successful exchange has issued. -/
def Minted (contacts : List Contact) (value : String) : Prop :=
  ∃ authorizing response, (account.minting url authorizing, .ok response) ∈ contacts ∧
    Impersonated.Mints response value

/-- What is sent: the source of foreign tokens is asked, such a token is exchanged, or a token
is minted, with the authority of one that was exchanged before. -/
inductive Sends (earlier : List Contact) : Http.Request → Prop
  | retrieval {address : String} {headers : Given Http.Headers} {format : SubjectToken.Format}
      (h : account.source = .url address headers format) :
      Sends earlier { method := .get, url := address, headers }
  | exchange (subject : String) : Sends earlier (account.exchange subject).http
  | minting {value : String} (h : account.Exchanged earlier value) :
      Sends earlier (account.minting url value)

/-- The outer credentials have the token from the start, or it was minted. -/
def Legitimate (contacts : List Contact) (t : Token) : Prop :=
  (∃ initial, setup.token = some initial ∧ t.value = initial.value) ∨
    account.Minted url contacts t.value

/-- The headers of such a token, as the outer credentials decorate them. -/
def Displays (contacts : List Contact) (m : Metadata) : Prop :=
  ∃ t, account.Legitimate setup url contacts t ∧
    m = (account.outerCredential setup target).decorate t.metadata

/-- A refresh of the outer credentials that waits for the exchange ends with its failure. -/
def FailsWithSource (k : Cache.RefreshId) (next : Result (Option Token) → Procedure Ending) :
    Prop :=
  ∀ e, next (.error e) =
    .done (.ok (.operation outer k (.error (Fault.sourceNotRefreshed e).thrown)))

variable {account setup url target} {before after : List Contact}

theorem Exchanged.mono (h : before <:+ after) {value : String}
    (hv : account.Exchanged before value) : account.Exchanged after value := by
  obtain ⟨subject, response, hmem, hissues⟩ := hv
  exact ⟨subject, response, h.subset hmem, hissues⟩

theorem Legitimate.mono (h : before <:+ after) {t : Token}
    (ht : account.Legitimate setup url before t) : account.Legitimate setup url after t := by
  refine ht.imp_right ?_
  rintro ⟨authorizing, response, hmem, hmints⟩
  exact ⟨authorizing, response, h.subset hmem, hmints⟩

theorem Displays.mono (h : before <:+ after) {m : Metadata}
    (hm : account.Displays setup url target before m) :
    account.Displays setup url target after m := by
  obtain ⟨t, ht, heq⟩ := hm
  exact ⟨t, ht.mono h, heq⟩

variable (account setup url target)

def discipline : Discipline where
  good v := v.table = account.table setup url target ∧
    ∀ r outcome earlier, (r, outcome) :: earlier <:+ v.contacts → account.Sends url earlier r
  tables _ _ := True
  tables_refl _ := trivial
  tables_trans _ _ := trivial
  takesPart c := c = exchanger ∨ c = outer
  fetched _ := False
  token contacts c t :=
    (c = exchanger → account.Exchanged contacts t.value) ∧
      (c = outer → account.Legitimate setup url contacts t)
  token_mono h ht := ⟨fun hc => (ht.1 hc).mono h, fun hc => (ht.2 hc).mono h⟩
  sends v r _ := account.Sends url v.contacts r
  good_met := by
    rintro v r next outcome ⟨htable, hearlier⟩ hr
    refine ⟨htable, fun r' outcome' earlier hsuffix => ?_⟩
    rcases List.suffix_cons_iff.mp hsuffix with heq | hsuffix
    · cases heq
      exact hr
    · exact hearlier r' outcome' earlier hsuffix
  sees contacts o := o.HandsOnly (account.Displays setup url target contacts)
  sees_mono h ho := ho.mono fun _ hm => hm.mono h
  sees_logged _ _ := trivial
  sees_sent _ _ := trivial
  awaits c signal next := (c = exchanger → signal = none ∧ ∃ k, FailsWithSource k next) ∧
    (c = outer → Credential.Rejects outer next)

/-- The impersonator's request, when the headers are those of a token. -/
theorem minting_eq (t : Token) :
    Http.postJson (account.impersonating url target).iamEndpoint
      (account.impersonating url target).mintingData (Http.Headers.ofMetadata t.metadata) =
      account.minting url t.value := by
  have hheaders : (Http.Headers.ofMetadata t.metadata).set Http.contentType Http.jsonType =
      [("Authorization", "Bearer " ++ t.value), ("Content-Type", "application/json")] := by
    simp [Http.Headers.ofMetadata, Token.metadata, Http.Headers.set, Token.authorizationHeader,
      Http.contentType, Http.jsonType, Token.bearerScheme]
  have hbody : (account.impersonating url target).mintingData = .object
      [("delegates", .array []), ("scope", .array (account.scopes.map .string)),
       ("lifetime", .string "3600s")] := by
    have hlife : toString Lifetime.longest.seconds ++ "s" = "3600s" := by decide
    rw [← hlife]
    rfl
  rw [Http.postJson, hheaders, hbody]
  rfl

theorem exchanger_ne_outer : exchanger ≠ outer := by decide

/-- An account that is to be impersonated is looked up, and asked for the token. -/
theorem requestToken_impersonated (c : ExternalAccount) (id : CredentialId) (principal : String) :
    ∃ next, ({ c with impersonated := some (id, principal) } : ExternalAccount).requestToken =
        .ask (.credential id) next ∧
      ∀ (owner : Credential) i, owner.kind = .impersonated i → next owner = i.requestToken id := by
  refine ⟨_, rfl, ?_⟩
  rintro ⟨setup, kind⟩ i rfl
  rfl

section Operations
variable {account setup url target} {v : View}

theorem credential_exchanger (h : v.table = account.table setup url target) :
    v.credential exchanger =
      { setup.toSurroundings with kind := .externalAccount account.plain } := by
  rw [View.credential, h]
  rfl

theorem credential_impersonator (h : v.table = account.table setup url target) :
    v.credential impersonator =
      { setup.toSurroundings with kind := .impersonated (account.impersonating url target) } := by
  rw [View.credential, h]
  rfl

theorem credential_outer (h : v.table = account.table setup url target) :
    v.credential outer = account.outerCredential setup target := by
  rw [View.credential, h]
  rfl

/-- To exchange the foreign token keeps the discipline. -/
theorem keeps_exchanging (hgood : (account.discipline setup url target).good v)
    (k : Cache.RefreshId) : (account.discipline setup url target).Keeps v v
      (Ending.operation exchanger k <$> (Credential.requestToken exchanger).attempt) := by
  have hkind : (v.credential exchanger).kind = .externalAccount account.plain :=
    congrArg Credential.kind (credential_exchanger hgood.1)
  obtain ⟨next, heq, hexternal, -⟩ := Credential.requestToken_looks exchanger
  rw [Procedure.map_attempt, heq]
  show (account.discipline setup url target).Keeps v v
    ((next (v.credential exchanger)).andThen _)
  rw [hexternal _ _ hkind]
  show (account.discipline setup url target).Keeps v v (Procedure.andThen _
    (account.source.retrieve >>= fun subject =>
      (account.exchange subject).perform >>= fun answer => pure answer.token))
  rw [Procedure.andThen_bind]
  have hfailed (e : Thrown) (v' : View) (hgood' : (account.discipline setup url target).good v') :
      (account.discipline setup url target).Keeps v' v'
        (.done (.ok (.operation exchanger k (.error e)))) :=
    ⟨.refl hgood', .inl rfl, fun _ ht => by cases ht⟩
  refine Discipline.keeps_retrieve hgood (fun url headers format _ h => .retrieval h)
    fun outcome v' hlater => ?_
  cases outcome with
  | error e => exact hfailed e v' hlater.good
  | ok subject =>
    dsimp only
    rw [Procedure.andThen_bind]
    refine Discipline.keeps_perform hlater.good (fun _ => .exchange subject)
      (fun e v'' hlater' => hfailed e v'' hlater'.good)
      fun response answer v'' hlater' hissues => ?_
    refine ⟨.refl hlater'.good, .inl rfl, fun t ht =>
      ⟨fun _ => ?_, fun hc => absurd hc exchanger_ne_outer⟩⟩
    cases ht
    exact ⟨subject, response, hlater'.contacts.subset List.mem_cons_self, hissues⟩

/-- A refresh of the outer credentials goes on with the headers of an exchanged token, or ends
with what has become of the exchange. -/
theorem keeps_exchangedMetadata (hgood : (account.discipline setup url target).good v)
    {uri : Given String} {k : Cache.RefreshId} {next : Result Metadata → Procedure Ending}
    (hfails : ∀ e, next (.error e) =
      .done (.ok (.operation outer k (.error (Fault.sourceNotRefreshed e).thrown))))
    (hok : ∀ (t : Token) v', (account.discipline setup url target).good v' →
      account.Exchanged v'.contacts t.value →
      (account.discipline setup url target).Keeps v' v' (next (.ok t.metadata))) :
    (account.discipline setup url target).Keeps v v
      ((Credential.requestMetadata exchanger uri).andThen next) := by
  have hkind : ∀ a, (v.credential exchanger).kind ≠ .jwtAccess a := by
    rw [credential_exchanger hgood.1]
    rintro a ⟨⟩
  have hlength : exchanger < v.table.length := by
    rw [hgood.1]
    exact Nat.succ_pos 2
  have hfailed (e : Thrown) (v' : View) (hgood' : (account.discipline setup url target).good v') :
      (account.discipline setup url target).Keeps v' v' (next (.error e)) := by
    rw [hfails]
    exact ⟨.refl hgood', .inr rfl, fun _ ht => by cases ht⟩
  refine Credential.keeps_requestMetadata (.refl hgood) hkind (.inl rfl) hlength
    ⟨fun _ => ⟨rfl, k, hfails⟩, fun hc => absurd hc exchanger_ne_outer⟩
    fun r v' hlater htoken => ?_
  rcases r with e | - | t
  · exact hfailed _ v' hlater.good
  · exact hfailed _ v' hlater.good
  · rw [credential_exchanger hgood.1]
    exact hok t v' hlater.good ((htoken t rfl).1 rfl)

theorem keeps_minted (hgood : (account.discipline setup url target).good v) {t : Token}
    (hexchanged : account.Exchanged v.contacts t.value) {k : Cache.RefreshId}
    {next : Result Http.Response → Procedure Ending}
    (herror : ∀ e, next (.error e) = .done (.ok (.operation outer k (.error e))))
    (hok : ∀ response, next (.ok response) =
      .done (.ok (.operation outer k (Impersonated.tokenIn response)))) :
    (account.discipline setup url target).Keeps v v (.ask (.send (Http.postJson
      (account.impersonating url target).iamEndpoint (account.impersonating url target).mintingData
      (Http.Headers.ofMetadata t.metadata))) next) := by
  rw [minting_eq]
  refine ⟨.refl hgood, .minting hexchanged, fun outcome v' hlater => ?_⟩
  cases outcome with
  | error e =>
    rw [herror]
    exact ⟨.refl hlater.good, .inr rfl, fun _ ht => by cases ht⟩
  | ok response =>
    rw [hok]
    refine ⟨.refl hlater.good, .inr rfl, fun minted hminted =>
      ⟨fun hc => absurd hc.symm exchanger_ne_outer, fun _ => .inr ?_⟩⟩
    exact ⟨t.value, response, hlater.contacts.subset List.mem_cons_self,
      Impersonated.mints_of_tokenIn hminted⟩

theorem keeps_minting (hgood : (account.discipline setup url target).good v)
    (k : Cache.RefreshId) : (account.discipline setup url target).Keeps v v
      (Ending.operation outer k <$> (Credential.requestToken outer).attempt) := by
  -- The account hands the refresh on to its impersonator, which asks its source, the exchanger.
  obtain ⟨next, heq, hexternal, -⟩ := Credential.requestToken_looks outer
  rw [Procedure.map_attempt, heq]
  show (account.discipline setup url target).Keeps v v ((next (v.credential outer)).andThen _)
  rw [hexternal _ { account with impersonated := some (impersonator, target) }
    (congrArg Credential.kind (credential_outer hgood.1))]
  obtain ⟨asks, hasks, himpersonated⟩ := requestToken_impersonated account impersonator target
  rw [hasks]
  show (account.discipline setup url target).Keeps v v
    ((asks (v.credential impersonator)).andThen _)
  rw [himpersonated _ _ (congrArg Credential.kind (credential_impersonator hgood.1)),
    Impersonated.requestToken_andThen, Impersonated.sourceMetadata_andThen]
  obtain ⟨sources, hsources, -, -, hexternal'⟩ :=
    (account.impersonating url target).scopedSource_looks impersonator
  rw [hsources]
  show (account.discipline setup url target).Keeps v v
    ((sources (v.credential exchanger)).andThen _)
  rw [hexternal' _ _ (congrArg Credential.kind (credential_exchanger hgood.1))]
  exact keeps_exchangedMetadata hgood (fun _ => rfl) fun t v' hgood' hexchanged =>
    keeps_minted (k := k) hgood' hexchanged (fun _ => rfl) fun _ => rfl

theorem operates : (account.discipline setup url target).Operates := by
  rintro v c k hgood (rfl | rfl)
  · exact keeps_exchanging hgood k
  · exact keeps_minting hgood k

theorem keeps_calls {p : Procedure Ending} (hp : Credential.Calls outer p)
    (hgood : (account.discipline setup url target).good v) :
    (account.discipline setup url target).Keeps v v p := by
  have hcredential := credential_outer hgood.1
  have hdisplays (v' : View) (t : Token)
      (ht : (account.discipline setup url target).token v'.contacts outer t) :
      account.Displays setup url target v'.contacts
        ((v.credential outer).decorate t.metadata) := by
    rw [hcredential]
    exact ⟨t, ht.2 rfl, rfl⟩
  refine Discipline.keeps_call hp hgood ?_ (.inr rfl) ?_ not_false
    (fun _ _ hrejects => ⟨fun hc => absurd hc.symm exchanger_ne_outer, fun _ => hrejects⟩)
    (fun v' _ t _ ht => hdisplays v' t ht) (fun v' _ t _ ht => hdisplays v' t ht)
    (fun _ _ => trivial) (fun _ _ _ => ⟨trivial, trivial⟩)
  · rw [hcredential]
    rintro a ⟨⟩
  · rw [hgood.1]
    exact Nat.lt_succ_self 2

end Operations

section Runs
variable {account setup url target} {w : World} {s : Session}

theorem opened_eq (hurl : account.impersonationUrl.filled? = some url)
    (htarget : Iam.targetPrincipal url = .ok target) :
    account.opened setup w = { w.session with
      born := 1
      held := (account.table setup url target).map fun credential =>
        { credential, cache := .initial credential.token } } := by
  rw [opened, createCredential, prepared, hurl]
  dsimp only
  rw [createImpersonated, htarget]
  rfl

variable (hurl : account.impersonationUrl.filled? = some url)
  (htarget : Iam.targetPrincipal url = .ok target)
include hurl htarget

theorem pristine_opened : (account.opened setup w).Pristine := by
  rw [opened_eq hurl htarget]
  exact pristine_session w _ 1

theorem orderly_opened : Orderly (account.discipline setup url target) w.replies
    ((account.opened setup w).view w.replies) (account.opened setup w) := by
  have hpristine : (account.opened setup w).Pristine := pristine_opened hurl htarget
  rw [opened_eq hurl htarget] at hpristine ⊢
  refine hpristine.orderly ⟨rfl, fun r outcome earlier h => ?_⟩ fun c t ht => ?_
  · cases List.suffix_nil.mp h
  · refine ⟨fun hc => ?_, fun hc => ?_⟩
    · subst hc
      cases ht
    · subst hc
      exact .inl ⟨t, ht, rfl⟩

/-- In every run of the outer credentials, a token is minted at the address for impersonation
only, with the authority of a token that was exchanged before and with no other header; the
outer credentials cache and show no token but the one they began with and those minted so. And
if the exchange fails that a refresh waits for, the refresh sends nothing and ends with an error
that the failure has caused, with which the calls are rejected that wait for it. -/
theorem exchanged_token_contained
    (hrun : Uses (Credential.Calls outer) (account.opened setup w) s) :
    (∀ r outcome earlier, (r, outcome) :: earlier <:+ s.contacts w.replies →
      account.Sends url earlier r) ∧
    (∀ t, (s.held? outer).cache.token = some t →
      account.Legitimate setup url (s.contacts w.replies) t) ∧
    (∀ o ∈ s.trace, o.HandsOnly (account.Displays setup url target (s.contacts w.replies))) ∧
    (∀ i j, i ∈ (s.held? exchanger).cache.waitersOf j →
      ∃ k, (s.held? outer).cache.stage? k = some .working ∧
        ∀ s' e, Uses (Credential.Calls outer) s s' →
          (s'.held? exchanger).cache.stage? j = some (.finished (.error e)) →
          Concludes i (.done (.ok (.operation outer k
              (.error (Fault.sourceNotRefreshed e).thrown))))
            (FailedWith outer k (Fault.sourceNotRefreshed e).thrown) s') ∧
    Rejecting (Credential.Calls outer) outer s := by
  have hkeeps : ∀ p, Credential.Calls outer p → ∀ v,
      (account.discipline setup url target).good v →
      (account.discipline setup url target).Keeps v v p := fun p hp v hgood => keeps_calls hp hgood
  have helsewhere : ∀ p, Credential.Calls outer p → ∀ c k, Elsewhere c k p :=
    fun p hp c k => hp.elsewhere c k
  have hopened : Orderly (account.discipline setup url target) w.replies
      ((account.opened setup w).view w.replies) (account.opened setup w) :=
    orderly_opened hurl htarget
  have horderly := (lands_uses operates hkeeps hopened hrun).orderly
  have hstaffed := staffed_uses operates hkeeps helsewhere hopened
    (pristine_opened hurl htarget).staffed hrun
  have hsound := sound_uses ((sound_session w false).acts
    (spawn_acts (by simp) (Procedure.Asks.anything _))) hrun
  refine ⟨horderly.good.2, fun t ht => ((horderly.caches outer).cached t ht).2 rfl,
    horderly.seen, fun i j hwaits => ?_, rejecting_of_orderly operates hkeeps helsewhere horderly
      hstaffed hsound fun _ _ hawaits => hawaits.2 rfl⟩
  obtain ⟨signal, next, ⟨-, hawaits, -⟩, hw, hp⟩ :=
    (horderly.everyone.position i).waiting_of_mem hwaits
  obtain ⟨rfl, k, hnext⟩ := hawaits.1 rfl
  have hthread : ⟨i, .token exchanger none next⟩ ∈ s.threads := by
    have hmem : ⟨i, .token exchanger none next⟩ ∈ s.threads.filter (fun t => t.id = i) := by
      rw [hw.threads]
      exact List.mem_singleton_self _
    exact (List.mem_filter.mp hmem).1
  refine ⟨k, hstaffed.working_waiting hthread (hnext .undefined), fun s' e huses hj => ?_⟩
  exact operation_concludes operates hkeeps helsewhere horderly hstaffed hsound hnext hw hp huses hj

end Runs

def runnerUrl : String := "https://iam.example/accounts/runner:generateAccessToken"

/-- A workload that has its foreign token in a file and acts as another account. -/
def workload : ExternalAccount :=
  { audience := "pool", subjectTokenType := "jwt", tokenUrl := "https://sts.example/token"
    source := .file "/subject" .text, impersonationUrl := .value runnerUrl, scopes := ["read"] }

/-- The workload has been asked for headers, and the first pieces of work are done. -/
def refreshing : Session :=
  ((workload.opened {} { now := 0 }).spawn (Ending.call "headers" <$>
    (Answer.metadata <$> Credential.requestMetadata outer .missing none).attempt)).work 3

/-- The refresh of a workload whose file is missing waits for the exchange, and ends with an
error that the missing file has caused. -/
theorem exchanged_token_contained_unreadable :
    (refreshing.held? exchanger).cache.waitersOf 0 = [2] ∧
    ∃ k, (refreshing.held? outer).cache.stage? k = some .working ∧
      Concludes 2 (.done (.ok (.operation outer k (.error
          (Fault.sourceNotRefreshed (Fault.unreadableTokenFile "/subject").thrown).thrown))))
        (FailedWith outer k
          (Fault.sourceNotRefreshed (Fault.unreadableTokenFile "/subject").thrown).thrown)
        (refreshing.work 10) := by
  have hwaits : (refreshing.held? exchanger).cache.waitersOf 0 = [2] := rfl
  have hfailed : ((refreshing.work 10).held? exchanger).cache.stage? 0 =
      some (.finished (.error (Fault.unreadableTokenFile "/subject").thrown)) := rfl
  have hstart : Uses (Credential.Calls outer) (workload.opened {} { now := 0 }) refreshing :=
    .head (.start (.requestMetadata "headers" .missing none)) (uses_work 3 _)
  have hurl : workload.impersonationUrl.filled? = some runnerUrl := rfl
  have htarget : Iam.targetPrincipal runnerUrl = .ok "runner" := by
    have hnamed : Iam.targetPrincipal? runnerUrl = some "runner" := by decide
    rw [Iam.targetPrincipal, hnamed]
  obtain ⟨-, -, -, hfails, -⟩ := exchanged_token_contained hurl htarget hstart
  obtain ⟨k, hworking, hconcludes⟩ := hfails 2 0 (hwaits ▸ List.mem_singleton_self 2)
  exact ⟨hwaits, k, hworking, hconcludes _ _ (uses_work 10 refreshing) hfailed⟩

end ExternalAccount

end Bearer
