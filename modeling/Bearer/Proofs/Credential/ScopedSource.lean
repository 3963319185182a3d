import Bearer.Proofs.Credential.Acceptance
import Bearer.Proofs.Credential.Calls

namespace Bearer

open Session

theorem Http.Headers.mem_set (hs : Http.Headers) (name value : String) :
    (name, value) ∈ hs.set name value := by
  induction hs with
  | nil => exact List.mem_singleton_self _
  | cons h hs ih =>
    unfold set
    split
    · exact List.mem_cons_self
    · exact List.mem_cons_of_mem _ ih

theorem Http.Headers.mem_set_of_ne {hs : Http.Headers} {h : String × String} {name : String}
    (hmem : h ∈ hs) (hne : h.1 ≠ name) (value : String) : h ∈ hs.set name value := by
  induction hs with
  | nil => cases hmem
  | cons first hs ih =>
    unfold set
    split
    · next hfirst =>
      rcases List.mem_cons.mp hmem with rfl | hmem
      · exact absurd hfirst hne
      · exact List.mem_cons_of_mem _ hmem
    · rcases List.mem_cons.mp hmem with rfl | hmem
      · exact List.mem_cons_self
      · exact List.mem_cons_of_mem _ (ih hmem)

theorem Metadata.mem_set_of_ne {m : Metadata} {h : String × List String} {name : String}
    (hmem : h ∈ m) (hne : h.1 ≠ name) (values : List String) : h ∈ m.set name values := by
  induction m with
  | nil => cases hmem
  | cons first m ih =>
    unfold set
    split
    · next hfirst =>
      rcases List.mem_cons.mp hmem with rfl | hmem
      · exact absurd hfirst hne
      · exact List.mem_cons_of_mem _ hmem
    · rcases List.mem_cons.mp hmem with rfl | hmem
      · exact List.mem_cons_self
      · exact List.mem_cons_of_mem _ (ih hmem)

/-- A header is handed out unless the credential has one of that name for itself. -/
theorem Credential.mem_decorate {c : Credential} {m : Metadata} {h : String × List String}
    (hmem : h ∈ m) (hquota : h.1 ≠ quotaHeader) (hown : ∀ f ∈ c.headers, h.1 ≠ f.1) :
    h ∈ c.decorate m := by
  have hfold : ∀ (fs : Metadata) (m : Metadata), (∀ f ∈ fs, h.1 ≠ f.1) → h ∈ m →
      h ∈ fs.foldl (fun m f => Metadata.set m f.1 f.2) m := by
    intro fs
    induction fs with
    | nil => exact fun _ _ hmem => hmem
    | cons f fs ih =>
      intro m hfs hmem
      obtain ⟨hf, hfs⟩ := List.forall_mem_cons.mp hfs
      exact ih _ hfs (Metadata.mem_set_of_ne hmem hf _)
  unfold decorate
  refine hfold _ _ hown ?_
  split
  · exact Metadata.mem_set_of_ne hmem hquota _
  · exact hmem

namespace ServiceAccount

variable (a : ServiceAccount)

def tokenRequest (assertion : String) : Http.Request :=
  Http.postForm a.tokenServerUrl
    (.ofStrings [("grant_type", some grantType), ("assertion", some assertion)])

/-- What is asserted when the clock shows this. -/
def assertionAt (now : Double) : Result String :=
  Crypto.signedToken a.key a.keyId.filled? (a.claims (now / Double.ofNat 1000).floor)

/-- The request is one for a token of the account. -/
def Requests (r : Http.Request) : Prop :=
  ∃ now assertion, a.assertionAt now = .ok assertion ∧ r = a.tokenRequest assertion

def Granted (response : Http.Response) (t : Token) : Prop :=
  response.status = Http.statusOk ∧ ∃ data now,
    response.object wording.unreadable = .ok data ∧ Http.Grants now data t

variable {a}

theorem requestToken_asserts (h : a.scopes ≠ []) :
    a.requestToken = .ask .now fun now =>
      match a.assertionAt now with
      | .ok assertion => .ask .rest fun _ =>
          .ask (.send (a.tokenRequest assertion)) (Procedure.receiving (tokenIn · wording))
      | .error e => .done (.error e) := by
  have hempty : a.scopes.isEmpty = false := by simpa using h
  unfold requestToken assertion
  rw [hempty]
  refine congrArg (Procedure.ask .now) (funext fun now => ?_)
  show Procedure.bind (Procedure.bind (.ofResult (a.assertionAt now)) _) _ = _
  cases a.assertionAt now <;> rfl

/-- An account reads the clock to sign, and sends what it has signed. -/
theorem requestToken_signs (h : a.scopes ≠ []) : ∃ next, a.requestToken = .ask .now next ∧
    ∀ now, (∀ assertion, a.assertionAt now = .ok assertion → next now = .ask .rest fun _ =>
      .ask (.send (a.tokenRequest assertion)) (Procedure.receiving (tokenIn · wording))) ∧
    ∀ e, a.assertionAt now = .error e → next now = .done (.error e) := by
  refine ⟨_, requestToken_asserts h, fun now => ⟨fun assertion hsigned => ?_, fun e hfails => ?_⟩⟩
  · rw [hsigned]
  · rw [hfails]

theorem granted_of_tokenOf {response : Http.Response} {data : Json.Members} {now : Double}
    {t : Token} (hdata : response.expectObject wording.refused wording.unreadable = .ok data)
    (h : Http.tokenOf data now wording.unreadable = .ok t) : Granted response t := by
  unfold Http.Response.expectObject at hdata
  split at hdata
  · next hstatus => exact ⟨hstatus, data, now, hdata, Http.tokenOf_eq_ok.mp h⟩
  · obtain ⟨body, -, hbody⟩ := Result.bind_eq_ok hdata
    cases hbody

/-- A key that cannot sign tokens never does. -/
theorem Requests.signs {r : Http.Request} (h : a.Requests r) : a.key.SignsTokens := by
  obtain ⟨now, assertion, hsigned, -⟩ := h
  unfold assertionAt Crypto.signedToken at hsigned
  cases hkey : a.key with
  | other =>
    rw [hkey] at hsigned
    cases hsigned
  | rsa modulus exponent =>
    rw [hkey] at hsigned
    refine ⟨modulus, exponent, rfl, Nat.not_lt.mp fun hbits => ?_⟩
    dsimp only at hsigned
    rw [if_pos hbits] at hsigned
    cases hsigned

end ServiceAccount

/-- One impersonation over a service account that has no scopes. -/
structure Impersonation where
  source : ServiceAccount
  sourceSetup : Credential.Setup := {}
  impersonated : Impersonated
  setup : Credential.Setup := {}
  unscoped : source.scopes = []

namespace Impersonation

variable (m : Impersonation)

def original : CredentialId := 0

def wrapper : CredentialId := 1

def copy : CredentialId := 2

def sourceCredential : Credential := { m.sourceSetup with kind := .serviceAccount m.source }

/-- The account with the widest scope and no other. -/
def widened : ServiceAccount := { m.source with scopes := [Google.cloudPlatformScope] }

def copyCredential : Credential :=
  { m.sourceSetup with kind := .serviceAccount m.widened, token := none }

def wrapperCredential (source : CredentialId) : Credential :=
  { m.setup with kind := .impersonated { m.impersonated with source } }

/-- The credentials, as long as nobody needed the source. -/
def unshared : List Credential := [m.sourceCredential, m.wrapperCredential original]

/-- The credentials with the copy in place. -/
def shared : List Credential := [m.sourceCredential, m.wrapperCredential copy, m.copyCredential]

def opened (w : World) : Session :=
  w.session.spawn ((fun _ => Ending.nothing) <$> (do
    let source ← create m.sourceCredential
    create (m.wrapperCredential source) : Procedure CredentialId).attempt)

/-- What an application has the credentials do: they sign, and do what caches tokens. -/
inductive Calls : Procedure Ending → Prop
  | call {p : Procedure Ending} (h : Credential.Calls wrapper p) : Calls p
  | sign (name : String) (bytes : List UInt8) : Calls
      (Ending.call name <$> (Answer.bytes <$> Credential.sign wrapper bytes).attempt)

/-- A token of the copy was granted. -/
def Obtained (contacts : List Contact) (t : Token) : Prop :=
  ∃ r response, (r, .ok response) ∈ contacts ∧ m.widened.Requests r ∧
    ServiceAccount.Granted response t

/-- A request to the service that acts for accounts, with these headers. -/
inductive CallsService (metadata : Metadata) : Http.Request → Prop
  | minting : CallsService metadata (Http.postJson m.impersonated.iamEndpoint
      m.impersonated.mintingData (Http.Headers.ofMetadata metadata))
  | signing (bytes : List UInt8) : CallsService metadata
      (Iam.signRequest m.impersonated.target metadata bytes)

/-- What is sent: the copy requests a token, or the service is called with the headers of one
that the copy has obtained before. -/
inductive Sends (earlier : List Contact) : Http.Request → Prop
  | token {r : Http.Request} (h : m.widened.Requests r) : Sends earlier r
  | service {r : Http.Request} {t : Token} (ht : m.Obtained earlier t)
      (h : m.CallsService (m.copyCredential.decorate t.metadata) r) : Sends earlier r

/-- How the refresh of the copy goes on with what comes of its request. -/
def received (k : Cache.RefreshId) (outcome : Result Http.Response) : Procedure Ending :=
  Ending.operation copy k <$>
    (Procedure.receiving (tokenIn · ServiceAccount.wording) outcome).attempt

/-- Those who wait for a token of the copy end with its failure: a refresh, or a call. -/
inductive FailsWithCopy (next : Result (Option Token) → Procedure Ending) : Prop
  | refresh (k : Cache.RefreshId) (h : ∀ e, next (.error e) =
      .done (.ok (.operation wrapper k (.error (Fault.sourceNotRefreshed e).thrown))))
  | call (name : String) (h : ∀ e, next (.error e) =
      .done (.ok (.call name (.error (Fault.sourceNotRefreshed e).thrown))))

variable {m}

theorem Obtained.mono {before after : List Contact} (h : before <:+ after) {t : Token}
    (ht : m.Obtained before t) : m.Obtained after t := by
  obtain ⟨r, response, hmem, hr, hgranted⟩ := ht
  exact ⟨r, response, h.subset hmem, hr, hgranted⟩

variable (m)

/-- The service is called with the bearer token, unless the application has put another header in
its place. -/
theorem CallsService.bearer {m : Impersonation} {t : Token} {r : Http.Request}
    (h : m.CallsService (m.copyCredential.decorate t.metadata) r)
    (hown : ∀ f ∈ m.sourceSetup.headers, "Authorization" ≠ f.1) :
    ("Authorization", "Bearer " ++ t.value) ∈ r.headers.getD [] := by
  have hdecorated : ("Authorization", ["Bearer " ++ t.value]) ∈
      m.copyCredential.decorate t.metadata :=
    Credential.mem_decorate (List.mem_singleton_self _)
      (show "Authorization" ≠ Credential.quotaHeader by decide) hown
  have hsent : ("Authorization", "Bearer " ++ t.value) ∈
      Http.Headers.ofMetadata (m.copyCredential.decorate t.metadata) :=
    List.mem_map.mpr ⟨_, hdecorated, by simp⟩
  cases h with
  | minting | signing =>
    exact Http.Headers.mem_set_of_ne hsent (show "Authorization" ≠ Http.contentType by decide) _

/-- The service is called with documents, and no token is requested so. -/
theorem CallsService.not_requests {m : Impersonation} {metadata : Metadata} {r : Http.Request}
    (h : m.CallsService metadata r) : ¬ m.widened.Requests r := by
  rintro ⟨now, assertion, -, rfl⟩
  have hform : ∀ data url, m.widened.tokenRequest assertion ≠
      Http.postJson url data (Http.Headers.ofMetadata metadata) := by
    intro data url heq
    have hheaders := congrArg Http.Request.headers heq
    have hmem := Http.Headers.mem_set (Http.Headers.ofMetadata metadata) Http.contentType
      Http.jsonType
    rw [← Given.value.inj hheaders] at hmem
    exact absurd hmem (by decide)
  generalize hr : m.widened.tokenRequest assertion = r at h hform
  cases h with
  | minting => exact hform _ _ rfl
  | signing bytes => exact hform _ _ rfl

/-- The circumstances: nothing is sent before the copy is in place. -/
structure Arises (v : View) : Prop where
  table : v.table = m.unshared ∧ v.contacts = [] ∨ v.table = m.shared
  sends : ∀ r outcome earlier, (r, outcome) :: earlier <:+ v.contacts → m.Sends earlier r

def discipline : Discipline where
  good := m.Arises
  tables old new := old = new ∨ old = m.unshared ∧ new = m.shared
  tables_refl _ := .inl rfl
  tables_trans := by
    rintro a b c (rfl | ⟨rfl, rfl⟩) (rfl | ⟨hb, rfl⟩)
    · exact .inl rfl
    · exact .inr ⟨hb, rfl⟩
    · exact .inr ⟨rfl, rfl⟩
    · exact .inr ⟨rfl, rfl⟩
  takesPart c := c = wrapper ∨ c = copy
  fetched c := c = copy
  token contacts c t := c = copy → m.Obtained contacts t
  token_mono h ht hc := (ht hc).mono h
  sends v r next := v.table = m.shared ∧ m.Sends v.contacts r ∧
    (m.widened.Requests r → ∃ k, next = received k)
  good_met := by
    rintro v r next outcome ⟨-, hearlier⟩ ⟨htable, hr, -⟩
    refine ⟨.inr htable, fun r' outcome' earlier hsuffix => ?_⟩
    rcases List.suffix_cons_iff.mp hsuffix with heq | hsuffix
    · cases heq
      exact hr
    · exact hearlier r' outcome' earlier hsuffix
  sees _ _ := True
  sees_mono _ _ := trivial
  sees_logged _ _ := trivial
  sees_sent _ _ := trivial
  awaits c signal next := (c = copy → signal = none ∧ FailsWithCopy next) ∧
    (c = wrapper → Credential.Rejects wrapper next)

variable {m} {v v' : View}

theorem Arises.source (h : m.Arises v) : ∃ source, v.credential wrapper =
    m.wrapperCredential source ∧ (source = original ∧ v.table = m.unshared ∨
      source = copy ∧ v.table = m.shared) := by
  rcases h.table with ⟨htable, -⟩ | htable
  · exact ⟨original, by rw [View.credential, htable]; rfl, .inl ⟨rfl, htable⟩⟩
  · exact ⟨copy, by rw [View.credential, htable]; rfl, .inr ⟨rfl, htable⟩⟩

/-- The account itself stays as it was made. -/
theorem Arises.original (h : m.Arises v) :
    v.credential Impersonation.original = m.sourceCredential := by
  rcases h.table with ⟨htable, -⟩ | htable <;>
    · rw [View.credential, htable]
      rfl

theorem copy_of_shared (h : v.table = m.shared) : v.credential copy = m.copyCredential := by
  rw [View.credential, h]
  rfl

theorem shared_later (hlater : m.discipline.Later v v') (h : v.table = m.shared) :
    v'.table = m.shared := by
  rcases hlater.tables with heq | ⟨-, heq⟩
  · rw [← heq, h]
  · exact heq

/-- What comes of a request of the copy ends its refresh. -/
theorem keeps_received {r : Http.Request} {outcome : Result Http.Response}
    (hmem : (r, outcome) ∈ v.contacts) (hr : m.widened.Requests r) (hgood : m.Arises v)
    (k : Cache.RefreshId) : m.discipline.Keeps v v (received k outcome) := by
  have hfailed (e : Thrown) :
      m.discipline.Keeps v v (.done (.ok (.operation copy k (.error e)))) :=
    ⟨.refl hgood, .inr rfl, nofun⟩
  rw [received, Procedure.map_attempt]
  cases outcome with
  | error e => exact hfailed e
  | ok response =>
    show m.discipline.Keeps v v (Procedure.andThen _ (Procedure.bind
      (.done (response.expectObject _ _)) _))
    cases hdata : response.expectObject ServiceAccount.wording.refused
      ServiceAccount.wording.unreadable with
    | error e => exact hfailed e
    | ok data =>
      intro now
      show m.discipline.Keeps v v (.done (.ok (.operation copy k
        (Http.tokenOf data now ServiceAccount.wording.unreadable))))
      refine ⟨.refl hgood, .inr rfl, fun t ht _ => ?_⟩
      exact ⟨r, response, hmem, hr, ServiceAccount.granted_of_tokenOf hdata ht⟩

theorem keeps_copy (hgood : m.Arises v) (k : Cache.RefreshId) :
    m.discipline.Keeps v v
      (Ending.operation copy k <$> (Credential.requestToken copy).attempt) := by
  have hfailed (e : Thrown) :
      m.discipline.Keeps v v (.done (.ok (.operation copy k (.error e)))) :=
    ⟨.refl hgood, .inr rfl, nofun⟩
  obtain ⟨next, heq, -, -, haccount, hnone⟩ := Credential.requestToken_looks copy
  rw [Procedure.map_attempt, heq]
  show m.discipline.Keeps v v ((next (v.credential copy)).andThen _)
  rcases hgood.table with ⟨htable, -⟩ | htable
  · have hcredential : v.credential copy = default := by
      rw [View.credential, htable]
      rfl
    rw [hcredential, hnone]
    exact hfailed _
  · have hkind : (v.credential copy).kind = .serviceAccount m.widened := by
      rw [copy_of_shared htable]
      rfl
    rw [haccount _ _ hkind, ServiceAccount.requestToken_asserts (List.cons_ne_nil _ _)]
    intro now
    dsimp only
    cases hassertion : m.widened.assertionAt now with
    | error e => exact hfailed e
    | ok assertion =>
      refine ⟨.refl hgood, fun v' hlater => ?_⟩
      have hrequests : m.widened.Requests (m.widened.tokenRequest assertion) :=
        ⟨now, assertion, hassertion, rfl⟩
      refine ⟨.refl hlater.good, ⟨shared_later hlater htable, .token hrequests, fun _ => ⟨k, ?_⟩⟩,
        fun outcome v'' hlater' => ?_⟩
      · exact funext fun outcome => (Procedure.map_attempt _ _).symm
      · have hkeeps := keeps_received (hlater'.contacts.subset List.mem_cons_self) hrequests
          hlater'.good k
        rwa [received, Procedure.map_attempt] at hkeeps

/-- With the copy in place, its headers are all that is asked for. -/
theorem keeps_copyMetadata {start : View} (hlater : m.discipline.Later start v)
    (htable : v.table = m.shared) {uri : Given String} {next : Result Metadata → Procedure Ending}
    (hfails : FailsWithCopy fun r => next (m.copyCredential.headersOf (givenToken r)))
    (hnext : ∀ outcome v', m.discipline.Later v v' →
      (∀ metadata, outcome = .ok metadata → ∃ t, m.Obtained v'.contacts t ∧
        metadata = m.copyCredential.decorate t.metadata) →
      m.discipline.Keeps v' v' (next outcome)) :
    m.discipline.Keeps start v ((Credential.requestMetadata copy uri).andThen next) := by
  have hcredential : v.credential copy = m.copyCredential := copy_of_shared htable
  refine Credential.keeps_requestMetadata hlater ?_ (.inr rfl) ?_ ?_ fun r v' hlater' htoken => ?_
  · rw [hcredential]
    rintro a ⟨⟩
  · rw [htable]
    exact Nat.lt_succ_self 2
  · rw [hcredential]
    exact ⟨fun _ => ⟨rfl, hfails⟩, fun hc => absurd hc (by decide)⟩
  · rw [hcredential]
    rcases r with e | - | t
    · exact hnext _ v' hlater' fun _ hmetadata => by cases hmetadata
    · exact hnext _ v' hlater' fun _ hmetadata => by cases hmetadata
    · refine hnext _ v' hlater' ?_
      rintro metadata ⟨⟩
      exact ⟨t, htoken t rfl rfl, rfl⟩

/-- Whoever needs the source has the copy put in place, and goes on with its headers. -/
theorem keeps_sourceMetadata (hgood : m.Arises v) {source : CredentialId}
    (hsource : source = original ∧ v.table = m.unshared ∨ source = copy ∧ v.table = m.shared)
    {k : Result Metadata → Procedure Ending}
    (hfails : ∀ next, (∀ e, next (.error e) = k (.error (Fault.sourceNotRefreshed e).thrown)) →
      FailsWithCopy next)
    (hk : ∀ outcome v', m.discipline.Later v v' → v'.table = m.shared →
      (∀ metadata, outcome = .ok metadata → ∃ t, m.Obtained v'.contacts t ∧
        metadata = m.copyCredential.decorate t.metadata) →
      m.discipline.Keeps v' v' (k outcome)) :
    m.discipline.Keeps v v
      ((({ m.impersonated with source } : Impersonated).sourceMetadata wrapper).andThen k) := by
  rw [Impersonated.sourceMetadata_andThen]
  have hshared {u : View} (hlater : m.discipline.Later v u) (htable : u.table = m.shared)
      (next : Result Metadata → Procedure Ending)
      (hok : ∀ metadata, next (.ok metadata) = k (.ok metadata))
      (herror : ∀ cause, next (.error cause) = k (.error (Fault.sourceNotRefreshed cause).thrown)) :
      m.discipline.Keeps v u ((Credential.requestMetadata copy
        (.value m.impersonated.iamEndpoint)).andThen next) := by
    refine keeps_copyMetadata hlater htable (hfails _ fun e => herror e)
      fun outcome v' hlater' hobtained => ?_
    have htable' := shared_later hlater' htable
    cases outcome with
    | error cause =>
      rw [herror]
      exact hk _ v' (hlater.trans hlater') htable' fun _ hmetadata => by cases hmetadata
    | ok metadata =>
      rw [hok]
      exact hk _ v' (hlater.trans hlater') htable' hobtained
  obtain ⟨next, heq, hunscoped, hscoped, -⟩ :=
    ({ m.impersonated with source } : Impersonated).scopedSource_looks wrapper
  rw [heq]
  show m.discipline.Keeps v v ((next (v.credential source)).andThen _)
  rcases hsource with ⟨rfl, htable⟩ | ⟨rfl, htable⟩
  · have hempty : m.source.scopes.isEmpty = true := by
      rw [m.unscoped]
      rfl
    rw [hunscoped _ m.source (congrArg Credential.kind hgood.original) hempty, hgood.original]
    have htable' : ((v.created m.copyCredential).redirected wrapper copy).table = m.shared := by
      rw [View.redirected, View.created, htable]
      rfl
    have hlater : m.discipline.Later v ((v.created m.copyCredential).redirected wrapper copy) :=
      ⟨List.suffix_rfl, .inr ⟨htable, htable'⟩, .inr htable', hgood.sends⟩
    have hlength : v.table.length = copy := by
      rw [htable]
      rfl
    refine ⟨rfl, ?_⟩
    rw [hlength]
    exact hshared hlater htable' _ (fun _ => rfl) (fun _ => rfl)
  · rw [hscoped _ m.widened (congrArg Credential.kind (copy_of_shared htable)) rfl]
    exact hshared (.refl hgood) htable _ (fun _ => rfl) (fun _ => rfl)

/-- With the headers of the copy the service may be called. -/
theorem sends_service {metadata : Metadata} {r : Http.Request} {t : Token}
    {next : Result Http.Response → Procedure Ending} (htable : v.table = m.shared)
    (ht : m.Obtained v.contacts t) (hmetadata : metadata = m.copyCredential.decorate t.metadata)
    (hr : m.CallsService metadata r) : m.discipline.sends v r next :=
  ⟨htable, .service ht (hmetadata ▸ hr), fun hrequests => absurd hrequests hr.not_requests⟩

/-- The refresh of the wrapper keeps the discipline. -/
theorem keeps_minting (hgood : m.Arises v) (k : Cache.RefreshId) : m.discipline.Keeps v v
    (Ending.operation wrapper k <$> (Credential.requestToken wrapper).attempt) := by
  have hended {v' : View} (outcome : Result Token) (hgood' : m.Arises v') :
      m.discipline.Keeps v' v' (.done (.ok (.operation wrapper k outcome))) :=
    ⟨.refl hgood', .inl rfl, fun t _ => nofun⟩
  obtain ⟨source, hcredential, hsource⟩ := hgood.source
  obtain ⟨next, heq, -, himpersonated, -⟩ := Credential.requestToken_looks wrapper
  rw [Procedure.map_attempt, heq]
  show m.discipline.Keeps v v ((next (v.credential wrapper)).andThen _)
  rw [himpersonated _ { m.impersonated with source } (by rw [hcredential]; rfl),
    Impersonated.requestToken_andThen]
  refine keeps_sourceMetadata hgood hsource (fun next hnext => .refresh k hnext)
    fun outcome v' hlater htable hobtained => ?_
  cases outcome with
  | error e => exact hended _ hlater.good
  | ok metadata =>
    obtain ⟨t, ht, hmetadata⟩ := hobtained metadata rfl
    refine ⟨.refl hlater.good, sends_service htable ht hmetadata .minting,
      fun outcome v'' hlater' => ?_⟩
    cases outcome with
    | error e => exact hended _ hlater'.good
    | ok response => exact hended _ hlater'.good

theorem operates : m.discipline.Operates := by
  rintro v c k hgood (rfl | rfl)
  · exact keeps_minting hgood k
  · exact keeps_copy hgood k

/-- Signing keeps the discipline. -/
theorem keeps_sign (hgood : m.Arises v) (name : String) (bytes : List UInt8) :
    m.discipline.Keeps v v
      (Ending.call name <$> (Answer.bytes <$> Credential.sign wrapper bytes).attempt) := by
  have hended {v' : View} (outcome : Result (List UInt8)) (hgood' : m.Arises v') :
      m.discipline.Keeps v' v' (.done (.ok (.call name (outcome.map Answer.bytes)))) :=
    ⟨.refl hgood', trivial⟩
  obtain ⟨source, hcredential, hsource⟩ := hgood.source
  obtain ⟨next, heq, himpersonated⟩ := Credential.sign_looks wrapper bytes
  have hprogram : Ending.call name <$> (Answer.bytes <$> Credential.sign wrapper bytes).attempt =
      (Credential.sign wrapper bytes).andThen fun outcome =>
        .done (.ok (.call name (outcome.map Answer.bytes))) := by
    rw [Procedure.map_attempt]
    refine (Procedure.andThen_bind _ _ _).trans (congrArg (Procedure.andThen · _) ?_)
    funext outcome
    cases outcome <;> rfl
  rw [hprogram, heq]
  show m.discipline.Keeps v v ((next (v.credential wrapper)).andThen _)
  rw [himpersonated _ { m.impersonated with source } (by rw [hcredential]; rfl),
    Impersonated.sign_andThen]
  refine keeps_sourceMetadata hgood hsource (fun next hnext => .call name hnext)
    fun outcome v' hlater htable hobtained => ?_
  cases outcome with
  | error e => exact hended (.error e) hlater.good
  | ok metadata =>
    obtain ⟨t, ht, hmetadata⟩ := hobtained metadata rfl
    refine ⟨.refl hlater.good, sends_service htable ht hmetadata (.signing bytes),
      fun outcome v'' hlater' => ?_⟩
    cases outcome with
    | error e => exact hended (.error e) hlater'.good
    | ok response => exact hended _ hlater'.good

/-- All that an application has the credentials do keeps the discipline. -/
theorem keeps_calls {p : Procedure Ending} (hp : Calls p) (hgood : m.Arises v) :
    m.discipline.Keeps v v p := by
  cases hp with
  | sign name bytes => exact keeps_sign hgood name bytes
  | call hp =>
    obtain ⟨source, hcredential, hsource⟩ := hgood.source
    refine Discipline.keeps_call hp hgood ?_ (.inl rfl) ?_ nofun
      (fun _ _ hrejects => ⟨nofun, fun _ => hrejects⟩) (fun _ _ _ _ _ => trivial)
      (fun _ _ _ _ _ => trivial) (fun _ _ => trivial) (fun _ _ _ => ⟨trivial, trivial⟩)
    · rw [hcredential]
      nofun
    · rcases hsource with ⟨-, htable⟩ | ⟨-, htable⟩
      · rw [htable]
        exact Nat.lt_succ_self 1
      · rw [htable]
        exact Nat.succ_lt_succ (Nat.succ_pos 1)

theorem Calls.elsewhere {p : Procedure Ending} (hp : Calls p) (c : CredentialId)
    (k : Cache.RefreshId) : Elsewhere c k p := by
  cases hp with
  | call hp => exact hp.elsewhere c k
  | sign => exact elsewhere_attempt _ nofun

end Impersonation
end Bearer
