import Bearer.Proofs.Authorizer.Redemption
import Bearer.Proofs.Cache.Delivery
import Bearer.Proofs.Cache.Failures
import Bearer.Proofs.Http.Answers
import Bearer.Proofs.Json.RoundTrip
import Bearer.Proofs.Number.Instants

namespace Bearer

/-- Whatever it is told, the procedure sends a request before it ends, and the way it goes on
with the answer is such. -/
def Procedure.Sends {α : Type} (after : (Result Http.Response → Procedure α) → Prop) :
    Procedure α → Prop
  | .ask (.send _) next => after next
  | .ask .now next => ∀ r, (next r).Sends after
  | .ask .rest next => ∀ r, (next r).Sends after
  | .ask (.credential _) next => ∀ r, (next r).Sends after
  | _ => False

namespace Http

/-- What an answer to a request for a token comes to. It is accepted if its status is that of
a success and its body an object that grants the value; an answer with that status whose body
does not is malformed, and one with another status leads to an error that tells the status and
the body as it is. Where errors have a form of their own, that form is recognized. -/
structure Judged {α : Type} (status : Nat) (body : String) (formed : Bool)
    (grants : Json.Members → α → Prop) (outcome : Result α) : Prop where
  accepted : ∀ a, outcome = .ok a ↔
    status = statusOk ∧ ∃ data, Json.parse body = some (.object data) ∧ grants data a
  malformed : status = statusOk → ∀ e, outcome = .error e → Malformed e
  refused : status ≠ statusOk → ∃ e, outcome = .error e ∧ Reports e status body ∧
    (IsRejection e ↔ formed = true ∧ NamesError body)

/-- The object grants this token at a reading of the clock: the access token is a text, and its
life is a whole number of seconds, counted from the reading. -/
def Grants (now : Double) (data : Json.Members) (t : Token) : Prop :=
  ∃ value j n, Json.Members.get? data "access_token" = some (.string value) ∧
    Json.Members.get? data "expires_in" = some j ∧ Whole j n ∧
    t = Token.lasting value now (.finite n)

theorem judged_object {α : Type} {r : Response} {body context : String} (hbody : r.body = .ok body)
    (hstatus : r.status = statusOk) (formed : Bool) {grants : Json.Members → α → Prop}
    {f : Json.Members → Result α} (hok : ∀ data a, f data = .ok a ↔ grants data a)
    (herror : ∀ data e, f data = .error e → Malformed e) :
    Judged r.status body formed grants (r.object context >>= f) := by
  have hobject : r.object context = parseObject body context := by
    rw [Response.object, hbody]
    rfl
  rw [hobject]
  refine ⟨fun a => ?_, fun _ e he => ?_, fun hne => absurd hstatus hne⟩
  · constructor
    · intro h
      cases hdata : parseObject body context with
      | error e =>
        rw [hdata] at h
        cases h
      | ok data =>
        rw [hdata] at h
        exact ⟨hstatus, data, parseObject_eq_ok.mp hdata, (hok data a).mp h⟩
    · rintro ⟨-, data, hparse, hgrants⟩
      rw [parseObject_eq_ok.mpr hparse]
      exact (hok data a).mpr hgrants
  · cases hdata : parseObject body context with
    | error e' =>
      rw [hdata] at he
      cases he
      exact parseObject_error hdata
    | ok data =>
      rw [hdata] at he
      exact herror data e he

theorem judged_refused {α : Type} {status : Nat} {body : String} {formed : Bool}
    (grants : Json.Members → α → Prop) {e : Thrown} (hstatus : status ≠ statusOk)
    (hreports : Reports e status body)
    (hform : IsRejection e ↔ formed = true ∧ NamesError body) :
    Judged status body formed grants (.error e) :=
  ⟨fun _ => iff_of_false nofun fun h => hstatus h.1, fun h => absurd h hstatus,
    fun _ => ⟨e, rfl, hreports, hform⟩⟩

theorem judged_expectObject {α : Type} {r : Response} {body : String} (hbody : r.body = .ok body)
    (context parseContext : String) {grants : Json.Members → α → Prop}
    {f : Json.Members → Result α} (hok : ∀ data a, f data = .ok a ↔ grants data a)
    (herror : ∀ data e, f data = .error e → Malformed e) :
    Judged r.status body true grants (r.expectObject context parseContext >>= f) := by
  by_cases hstatus : r.status = statusOk
  · rw [Response.expectObject, if_pos hstatus]
    exact judged_object hbody hstatus true hok herror
  · have hfail : r.expectObject context parseContext =
        .error (failureOf r.status body context).thrown := by
      rw [Response.expectObject, if_neg hstatus, Response.fail, hbody]
      rfl
    obtain ⟨hreports, hform⟩ := failureOf_reports r.status body context
    rw [hfail]
    exact judged_refused grants hstatus hreports (by simpa using hform)

end Http

namespace Crypto.PrivateKey

/-- Tokens can be signed with the key: it is for signing by powers, and not too short. -/
def SignsTokens (key : PrivateKey) : Prop :=
  ∃ modulus exponent, key = .rsa modulus exponent ∧ leastTokenBits ≤ bitLength modulus

theorem SignsTokens.signedToken {key : PrivateKey} (h : key.SignsTokens) (keyId : Option String)
    (claims : Json.Members) : ∃ token, Crypto.signedToken key keyId claims = .ok token := by
  obtain ⟨modulus, exponent, rfl, hbits⟩ := h
  exact ⟨_, if_neg (Nat.not_lt.mpr hbits)⟩

end Crypto.PrivateKey

open Procedure

/-- How a procedure goes on that has sent a request. -/
def Procedure.receiving {α : Type} (f : Http.Response → Procedure α)
    (answer : Result Http.Response) : Procedure α :=
  Procedure.bind (.done answer) f

theorem ServiceAccount.requestToken_eq {a : ServiceAccount} (hscopes : a.scopes ≠ [])
    (hkey : a.key.SignsTokens) : ∃ request : Double → Http.Request,
      a.requestToken = .ask .now fun now => .ask .rest fun _ =>
        .ask (.send (request now)) (receiving (tokenIn · wording)) := by
  choose token htoken using hkey.signedToken
  have hempty : a.scopes.isEmpty = false := by simpa using hscopes
  refine ⟨fun now => Http.postForm a.tokenServerUrl (.ofStrings
    [("grant_type", some grantType), ("assertion", some (token a.keyId.filled?
      (a.claims (now / Double.ofNat 1000).floor)))]), ?_⟩
  unfold requestToken assertion
  rw [hempty]
  refine congrArg (Procedure.ask .now) (funext fun now => ?_)
  show Procedure.bind (Procedure.bind (ofResult (Crypto.signedToken a.key a.keyId.filled?
    (a.claims (now / Double.ofNat 1000).floor))) _) _ = _
  rw [htoken]
  rfl

theorem User.requestToken_eq {u : User} {refreshToken : String}
    (h : u.refreshToken.filled? = some refreshToken) : ∃ request,
      u.requestToken = .ask (.send request) (receiving (tokenIn · wording)) := by
  unfold requestToken
  rw [h]
  exact ⟨_, rfl⟩

namespace ComputeEngine

/-- What the account of a machine makes of the answer of its metadata server. -/
def received (response : Http.Response) : Procedure Token := do
  if response.status = Http.statusOk then
    Http.tokenOf (← response.object parseContext) (← now) parseContext
  else
    let body ← response.body
    if response.status = Http.statusNotFound then
      .raise (.metadataNotFound response.status body)
    else .raise (.metadataStatus response.status body)

def receiving : Result Http.Response → Procedure Token
  | .error thrown => .fail (failure thrown)
  | .ok response => received response

theorem requestToken_eq (e : ComputeEngine) :
    e.requestToken = .ask (.send (request e.tokenUrl)) receiving := by
  refine congrArg (Procedure.ask (.send (request e.tokenUrl))) (funext fun answer => ?_)
  cases answer with
  | error thrown => rfl
  | ok response => rfl

end ComputeEngine

/-- The kinds of credentials that refresh at an endpoint of their own, and whether the errors
of that endpoint have a form of their own. -/
inductive Credential.Kind.Refreshes : Credential.Kind → Bool → Prop
  | serviceAccount {a : ServiceAccount} (hscopes : a.scopes ≠ []) (hkey : a.key.SignsTokens) :
      Refreshes (.serviceAccount a) true
  | user {u : User} {refreshToken : String} (h : u.refreshToken.filled? = some refreshToken) :
      Refreshes (.user u) true
  | computeEngine (e : ComputeEngine) : Refreshes (.computeEngine e) false

def Credential.Kind.request : Credential.Kind → Procedure Token
  | .serviceAccount a => a.requestToken
  | .user u => u.requestToken
  | .computeEngine e => e.requestToken
  | _ => .raise .refreshNotSupported

namespace Session

variable {s : Session} {i : Cache.CallerId}

theorem advance_tokenOf (object : Result Json.Members) (context : String)
    (end_ : Result Token → Ending) :
    ∃ t, (t = s ∨ t = s.read.2) ∧
      advance i (end_ <$> (do
        Http.tokenOf (← object) (← Bearer.now) context : Procedure Token).attempt) s =
        t.finish (end_ (object >>= fun data => Http.tokenOf data s.read.1 context)) := by
  cases object with
  | error e => exact ⟨s, .inl rfl, rfl⟩
  | ok data => exact ⟨s.read.2, .inr rfl, rfl⟩

/-- The thread that goes on with an answer ends in one go, and settles a refresh with what the
answer is judged to be at this moment. -/
def SettlesWith (c : CredentialId) (k : Cache.RefreshId) (formed : Bool)
    (next : Result Http.Response → Procedure Ending) : Prop :=
  ∀ (s : Session) (i : Cache.CallerId) (response : Http.Response) (body : String),
    response.body = .ok body →
    ∃ outcome t, Http.Judged response.status body formed (Http.Grants s.read.1) outcome ∧
      (t = s ∨ t = s.read.2) ∧
      s.perform (.resume i (next (.ok response))) = t.stepCache c .direct (.settle k outcome)

theorem settlesWith_tokenIn (c : CredentialId) (k : Cache.RefreshId) (w : Grant.Wording) :
    SettlesWith c k true fun answer =>
      (Ending.operation c k) <$> (receiving (tokenIn · w) answer).attempt := by
  intro s i response body hbody
  obtain ⟨t, ht, hadvance⟩ := advance_tokenOf (s := s) (i := i)
    (response.expectObject w.refused w.unreadable) w.unreadable (Ending.operation c k)
  refine ⟨_, t, ?_, ht, hadvance⟩
  exact Http.judged_expectObject hbody _ _ (fun _ _ => Http.tokenOf_eq_ok)
    fun data e => Http.tokenOf_error

theorem settlesWith_received (c : CredentialId) (k : Cache.RefreshId) :
    SettlesWith c k false fun answer =>
      (Ending.operation c k) <$> (ComputeEngine.receiving answer).attempt := by
  intro s i response body hbody
  by_cases hstatus : response.status = Http.statusOk
  · have hprogram : ComputeEngine.receiving (.ok response) = (do
        Http.tokenOf (← response.object ComputeEngine.parseContext) (← Bearer.now)
          ComputeEngine.parseContext) := if_pos hstatus
    obtain ⟨t, ht, hadvance⟩ := advance_tokenOf (s := s) (i := i)
      (response.object ComputeEngine.parseContext) ComputeEngine.parseContext
      (Ending.operation c k)
    refine ⟨response.object ComputeEngine.parseContext >>= fun data =>
      Http.tokenOf data s.read.1 ComputeEngine.parseContext, t, ?_, ht, ?_⟩
    · exact Http.judged_object hbody hstatus false (fun _ _ => Http.tokenOf_eq_ok)
        fun data e => Http.tokenOf_error
    · show advance i (Ending.operation c k <$>
        (ComputeEngine.receiving (.ok response)).attempt) s = _
      rw [hprogram]
      exact hadvance
  · obtain ⟨fault, hfault, hkind⟩ : ∃ fault : Fault,
        ComputeEngine.receiving (.ok response) = .raise fault ∧
          fault.kind = Fault.statusKind response.status body := by
      show ∃ fault, (if response.status = Http.statusOk then _ else _) = _ ∧ _
      rw [if_neg hstatus, hbody]
      by_cases hmissing : response.status = Http.statusNotFound
      · exact ⟨_, if_pos hmissing, rfl⟩
      · exact ⟨_, if_neg hmissing, rfl⟩
    refine ⟨.error fault.thrown, s, ?_, .inl rfl, ?_⟩
    · refine Http.judged_refused _ hstatus (.inl (congrArg some hkind)) (iff_of_false ?_ nofun)
      rintro ⟨status, text, code, description, uri, h⟩
      have hoauth : fault.kind = .oauth status text code description uri := Option.some.inj h
      rw [hkind] at hoauth
      cases hoauth
    · show advance i (Ending.operation c k <$>
        (ComputeEngine.receiving (.ok response)).attempt) s = _
      rw [hfault]
      rfl

theorem runOperation_eq {kind : Credential.Kind} {formed : Bool} (h : kind.Refreshes formed)
    {c : CredentialId} (hs : (s.held? c).credential.kind = kind) (k : Cache.RefreshId) :
    s.runOperation c k = s.spawn ((Ending.operation c k) <$> kind.request.attempt) := by
  refine (spawn_lookAt s c _ (Ending.operation c k)).trans ?_
  rw [hs]
  cases h <;> rfl

/-- A refresh of such a credential sends a request, and is settled with what becomes of its
answer. -/
theorem request_settlesWith {kind : Credential.Kind} {formed : Bool} (h : kind.Refreshes formed)
    (c : CredentialId) (k : Cache.RefreshId) :
    ((Ending.operation c k) <$> kind.request.attempt).Sends (SettlesWith c k formed) := by
  cases h with
  | serviceAccount hscopes hkey =>
    obtain ⟨request, hrequest⟩ := ServiceAccount.requestToken_eq hscopes hkey
    rw [Credential.Kind.request, hrequest]
    exact fun now _ => settlesWith_tokenIn c k ServiceAccount.wording
  | user hrefresh =>
    obtain ⟨request, hrequest⟩ := User.requestToken_eq hrefresh
    rw [Credential.Kind.request, hrequest]
    exact settlesWith_tokenIn c k User.wording
  | computeEngine e =>
    rw [Credential.Kind.request, ComputeEngine.requestToken_eq]
    exact settlesWith_received c k

/-- The object grants tokens for a user: a token, and a refresh token if there is one. -/
def GrantsUser (now : Double) (data : Json.Members) (tokens : Authorizer.Stored) : Prop :=
  (∃ t, tokens.token = some t ∧ Http.Grants now data t) ∧
    Http.Optional data "refresh_token" tokens.refreshToken

def tokensOf (data : Json.Members) (now : Double) : Result Authorizer.Stored := do
  let token ← Http.tokenOf data now Authorizer.parseContext
  let refreshToken ← Http.optionalString data "refresh_token" Authorizer.parseContext
  return { token := some token, refreshToken }

theorem tokensIn_eq (response : Http.Response) (now : Double) :
    Authorizer.tokensIn response now =
      response.expectObject "error redeeming authorization code" Authorizer.parseContext >>=
        fun data => tokensOf data now := rfl

theorem tokensOf_eq_ok {data : Json.Members} {now : Double} {tokens : Authorizer.Stored} :
    tokensOf data now = .ok tokens ↔ GrantsUser now data tokens := by
  constructor
  · intro h
    obtain ⟨token, htoken, h⟩ := Result.bind_eq_ok h
    obtain ⟨refreshToken, hrefresh, h⟩ := Result.bind_eq_ok h
    cases h
    exact ⟨⟨token, rfl, Http.tokenOf_eq_ok.mp htoken⟩,
      (Http.optionalString_eq_ok (by decide)).mp hrefresh⟩
  · rintro ⟨⟨token, htoken, hgrants⟩, hoptional⟩
    obtain ⟨token?, refreshToken⟩ := tokens
    obtain rfl : token? = some token := htoken
    rw [tokensOf, Http.tokenOf_eq_ok.mpr hgrants,
      (Http.optionalString_eq_ok (by decide)).mpr hoptional]
    rfl

theorem tokensOf_error {data : Json.Members} {now : Double} {e : Thrown}
    (h : tokensOf data now = .error e) : Http.Malformed e := by
  unfold tokensOf at h
  cases htoken : Http.tokenOf data now Authorizer.parseContext with
  | error e' =>
    rw [htoken] at h
    cases h
    exact Http.tokenOf_error htoken
  | ok t =>
    cases hrefresh : Http.optionalString data "refresh_token" Authorizer.parseContext with
    | error e' =>
      rw [htoken, hrefresh] at h
      cases h
      exact Http.optionalString_error hrefresh
    | ok refreshToken =>
      rw [htoken, hrefresh] at h
      cases h

theorem judged_tokensIn {response : Http.Response} {body : String}
    (hbody : response.body = .ok body) (now : Double) :
    Http.Judged response.status body true (GrantsUser now) (Authorizer.tokensIn response now) := by
  rw [tokensIn_eq]
  exact Http.judged_expectObject hbody _ _ (fun _ _ => tokensOf_eq_ok) fun _ _ => tokensOf_error

/-- The thread that goes on with an answer ends in one go: the call brings a credential that is
made of the tokens in the answer, or fails as the answer is judged. -/
def BringsWith (name : String) (next : Result Http.Response → Procedure Ending) : Prop :=
  ∀ (s : Session) (i : Cache.CallerId) (response : Http.Response) (body : String),
    response.body = .ok body →
    ∃ outcome, Http.Judged response.status body true (GrantsUser s.read.1) outcome ∧
      (∀ e, outcome = .error e → s.perform (.resume i (next (.ok response))) =
        s.read.2.observe (.answered name (.error e))) ∧
      ∀ tokens, outcome = .ok tokens → ∃ credential : Credential,
        credential.token = tokens.token ∧
        (∃ u, credential.kind = .user u ∧ u.refreshToken.toOption = tokens.refreshToken) ∧
        s.perform (.resume i (next (.ok response))) = (s.read.2.make credential).observe
          (.answered name (.ok (Answer.made s.read.2.held.length)))

open Authorizer in
theorem redeem_bringsWith {a : Authorizer} {base : Given String} {callback : String}
    (hcallback : a.callback base = .ok callback) (code : Given String) (name : String) :
    (calling name (Answer.made <$> a.redeem code base)).Sends (BringsWith name) := by
  have hprogram : a.redeem code base = .ask (.send (a.redemption code callback))
      (receiving fun response => do a.createCredential (← tokensIn response (← Bearer.now))) := by
    unfold redeem
    rw [hcallback]
    rfl
  rw [hprogram]
  intro s i response body hbody
  have hread : s.perform (.resume i (calling name (Answer.made <$>
      (do a.createCredential (← tokensIn response (← Bearer.now)) : Procedure CredentialId)))) =
      advance i (calling name (Answer.made <$> Procedure.bind
        (ofResult (tokensIn response s.read.1)) a.createCredential)) s.read.2 := rfl
  have hjudged := judged_tokensIn hbody s.read.1
  refine ⟨_, hjudged, fun e he => ?_, fun tokens htokens => ?_⟩
  · rw [he] at hread
    exact hread
  · obtain ⟨-, data, -, ⟨t, ht, -⟩, -⟩ := (hjudged.accepted tokens).mp htokens
    have hcases := a.credentialOf_cases tokens
    rw [if_neg (by simp [ht])] at hcases
    obtain ⟨credential, hcredential, htoken, huser⟩ := hcases
    refine ⟨credential, htoken, huser, ?_⟩
    have hcreate : a.createCredential tokens = ofResult (.ok credential) >>= create := by
      rw [← hcredential]
      rfl
    rw [htokens] at hread
    refine hread.trans ?_
    show advance i (calling name (Answer.made <$> a.createCredential tokens)) s.read.2 = _
    rw [hcreate]
    rfl

end Session

namespace Cache.State

variable {set : Settings} {token : Option Token} {es : List Event} {k : RefreshId} {e : Thrown}

theorem answer_of_failed (h : (initial token).Brought set es k (.error e)) {n : Nat} {f : Event}
    {c : CallerId} (hf : es[n]? = some f) (hc : f.caller? = some c)
    (hidle : ((initial token).moment set es n).waits c = false)
    (hwaits : c ∈ ((initial token).moment set es (n + 1)).waitersOf k)
    (hother : ∀ g ∈ es.drop (n + 1), g.party? ≠ some c) :
    let answers := answersTo c (((initial token).moment set es n).effects set (es.drop n))
    (answers = [] ∧ ((initial token).after set es).stage? k = some (.settled (.error e))) ∨
      answers = [.error e] := by
  intro answers
  have hfailed : ((initial token).after set es).HasFailed k e := by
    obtain ⟨m, -, -, -, hsince⟩ := failed_since h
    have hlast := hsince (es.length + m + 1) (by omega)
    rwa [moment, List.take_of_length_le (by omega)] at hlast
  rcases since_call set hf hc hidle hwaits hother with
    ⟨hnone, honce⟩ | ⟨outcome, hone, hfinished, -⟩
  · rcases hfailed with hsettled | hfinished
    · exact .inl ⟨hnone, hsettled⟩
    · exact absurd hfinished (honce.not_finished (finishedAlone_after set token es) _)
  · rcases hfailed with hsettled | hfinished'
    · rw [hsettled] at hfinished
      cases hfinished
    · obtain rfl : outcome = .error e := by simpa using hfinished.symm.trans hfinished'
      exact .inr hone

end Cache.State

open Session Cache.State in
/-- Whether an answer of a token endpoint is accepted. A refresh of a service account with scopes
and a key that signs, of a user with a refresh token or of the account of a machine sends a
request, and whatever answer comes whose body can be read, it is settled with what that answer is
judged to be; the redemption of a code likewise brings a credential made of the tokens in the
answer, or fails. A life in whole seconds is added exactly to a reading of the clock in whole
milliseconds, and ends at no instant that can be told if it leads beyond the calendar. A refresh
that is settled with a failure never changes the cached token, and the call of whoever waits for
it without giving up ends with that very failure. -/
theorem token_answers_judged :
    (∀ kind formed, Credential.Kind.Refreshes kind formed → ∀ c k,
      ((Ending.operation c k) <$> kind.request.attempt).Sends (SettlesWith c k formed) ∧
      ∀ s : Session, (s.held? c).credential.kind = kind →
        s.runOperation c k = s.spawn ((Ending.operation c k) <$> kind.request.attempt)) ∧
    (∀ (a : Authorizer) (base : Given String) callback, a.callback base = .ok callback →
      ∀ (code : Given String) (name : String),
        (calling name (Answer.made <$> a.redeem code base)).Sends (BringsWith name)) ∧
    (∀ (value : String) (t n : Int), Time.isValid t = true →
      Token.lasting value (Double.ofInt t) (.finite n) =
        ⟨value, if Time.isValid (t + 1000 * n) then .at (t + 1000 * n) else .invalid⟩) ∧
    ∀ (set : Cache.Settings) (token : Option Token) (es : List Cache.Event) (k : Cache.RefreshId)
      (e : Thrown), (initial token).Brought set es k (.error e) →
      (∀ n, ((initial token).moment set es (n + 1)).token =
          ((initial token).moment set es n).token ∨
        ∃ j t, j ≠ k ∧ (initial token).Processed set es n j (.ok t)) ∧
      ∀ n f c, es[n]? = some f → f.caller? = some c →
        ((initial token).moment set es n).waits c = false →
        c ∈ ((initial token).moment set es (n + 1)).waitersOf k →
        (∀ g ∈ es.drop (n + 1), g.party? ≠ some c) →
        let answers := Cache.answersTo c
          (((initial token).moment set es n).effects set (es.drop n))
        ((answers = [] ∧ ((initial token).after set es).stage? k = some (.settled (.error e))) ∨
          answers = [.error e]) ∧
        ∀ owner : Credential, (∀ a, owner.kind ≠ .jwtAccess a) → ∀ self uri signal,
          (Credential.requestMetadata self uri signal).served owner (.error e) =
            .done (.error e) := by
  refine ⟨?_, ?_, ?_, ?_⟩
  · intro kind formed hkind c k
    exact ⟨request_settlesWith hkind c k, fun s hs => runOperation_eq hkind hs k⟩
  · intro a base callback hcallback code name
    exact redeem_bringsWith hcallback code name
  · intro value t n ht
    exact congrArg (Token.mk value) (Expiry.ofNumber_lasting ht n)
  · intro set token es k e hfailed
    refine ⟨token_of_failed hfailed, fun n f c hf hc hidle hwaits hother => ⟨?_, ?_⟩⟩
    · exact answer_of_failed hfailed hf hc hidle hwaits hother
    · intro owner howner self uri signal
      exact Credential.requestMetadata_served owner howner self uri signal (.error e)

def granting : Json.Members :=
  [("access_token", .string "at"), ("expires_in", .number (.finite (60 : Int)))]

theorem parse_granting : Json.parse (Json.object granting).render = some (.object granting) := by
  have hnames : ["access_token", "expires_in"].Nodup := by decide
  have hindex : ∀ name ∈ ["access_token", "expires_in"], Json.index? name = none := by decide
  have htidy : (Json.object granting).Tidy :=
    ⟨hnames, fun m hm => hindex m.1 (List.mem_map_of_mem hm), trivial,
      ⟨60, by decide, (Double.ofInt_eq (by decide)).symm⟩, trivial⟩
  rw [Json.parse_render htidy]
  rfl

open Session Cache.State Authorizer in
/-- A person's refresh gets the token that is granted for a minute; a code is redeemed where the
application is called back; and a caller who waits for a refresh that fails is told so. -/
theorem token_answers_judged_user :
    (∃ t : Session, ({ now := Double.ofInt 0 } : Session).perform (.resume 0
        (Ending.operation 1 2 <$> (receiving (tokenIn · User.wording)
          (.ok { status := 200, body := .ok (Json.object granting).render })).attempt)) =
      t.stepCache 1 .direct (.settle 2 (.ok ⟨"at", .at 60000⟩))) ∧
    (keeper.callback (.value "https://app.example") = .ok "https://app.example/oauth2callback" ∧
      (calling "redeem" (Answer.made <$> keeper.redeem (.value "code")
        (.value "https://app.example"))).Sends (BringsWith "redeem")) ∧
    Cache.answersTo 10 ((initial none).effects {} Cache.failing) =
      [.error (.plain .plain "offline")] := by
  obtain ⟨hrefresh, hredeem, hlife, hwaiting⟩ := token_answers_judged
  refine ⟨?_, ?_, ?_⟩
  · have hkind : Credential.Kind.Refreshes
        (.user { clientId := "app", refreshToken := .value "rt" }) true := .user rfl
    obtain ⟨hsends, -⟩ := hrefresh _ _ hkind 1 2
    obtain ⟨outcome, t, hjudged, -, hperform⟩ :=
      hsends { now := Double.ofInt 0 } 0
        { status := 200, body := .ok (Json.object granting).render } _ rfl
    refine ⟨t, hperform.trans ?_⟩
    have hgrants : Http.Grants (Double.ofInt 0) granting ⟨"at", .at 60000⟩ :=
      ⟨"at", _, 60, rfl, rfl, .number 60, (hlife "at" 0 60 (by decide)).symm⟩
    rw [(hjudged.accepted _).mpr ⟨rfl, granting, parse_granting, hgrants⟩]
  · have hcallback : keeper.callback (.value "https://app.example") =
        .ok "https://app.example/oauth2callback" := by rfl
    exact ⟨hcallback, hredeem keeper _ _ hcallback (.value "code") "redeem"⟩
  · obtain ⟨-, hanswered⟩ := hwaiting {} none Cache.failing 0 (.plain .plain "offline")
      ⟨2, _, rfl, .inl ⟨rfl, rfl⟩⟩
    obtain ⟨hanswer, -⟩ := hanswered 1 (.refresh 10 none) 10 rfl rfl rfl (by decide)
      (by simp [Cache.failing, Cache.Event.party?, Cache.Event.caller?])
    rcases hanswer with ⟨-, hsettled⟩ | hanswer
    · cases hsettled
    · exact hanswer

end Bearer
