import Bearer.Proofs.Credential.Acceptance
import Bearer.Proofs.Credential.Minting
import Bearer.Proofs.Time.Text

namespace Bearer.Impersonated

open Procedure (receiving)

/-- An answer that grants a value until an instant, told as text, is made a token of both. -/
theorem tokenIn_of_expireTime {response : Http.Response} {body value text : String}
    {data : Json.Members} {t : Int} (hstatus : response.status = Http.statusOk)
    (hbody : response.body = .ok body) (hdata : Json.parse body = some (.object data))
    (hvalue : Json.Members.get? data "accessToken" = some (.string value))
    (htext : Json.Members.get? data "expireTime" = some (.string text))
    (hread : Time.read? text = some t) : tokenIn response = .ok ⟨value, .at t⟩ := by
  have hobject : response.object parseContext = .ok data := by
    rw [Http.Response.object, hbody]
    exact Http.parseObject_eq_ok.mpr hdata
  rw [tokenIn, if_neg (not_not_intro hstatus), hobject]
  show (Http.requireString data "accessToken" parseContext >>= _) = _
  rw [Http.requireString_eq_ok.mpr hvalue]
  show (Http.requireString data "expireTime" parseContext >>= _) = _
  rw [Http.requireString_eq_ok.mpr htext]
  simp only [bind, Except.bind, hread]
  rfl

/-- To refresh impersonated credentials takes a request to mint a token, and nothing is done with
its answer but to read the token in it. -/
theorem requestToken_eq (i : Impersonated) (self : CredentialId) :
    i.requestToken self = (do
      let metadata ← i.sourceMetadata self
      .ask (.send (Http.postJson i.iamEndpoint i.mintingData
        (Http.Headers.ofMetadata metadata))) (receiving (.ofResult ∘ tokenIn))) := by
  rfl

open Session in
/-- For every instant that can be told there is a text that any token ending then shows, that is
read as that instant, and that keeps it through an answer: whenever a refresh of impersonated
credentials sends its request and is answered with a success that tells this text as the time of
expiry, it makes a token that ends at the instant, and this token is the outcome of the call and of
the refresh that waited for it. -/
theorem expiration_survives_text {t : Int} (ht : Time.isValid t = true) :
    (Expiry.at t).toNumber? = some (.finite t) ∧
    ∃ text, (∀ value, (Token.mk value (.at t)).text =
        .ok ("AccessToken(expiration=" ++ text ++ ")")) ∧
      Time.read? text = some t ∧
      ∀ (i : Impersonated) (self : CredentialId),
        (∀ s : Session, (s.held? self).credential.kind = .impersonated i →
          s.Runs self (i.requestToken self)) ∧
        ∃ next : Result Http.Response → Procedure Token, i.requestToken self = (do
            let metadata ← i.sourceMetadata self
            .ask (.send (Http.postJson i.iamEndpoint i.mintingData
              (Http.Headers.ofMetadata metadata))) next) ∧
          ∀ headers body data value, Json.parse body = some (.object data) →
            Json.Members.get? data "accessToken" = some (.string value) →
            Json.Members.get? data "expireTime" = some (.string text) →
            next (.ok { status := 200, headers, body := .ok body }) =
              .done (.ok ⟨value, .at t⟩) ∧
            ∀ (s : Session) slot name c k,
              s.perform (.resume slot (calling name (Answer.token <$>
                  next (.ok { status := 200, headers, body := .ok body })))) =
                s.observe (.answered name (.ok (.token ⟨value, .at t⟩))) ∧
              s.perform (.resume slot (Ending.operation c k <$>
                  (next (.ok { status := 200, headers, body := .ok body })).attempt)) =
                s.stepCache c .direct (.settle k (.ok ⟨value, .at t⟩)) := by
  have hread := Time.read?_instantText ht
  refine ⟨congrArg some (Double.ofInt_eq (Time.natAbs_of_isValid ht)),
    Expiry.instantText t, fun value => rfl, hread, fun i self => ⟨fun s => runs_impersonated,
    _, requestToken_eq i self, fun headers body data value hdata hvalue htext => ?_⟩⟩
  have hanswer : receiving (.ofResult ∘ tokenIn)
      (.ok { status := 200, headers, body := .ok body }) = .done (.ok ⟨value, .at t⟩) :=
    congrArg Procedure.done (tokenIn_of_expireTime rfl rfl hdata hvalue htext hread)
  refine ⟨hanswer, fun s slot name c k => ?_⟩
  rw [hanswer]
  exact ⟨rfl, rfl⟩

/-- The last millisecond of a leap day before the first year. -/
def ancientLeapDay : Int := -62288265600001

/-- A token minted until then ends then. -/
theorem expiration_survives_text_ancient :
    Time.isValid ancientLeapDay = true ∧
    Expiry.instantText ancientLeapDay = "-000004-02-29T23:59:59.999Z" ∧
    ∃ text, (∀ value, (Token.mk value (.at ancientLeapDay)).text =
        .ok ("AccessToken(expiration=" ++ text ++ ")")) ∧
      ∀ (i : Impersonated) (self : CredentialId),
        ∃ next : Result Http.Response → Procedure Token, i.requestToken self = (do
            let metadata ← i.sourceMetadata self
            .ask (.send (Http.postJson i.iamEndpoint i.mintingData
              (Http.Headers.ofMetadata metadata))) next) ∧
          next (.ok
              { status := 200, headers := []
                body := .ok (Json.object
                  [("accessToken", .string "minted"), ("expireTime", .string text)]).render }) =
            .done (.ok ⟨"minted", .at ancientLeapDay⟩) := by
  have hvalid : Time.isValid ancientLeapDay = true := by decide
  obtain ⟨-, text, hshown, -, hminted⟩ := expiration_survives_text hvalid
  refine ⟨hvalid, by decide +kernel, text, hshown, fun i self => ?_⟩
  obtain ⟨-, next, hsends, hanswered⟩ := hminted i self
  have hnames : ∀ m ∈ [("accessToken", Json.string "minted"), ("expireTime", .string text)],
      Json.index? m.1 = none := by
    have hvalue : Json.index? "accessToken" = none := by decide
    have htime : Json.index? "expireTime" = none := by decide
    simp [hvalue, htime]
  have htidy : (Json.object
      [("accessToken", .string "minted"), ("expireTime", .string text)]).Tidy :=
    ⟨by simp, hnames, trivial, trivial, trivial⟩
  exact ⟨next, hsends, (hanswered [] _ _ "minted" (Json.parse_render htidy) rfl rfl).1⟩

end Bearer.Impersonated
