import Bearer.Credential.Request
import Bearer.CredentialFile.Shape

namespace Bearer.CredentialFile

def serviceAccountType : String := "service_account"

def userType : String := "authorized_user"

def externalAccountType : String := "external_account"

def typeShape (type : String) : Shape := .text 0 [type] false

def serviceAccountShape : Shape :=
  .object
    [("type", typeShape serviceAccountType), ("client_id", .optional),
     ("client_email", .filled), ("private_key", .filled), ("private_key_id", .filled),
     ("project_id", .optional), ("quota_project_id", .optional), ("token_uri", .optional)]
    ["type", "client_email", "private_key", "private_key_id"] none false

def userShape : Shape :=
  .object
    [("type", typeShape userType), ("client_id", .filled), ("client_secret", .filled),
     ("refresh_token", .filled), ("quota_project_id", .optional)]
    ["type", "client_id", "client_secret", "refresh_token"] none false

def formatShape : Shape :=
  .object
    [("type", .text 0 ["text", "json"] false), ("subject_token_field_name", .text 1 [] true)]
    ["type"] none true

def sourceShape : Shape :=
  .object
    [("file", .text 1 [] true), ("url", .text 1 [] true),
     ("headers", .object [] [] (some .plain) true), ("environment_id", .optional),
     ("format", formatShape)]
    [] none false

def externalAccountShape : Shape :=
  .object
    [("type", typeShape externalAccountType), ("audience", .filled),
     ("subject_token_type", .filled), ("token_url", .filled),
     ("credential_source", sourceShape), ("token_info_url", .optional),
     ("service_account_impersonation_url", .optional), ("client_id", .optional),
     ("client_secret", .optional), ("quota_project_id", .optional)]
    ["type", "audience", "subject_token_type", "token_url", "credential_source"] none false

def check (shape : Shape) (kind : String) (j : Json) : Result Json.Members :=
  match shape.departure? [] j with
  | some d => (Fault.notInGrammar kind d.text).raise
  | none => .ok (j.members?.getD [])

def serviceAccount (keys : Crypto.KeyReader) (j : Json) (setup : Credential.Setup) :
    Result Credential := do
  let ms ← check serviceAccountShape "service account" j
  let account : ServiceAccount :=
    { clientId := ms.text "client_id"
      clientEmail := ms.textD "client_email"
      key := ← Crypto.PrivateKey.ofSetting keys (ms.text "private_key")
      keyId := ms.text "private_key_id"
      project := ms.text "project_id"
      tokenServer := ms.text "token_uri" }
  return { setup with kind := .serviceAccount account, quotaProject := ms.text "quota_project_id" }

def jwtAccess (keys : Crypto.KeyReader) (j : Json) (audience : Given String)
    (setup : Credential.Setup) : Result Credential := do
  let ms ← check serviceAccountShape "service account" j
  let access : JwtAccess :=
    { clientId := ms.text "client_id"
      clientEmail := ms.textD "client_email"
      key := ← Crypto.PrivateKey.ofSetting keys (ms.text "private_key")
      keyId := ms.text "private_key_id"
      defaultAudience := audience }
  return { setup with kind := .jwtAccess access }

def user (j : Json) (setup : Credential.Setup) : Result Credential := do
  let ms ← check userShape "authorized user" j
  let user : User :=
    { clientId := ms.textD "client_id"
      clientSecret := ms.text "client_secret"
      refreshToken := ms.text "refresh_token" }
  user.credential { setup with quotaProject := ms.text "quota_project_id" }

def headers? (j : Json) : Option Http.Headers := j.members?.map Json.Members.pairs

def sourceSection (j : Json) : SubjectToken.Section :=
  let ms := j.members?.getD []
  let format := (Json.Members.get? ms "format").bind Json.members?
  let type := format.bind (fun f => (f.text "type").toOption)
  { file := ms.text "file"
    url := ms.text "url"
    headers := ms.setting "headers" headers?
    environmentId := ms.text "environment_id"
    isJson := type = some "json"
    fieldName := .ofOption (format.bind (fun f => (f.text "subject_token_field_name").toOption)) }

/-- The settings of an external account, whose source has to make sense. -/
def externalSettings (ms : Json.Members) : Result ExternalAccount.Settings := do
  let source ← SubjectToken.Source.ofSection
    (sourceSection ((Json.Members.get? ms "credential_source").getD .null))
  return {
    audience := ms.text "audience"
    subjectTokenType := ms.text "subject_token_type"
    tokenUrl := ms.text "token_url"
    source
    tokenInfoUrl := ms.text "token_info_url"
    impersonationUrl := ms.text "service_account_impersonation_url"
    clientId := ms.text "client_id"
    clientSecret := ms.text "client_secret" }

def externalAccount (j : Json) (setup : Credential.Setup) : Procedure CredentialId := do
  let ms ← check externalAccountShape "external account" j
  let account ← ExternalAccount.ofSettings (← externalSettings ms)
  account.createCredential { setup with quotaProject := ms.text "quota_project_id" }

def typeOf (j : Json) : Json := (j.get? "type").getD .null

/-- Credentials from any of the three kinds of document. -/
def credential (keys : Crypto.KeyReader) (j : Json) (setup : Credential.Setup) :
    Procedure CredentialId := do
  match typeOf j with
  | .string type =>
    if type = serviceAccountType then create (← serviceAccount keys j setup)
    else if type = userType then create (← user j setup)
    else if type = externalAccountType then externalAccount j setup
    else .raise (.unsupportedType (Json.string type).render)
  | other => .raise (.unsupportedType other.render)

end Bearer.CredentialFile
