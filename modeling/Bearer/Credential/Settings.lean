import Bearer.Authorizer
import Bearer.CredentialFile.Load
import Bearer.Environment

namespace Bearer

def Environment.ofSettings (o : Json.Members) : Environment where
  metadataHost := o.text "metadataHost"
  skipsProbe := ((Json.Members.get? o "skipComputeEngineCheck").bind Json.bool?).getD false

def ClientIdentity.ofSettings (o : Json.Members) : ClientIdentity :=
  ⟨o.textD "clientId", o.text "clientSecret"⟩

namespace Exchange

/-- The members of an object within some settings. -/
def within (o : Json.Members) (name : String) : Option Json.Members :=
  (Json.Members.get? o name).bind Json.members?

def Actor.ofSettings (o : Json.Members) : Actor := ⟨o.text "actorToken", o.text "actorTokenType"⟩

def Request.ofSettings (o : Json.Members) : Request :=
  let r := (within o "request").getD []
  { endpoint := o.textD "tokenExchangeEndpoint"
    subjectToken := r.text "subjectToken"
    subjectTokenType := r.text "subjectTokenType"
    audience := r.text "audience"
    scopes := r.texts "scopes"
    requestedTokenType := r.text "requestedTokenType"
    actor := (within r "actingParty").map Actor.ofSettings
    options := r.text "internalOptions"
    client := (within o "clientAuthentication").map ClientIdentity.ofSettings
    headers := ((within o "headers").map Json.Members.pairs).getD [] }

end Exchange

def ServiceAccount.ofSettings (keys : Crypto.KeyReader) (o : Json.Members) :
    Result ServiceAccount := do
  return {
    clientId := o.text "clientId"
    clientEmail := o.textD "clientEmail"
    key := ← Crypto.PrivateKey.ofSetting keys (o.text "privateKey")
    keyId := o.text "privateKeyId"
    scopes := o.texts "scopes"
    user := o.text "serviceAccountUser"
    tokenServer := o.text "tokenServerUri"
    project := o.text "projectId" }

def JwtAccess.ofSettings (keys : Crypto.KeyReader) (o : Json.Members) : Result JwtAccess := do
  return {
    clientId := o.text "clientId"
    clientEmail := o.textD "clientEmail"
    key := ← Crypto.PrivateKey.ofSetting keys (o.text "privateKey")
    keyId := o.text "privateKeyId"
    defaultAudience := o.text "defaultAudience" }

def User.ofSettings (o : Json.Members) : User where
  clientId := o.textD "clientId"
  clientSecret := o.text "clientSecret"
  refreshToken := o.text "refreshToken"
  tokenServer := o.text "tokenServerUri"

def ExternalAccount.Settings.ofSettings (o : Json.Members) (source : SubjectToken.Source) :
    ExternalAccount.Settings where
  audience := o.text "audience"
  subjectTokenType := o.text "subjectTokenType"
  tokenUrl := o.text "tokenUrl"
  source := source
  tokenInfoUrl := o.text "tokenInfoUrl"
  impersonationUrl := o.text "serviceAccountImpersonationUrl"
  clientId := o.text "clientId"
  clientSecret := o.text "clientSecret"
  scopes := o.texts "scopes"

/-- Scopes have to be listed, even if the list is empty. -/
def listsScopes (o : Json.Members) : Bool := ((o.get? "scopes").bind Json.array?).isSome

def listedScopes (o : Json.Members) : Result (List String) :=
  if listsScopes o then .ok (o.texts "scopes") else .error (.platform .notIterable)

def Impersonated.ofSettings (o : Json.Members) (source : CredentialId) : Result Impersonated := do
  let lifetime ← Lifetime.ofSetting (o.setting "lifetime" some)
  let scopes ← listedScopes o
  return {
    source
    target := o.textD "targetPrincipal"
    delegates := o.texts "delegates"
    scopes, lifetime
    endpoint := o.text "iamEndpointOverride" }

namespace SubjectToken

def Format.ofSettings (o : Json.Members) : Format :=
  if o.textD "type" = "json" then .json (o.textD "subjectTokenFieldName") else .text

def Source.ofSettings (o : Json.Members) : Source :=
  let format := match Json.Members.get? o "format" with
    | some (.object f) => Format.ofSettings f
    | _ => .text
  match (o.text "file").toOption with
  | some path => .file path format
  | none => .url (o.textD "url") (o.setting "headers" CredentialFile.headers?) format

end SubjectToken

namespace Credential

/-- Makes credentials of a kind that needs no others. -/
def ofSettings (keys : Crypto.KeyReader) (kind : String) (o : Json.Members) (setup : Setup) :
    Procedure CredentialId := do
  match kind with
  | "serviceAccount" =>
    create { setup with kind := .serviceAccount (← ServiceAccount.ofSettings keys o) }
  | "user" => create (← (User.ofSettings o).credential setup)
  | "computeEngine" =>
    let environment := match Json.Members.get? o "environment" with
      | some (.object e) => Environment.ofSettings e
      | _ => {}
    create { setup with kind := .computeEngine ⟨environment.metadataServer⟩ }
  | _ => create { setup with kind := .jwtAccess (← JwtAccess.ofSettings keys o) }

end Credential

namespace Authorizer

def ofSettings (o : Json.Members) (stores : Bool) (surroundings : Surroundings) :
    Result Authorizer :=
  checked
    { surroundings with
      client := ClientIdentity.ofSettings (((Json.Members.get? o "clientId").bind
        Json.members?).getD [])
      scopes := o.texts "scopes"
      stores
      callbackUri := o.text "callbackUri"
      authorizationUri := o.text "authUri"
      tokenServer := o.text "tokenServerUri"
      revokeUri := o.text "revokeUri" }

end Authorizer
end Bearer
