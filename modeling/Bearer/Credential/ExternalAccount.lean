import Bearer.Credential.Impersonated
import Bearer.Exchange
import Bearer.SubjectToken.Retrieve

namespace Bearer.ExternalAccount

structure Settings where
  audience : Given String := .missing
  subjectTokenType : Given String := .missing
  tokenUrl : Given String := .missing
  source : SubjectToken.Source
  tokenInfoUrl : Given String := .missing
  impersonationUrl : Given String := .missing
  clientId : Given String := .missing
  clientSecret : Given String := .missing
  scopes : List String := []

def required (setting : Given String) (name : String) : Result String :=
  match setting.filled? with
  | some value => .ok value
  | none => (Fault.settingRequired name).raise

/-- The account without impersonation. -/
def ofSettings (s : Settings) : Result ExternalAccount := do
  let audience ← required s.audience "audience"
  let subjectTokenType ← required s.subjectTokenType "subjectTokenType"
  let tokenUrl ← required s.tokenUrl "tokenUrl"
  return {
    audience, subjectTokenType, tokenUrl
    source := s.source
    tokenInfoUrl := s.tokenInfoUrl
    impersonationUrl := s.impersonationUrl
    clientId := s.clientId
    clientSecret := s.clientSecret
    scopes := if s.scopes.isEmpty then [Google.cloudPlatformScope] else s.scopes }

/-- The credentials that take over for an account: their source is the account itself
without impersonation, on no project's bill. -/
def createImpersonated (c : ExternalAccount) (setup : Credential.Setup) (url : String) :
    Procedure (CredentialId × String) := do
  let target ← Iam.targetPrincipal url
  let source ← create
    { setup.toSurroundings with
      kind := .externalAccount { c with impersonationUrl := .missing, impersonated := none } }
  let id ← create
    { setup.toSurroundings with
      kind := .impersonated
        { source, target, scopes := c.scopes, lifetime := .longest, endpoint := .value url } }
  return (id, target)

/-- The same account with the credentials for its impersonation. -/
def prepared (c : ExternalAccount) (setup : Credential.Setup) : Procedure ExternalAccount := do
  match c.impersonationUrl.filled? with
  | some url => return { c with impersonated := some (← c.createImpersonated setup url) }
  | none => return { c with impersonated := none }

def createCredential (c : ExternalAccount) (setup : Credential.Setup) :
    Procedure CredentialId := do
  create { setup with kind := .externalAccount (← c.prepared setup) }

def createScoped (c : ExternalAccount) (template : Credential) (scopes : List String) :
    Procedure CredentialId :=
  createCredential
    { c with scopes := if scopes.isEmpty then [Google.cloudPlatformScope] else scopes }
    { template.toSetup with token := none }

def exchange (c : ExternalAccount) (subjectToken : String) : Exchange.Request :=
  { endpoint := c.tokenUrl
    subjectToken := .value subjectToken
    subjectTokenType := .value c.subjectTokenType
    audience := .value c.audience
    scopes := c.scopes
    requestedTokenType := .value Exchange.accessTokenType
    client := c.clientId.filled?.map (fun id => ⟨id, c.clientSecret⟩) }

def requestToken (c : ExternalAccount) : Procedure Token := do
  match c.impersonated with
  | some (id, _) =>
    match (← lookAt id).kind with
    | .impersonated i => i.requestToken id
    | _ => .raise .refreshNotSupported
  | none => return (← (c.exchange (← c.source.retrieve)).perform).token

end Bearer.ExternalAccount
