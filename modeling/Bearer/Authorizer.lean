import Bearer.Credential.Request
import Bearer.Url.Reader

namespace Bearer.Authorizer

def defaultCallback : String := "/oauth2callback"

def parseContext : String := "error parsing token response"

def storeContext : String := "error reading stored tokens"

/-- An authorizer has to ask for something. -/
def checked (a : Authorizer) : Result Authorizer :=
  if a.scopes.isEmpty then Fault.authorizerScopesRequired.raise else .ok a

/-- Reads an address that has to make sense. -/
def address (text : String) (base : Option Url := none) : Result Url :=
  match Url.read? text base with
  | some u => .ok u
  | none => .error (.platform .invalidUrl)

/-- Where the consent page sends people back to: as it is set if that is absolute, else
relative to the base. -/
def callback (a : Authorizer) (base : Given String) : Result String :=
  let callback := a.callbackUri.getD defaultCallback
  if Url.isAbsolute callback then .ok callback
  else
    match base.filled? with
    | none => (Fault.baseUriRequired callback).raise
    | some base => do return (← address callback (some (← address base))).text

/-- What the consent page is told of. -/
structure Consent where
  client : Text.Utf16
  callback : Text.Utf16
  scopes : List Text.Utf16
  user : Given Text.Utf16 := .missing
  state : Given Text.Utf16 := .missing

/-- What is told of a setting, nothing if it was left out. -/
def told? (g : Given Text.Utf16) : Option Text.Utf16 := g.written (Text.Utf16.ofString "null")

def Consent.form (c : Consent) : Http.Form :=
  [("response_type", some "code"),
   ("client_id", some c.client),
   ("redirect_uri", some c.callback),
   ("scope", some (.joined " " c.scopes)),
   ("state", told? c.state),
   ("login_hint", told? c.user),
   ("access_type", some "offline"),
   ("approval_prompt", some "force")]

/-- The address of a page that is told of all this: the fields replace those of the same names
in the query that it has already. -/
def Consent.url (c : Consent) (page : Url) : Url :=
  page.withFields ((Http.formFields c.form).foldl
    (fun fields f => Text.Form.set fields f.1 f.2) page.fields)

def consent (a : Authorizer) (callback : String) (user state : Given Text.Utf16) : Consent :=
  { client := a.client.id, callback, scopes := a.scopes.map Text.Utf16.ofString, user, state }

def consentUrl (a : Authorizer) (user state : Given Text.Utf16) (base : Given String) :
    Result Url := do
  let page ← address (a.authorizationUri.getD Google.authorizationUrl)
  let callback ← a.callback base
  return (a.consent callback user state).url page

structure Stored where
  token : Option Token
  refreshToken : Option String

namespace Stored

def tokenName : String := "access_token"

def expiryName : String := "expiration_time_millis"

def refreshName : String := "refresh_token"

def document (s : Stored) : Json :=
  .object
    [(tokenName, (s.token.map (fun t => Json.string t.value)).getD .null),
     (expiryName, ((s.token.bind (fun t => t.expiry.toNumber?)).map Json.number).getD .null),
     (refreshName, (s.refreshToken.map Json.string).getD .null)]

/-- When a stored token ends; what is no number means never. -/
def expiryIn (data : Json.Members) : Expiry :=
  match (Json.Members.get? data expiryName).bind Json.number? with
  | some ms => .ofNumber ms
  | none => .never

/-- Reads what was stored; an empty token is none. -/
def ofText (text : String) : Result Stored := do
  let data ← Http.parseObject text storeContext
  let value ← Http.optionalString data tokenName storeContext
  let refreshToken ← Http.optionalString data refreshName storeContext
  let token := (value.filter (· ≠ "")).map (fun value => Token.mk value (expiryIn data))
  return { token, refreshToken }

/-- What stands for the grant of the user: the refresh token, else the token. -/
def grant? (s : Stored) : Option String :=
  (s.refreshToken.or (s.token.map Token.value)).filter (· ≠ "")

end Stored

def requireStore (a : Authorizer) : Result Unit :=
  if a.stores then .ok () else Fault.tokenStoreRequired.raise

def loadTokens (a : Authorizer) (user : String) : Procedure (Option Stored) := do
  a.requireStore
  match ← callStore (.load user) with
  | none => return none
  | some text => return some (← Stored.ofText text)

def storeCredential (a : Authorizer) (user : String) (c : CredentialId) : Procedure Unit := do
  a.requireStore
  let token ← cachedToken c
  let refreshToken := match (← lookAt c).kind with
    | .user u => u.refreshToken.toOption
    | _ => none
  let _ ← callStore (.store user (Stored.document { token, refreshToken }).render)

def createCredential (a : Authorizer) (s : Stored) : Procedure CredentialId := do
  let user : User :=
    { clientId := a.client.id
      clientSecret := a.client.secret
      refreshToken := .ofOption s.refreshToken
      tokenServer := a.tokenServer }
  create (← user.credential { a.toSurroundings with token := s.token })

/-- Keeps the store up to date with a credential. -/
def monitor (a : Authorizer) (user : String) (c : CredentialId) : Procedure Unit :=
  .query (.listen c (.saving a user))

/-- The credential of a user, if anything is stored for them. -/
def credential? (a : Authorizer) (user : String) : Procedure (Option CredentialId) := do
  match ← a.loadTokens user with
  | none => return none
  | some s =>
    let c ← a.createCredential s
    a.monitor user c
    return some c

def tokensIn (response : Http.Response) (now : Double) : Result Stored := do
  let data ← response.expectObject "error redeeming authorization code" parseContext
  let token ← Http.tokenOf data now parseContext
  let refreshToken ← Http.optionalString data "refresh_token" parseContext
  return { token := some token, refreshToken }

/-- Redeems the code that a user came back with. -/
def redeem (a : Authorizer) (code base : Given String) : Procedure CredentialId := do
  let callback ← a.callback base
  let response ← send (Http.postForm (a.tokenServer.getD Google.tokenUrl) (.ofStrings
    [("code", code.formText),
     ("client_id", some a.client.id),
     ("client_secret", a.client.secret.formText),
     ("redirect_uri", some callback),
     ("grant_type", some "authorization_code")]))
  a.createCredential (← tokensIn response (← now))

/-- Redeems a code, and keeps the tokens for the user from then on. -/
def redeemAndStore (a : Authorizer) (user : String) (code base : Given String) :
    Procedure CredentialId := do
  let c ← a.redeem code base
  a.storeCredential user c
  a.monitor user c
  return c

/-- Tells the server that a grant is over. -/
def revokeGrant (a : Authorizer) (s : Stored) : Procedure Unit := do
  match s.grant? with
  | none => return ()
  | some token =>
    let response ← send
      (Http.postForm (a.revokeUri.getD Google.revokeUrl) (.ofStrings [("token", some token)]))
    if response.status ≠ Http.statusOk then response.fail "error revoking authorization"

/-- Revokes the grant of a user and forgets their tokens, these even if the server does
not agree. -/
def revoke (a : Authorizer) (user : String) : Procedure Unit := do
  match ← a.loadTokens user with
  | none => return ()
  | some s =>
    let outcome ← (a.revokeGrant s).attempt
    let _ ← callStore (.delete user)
    .ofResult outcome

end Bearer.Authorizer
