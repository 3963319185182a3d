import Bearer.Credential.Grant

namespace Bearer.ServiceAccount

def grantType : String := "urn:ietf:params:oauth:grant-type:jwt-bearer"

def assertionLife : Nat := 3600

def wording : Grant.Wording := { refused := "error getting access token for service account" }

/-- What the account asserts when it is issued at a time in seconds. -/
def claims (c : ServiceAccount) (issuedAt : Double) : Json.Members :=
  [("iss", .string c.clientEmail),
   ("sub", .string (c.user.getD c.clientEmail)),
   ("aud", .string c.tokenServerUrl),
   ("scope", .string (" ".intercalate c.scopes)),
   ("iat", .number issuedAt),
   ("exp", .number (issuedAt + Double.ofNat assertionLife))]

/-- The signed assertion; signing takes its time. -/
def assertion (c : ServiceAccount) : Procedure String := do
  let token ← Crypto.signedToken c.key c.keyId.filled? (c.claims (← wholeSeconds))
  rest
  return token

def requestToken (c : ServiceAccount) : Procedure Token := do
  if c.scopes.isEmpty then .raise .scopesRequired
  else
    let response ← send (Http.postForm c.tokenServerUrl (.ofStrings
      [("grant_type", some grantType), ("assertion", some (← c.assertion))]))
    tokenIn response wording

/-- A copy of a credential of this account that asks for other scopes; the copy has no
token yet. -/
def withScopes (c : ServiceAccount) (template : Credential) (scopes : List String) : Credential :=
  { template with kind := .serviceAccount { c with scopes }, token := none }

def withUser (c : ServiceAccount) (template : Credential) (user : Given String) : Credential :=
  { template with kind := .serviceAccount { c with user }, token := none }

end Bearer.ServiceAccount
