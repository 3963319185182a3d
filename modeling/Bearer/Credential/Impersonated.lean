import Bearer.Credential.JwtAccess
import Bearer.Credential.ServiceAccount
import Bearer.Iam.SignBlob
import Bearer.Time.Reader

namespace Bearer

namespace Lifetime

/-- The longest life, in seconds, that a minted token may have. -/
def most : Nat := 3600

def longest : Lifetime := ⟨3600, by decide, by decide⟩

/-- Reads the life that is asked for, the longest one if there is none. -/
def ofSetting (setting : Given Json) : Result Lifetime :=
  match setting.toOption with
  | none => .ok longest
  | some j =>
    match j.number?.bind Double.toInt? with
    | none => (Fault.lifetimeNotPositive j.plainText).raise
    | some n =>
      if positive : 0 < n.toNat then
        if bounded : n.toNat ≤ 3600 then .ok ⟨n.toNat, positive, bounded⟩
        else (Fault.lifetimeTooLong most).raise
      else (Fault.lifetimeNotPositive j.plainText).raise

end Lifetime

def Credential.requestMetadata (self : CredentialId) (uri : Given String)
    (signal : Option Signal := none) : Procedure Metadata := do
  let c ← lookAt self
  match c.kind with
  | .jwtAccess a => a.metadata uri
  | _ => return c.decorate (← fetchToken self .direct signal).metadata

namespace Impersonated

def failureContext : String := "error processing impersonated credentials"

def parseContext : String := "error parsing generateAccessToken response"

def iamEndpoint (i : Impersonated) : String :=
  i.endpoint.getD (Iam.generateAccessTokenUrl i.target)

/-- The source. One that still lacks scopes gives way, once and for all, to a copy
with the widest scope. -/
def scopedSource (self : CredentialId) (i : Impersonated) : Procedure CredentialId := do
  let source ← lookAt i.source
  match source.kind with
  | .serviceAccount a =>
    if a.scopes.isEmpty then
      let copy ← create (a.withScopes source [Google.cloudPlatformScope])
      .query (.redirect self copy)
      return copy
    else return i.source
  | _ => return i.source

/-- The headers that authorize calls for the target account. -/
def sourceMetadata (self : CredentialId) (i : Impersonated) : Procedure Metadata := do
  let source ← i.scopedSource self
  match ← (Credential.requestMetadata source (.value i.iamEndpoint)).attempt with
  | .ok metadata => return metadata
  | .error cause => .raise (.sourceNotRefreshed cause)

/-- What the minted token is to be like. -/
def mintingData (i : Impersonated) : Json :=
  .object
    [("delegates", .array (i.delegates.map .string)),
     ("scope", .array (i.scopes.map .string)),
     ("lifetime", .string (toString i.lifetime.seconds ++ "s"))]

def tokenIn (response : Http.Response) : Result Token := do
  if response.status ≠ Http.statusOk then
    response.fail (failureContext ++ ": error code " ++ toString response.status)
  else
    let data ← response.object parseContext
    let value ← Http.requireString data "accessToken" parseContext
    let expireTime ← Http.requireString data "expireTime" parseContext
    match Time.read? expireTime with
    | some ms => return ⟨value, .at ms⟩
    | none => (Fault.invalidExpireTime parseContext expireTime).raise

def requestToken (self : CredentialId) (i : Impersonated) : Procedure Token := do
  let metadata ← i.sourceMetadata self
  tokenIn (← send
    (Http.postJson i.iamEndpoint i.mintingData (Http.Headers.ofMetadata metadata)))

def sign (self : CredentialId) (i : Impersonated) (bytes : List UInt8) :
    Procedure (List UInt8) := do
  Iam.signBlob i.target (← i.sourceMetadata self) bytes

end Impersonated
end Bearer
