import Bearer.Crypto.Signature
import Bearer.SubjectToken.Source
import Bearer.Token

namespace Bearer

abbrev CredentialId := Nat

/-- A service account, which proves itself with an assertion signed by its own key. -/
structure ServiceAccount where
  clientId : Given String := .missing
  clientEmail : String
  key : Crypto.PrivateKey
  keyId : Given String := .missing
  scopes : List String := []
  user : Given String := .missing
  tokenServer : Given String := .missing
  project : Given String := .missing

/-- A person who let the application act for them. -/
structure User where
  clientId : String
  clientSecret : Given String := .missing
  refreshToken : Given String := .missing
  tokenServer : Given String := .missing

/-- The account of the machine that the program runs on. -/
structure ComputeEngine where
  server : String

/-- An identity of another provider, exchanged for a token. -/
structure ExternalAccount where
  audience : String
  subjectTokenType : String
  tokenUrl : String
  source : SubjectToken.Source
  tokenInfoUrl : Given String := .missing
  impersonationUrl : Given String := .missing
  clientId : Given String := .missing
  clientSecret : Given String := .missing
  scopes : List String
  /-- The credentials that take over when a service account is impersonated, and the
  account. -/
  impersonated : Option (CredentialId × String) := none

structure Lifetime where
  seconds : Nat
  positive : 0 < seconds
  bounded : seconds ≤ 3600

/-- A service account that other credentials act as. -/
structure Impersonated where
  source : CredentialId
  target : String
  delegates : List String := []
  scopes : List String
  lifetime : Lifetime
  endpoint : Given String := .missing

/-- A service account that signs a token for every request. -/
structure JwtAccess where
  clientId : Given String := .missing
  clientEmail : String
  key : Crypto.PrivateKey
  keyId : Given String := .missing
  defaultAudience : Given String := .missing

/-- Networks that requests go through, told apart by number. The first is that of the platform. -/
abbrev TransportId := Nat

abbrev ClockId := Nat

abbrev LogId := Nat

/-- What an application hands over for its credentials to work with. -/
structure Surroundings where
  transport : TransportId := 0
  clock : ClockId := 0
  log : Option LogId := some 0

def Surroundings.logging (s : Surroundings) : Bool := s.log.isSome

namespace Credential

inductive Kind where
  | serviceAccount (c : ServiceAccount)
  | user (c : User)
  | computeEngine (c : ComputeEngine)
  | externalAccount (c : ExternalAccount)
  | impersonated (c : Impersonated)
  | jwtAccess (c : JwtAccess)
  /-- Nothing but a token, which cannot be refreshed. -/
  | fixed
  /-- The application brings the operation that gets tokens. -/
  | supplied

/-- What credentials of all kinds are given. -/
structure Setup extends Surroundings where
  token : Option Token := none
  /-- The project that is billed. -/
  quotaProject : Given String := .missing
  /-- Headers of the application that go over the others. -/
  headers : Metadata := []

end Credential

structure Credential extends Credential.Setup where
  kind : Credential.Kind

namespace Credential

instance : Inhabited Credential := ⟨{ kind := .fixed }⟩

def quotaHeader : String := "x-goog-user-project"

def decorate (c : Credential) (m : Metadata) : Metadata :=
  let m := match c.quotaProject.filled? with
    | some project => m.set quotaHeader [project]
    | none => m
  c.headers.foldl (fun m h => Metadata.set m h.1 h.2) m

def needsScopes (c : Credential) : Bool :=
  match c.kind with
  | .serviceAccount a => a.scopes.isEmpty
  | _ => false

end Credential

namespace Google

def tokenUrl : String := "https://oauth2.googleapis.com/token"

def authorizationUrl : String := "https://accounts.google.com/o/oauth2/auth"

def revokeUrl : String := "https://oauth2.googleapis.com/revoke"

def cloudPlatformScope : String := "https://www.googleapis.com/auth/cloud-platform"

end Google

def ServiceAccount.tokenServerUrl (c : ServiceAccount) : String :=
  c.tokenServer.getD Google.tokenUrl

def User.tokenServerUrl (c : User) : String := c.tokenServer.getD Google.tokenUrl

def ComputeEngine.tokenPath : String :=
  "/computeMetadata/v1/instance/service-accounts/default/token"

def ComputeEngine.tokenUrl (c : ComputeEngine) : String := c.server ++ ComputeEngine.tokenPath

end Bearer
