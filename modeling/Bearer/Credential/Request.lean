import Bearer.Credential.ComputeEngine
import Bearer.Credential.ExternalAccount
import Bearer.Credential.User

namespace Bearer.Credential

/-- Gets a new token, past the cache. -/
def requestToken (self : CredentialId) : Procedure Token := do
  match (← lookAt self).kind with
  | .serviceAccount c => c.requestToken
  | .user c => c.requestToken
  | .computeEngine c => c.requestToken
  | .externalAccount c => c.requestToken
  | .impersonated c => c.requestToken self
  | .jwtAccess _ | .fixed => .raise .refreshNotSupported
  | .supplied => .ask (.operation self) .done

/-- Tells a callback the outcome of a call; a callback that throws is only warned of. -/
def callBack (self : CredentialId) (call : String) (throwing : Option Thrown)
    (outcome : Result Metadata) : Procedure Unit := do
  note (.calledBack call outcome)
  match throwing with
  | some failure => .query (.callbackFailed self failure)
  | none => return ()

/-- Tells the headers for a request to a callback. A refresh that is needed runs on the
executor; a credential that signs every request calls back on it. -/
def requestMetadataAsync (self : CredentialId) (call : String) (uri : Given String)
    (executor : Executor) (throwing : Option Thrown) : Procedure Unit := do
  let c ← lookAt self
  match c.kind with
  | .jwtAccess a =>
    let outcome ← (a.metadata uri).attempt
    match executor with
    | .refusing _ => return ()
    | .deferring =>
      rest
      callBack self call throwing outcome
    | _ => callBack self call throwing outcome
  | _ =>
    let outcome ← (fetchToken self executor).attempt
    callBack self call throwing (outcome.map (fun t => c.decorate t.metadata))

/-- Starts a refresh and waits for it; a credential that signs every request has
nothing to refresh. -/
def refresh (self : CredentialId) (signal : Option Signal) : Procedure Unit := do
  match (← lookAt self).kind with
  | .jwtAccess _ => return ()
  | _ => refreshToken self signal

/-- The signature of some bytes, by credentials that can sign. -/
def sign (self : CredentialId) (bytes : List UInt8) : Procedure (List UInt8) := do
  match (← lookAt self).kind with
  | .serviceAccount c => return c.key.sign bytes
  | .jwtAccess c => return c.key.sign bytes
  | .impersonated c => c.sign self bytes
  | _ => .raise .refreshNotSupported

/-- A credential that asks for other scopes; most kinds have none and stay. -/
def createScoped (self : CredentialId) (scopes : List String) : Procedure CredentialId := do
  let template ← lookAt self
  match template.kind with
  | .serviceAccount c => create (c.withScopes template scopes)
  | .externalAccount c => c.createScoped template scopes
  | _ => return self

/-- A credential that acts for a user, where the kind allows it. -/
def createDelegated (self : CredentialId) (user : Given String) : Procedure CredentialId := do
  let template ← lookAt self
  match template.kind with
  | .serviceAccount c => create (c.withUser template user)
  | _ => return self

def account? (c : Credential) : Option String :=
  match c.kind with
  | .serviceAccount a => some a.clientEmail
  | .jwtAccess a => some a.clientEmail
  | .impersonated i => some i.target
  | _ => none

end Bearer.Credential
