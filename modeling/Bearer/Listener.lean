import Bearer.Credential.Basic
import Bearer.ClientIdentity

namespace Bearer

/-- An application that sends people to a consent page and keeps the tokens that
they grant. -/
structure Authorizer extends Surroundings where
  client : ClientIdentity
  scopes : List String
  stores : Bool := false
  callbackUri : Given String := .missing
  authorizationUri : Given String := .missing
  tokenServer : Given String := .missing
  revokeUri : Given String := .missing

/-- The listeners of an application: a name, and what the first calls do besides
being recorded. -/
inductive Listener where
  /-- Keeps the store of an authorizer up to date for a user. -/
  | saving (authorizer : Authorizer) (user : String)
  | observing (name : String)
  | failing (name : String) (times : Option Nat) (failure : Thrown)
  | fetching (name : String) (times : Nat)
  | refreshing (name : String) (times : Nat)
  | refreshingIfExpired (name : String) (times : Nat)
  | adding (name : String) (times : Nat) (other : Listener)
  | waiting (name : String) (times : Nat)
  deriving Inhabited

inductive Note where
  /-- A listener was called; it saw this token, this fresh. -/
  | called (listener : String) (token : Option Token) (freshness : Freshness)
  /-- What a listener asked for is done; it got metadata if it asked for them. -/
  | done (listener : String) (metadata : Option Metadata)
  | failed (listener : String) (failure : Thrown)
  | calledBack (call : String) (outcome : Result Metadata)

end Bearer
