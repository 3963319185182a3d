import Bearer.Http.Message
import Bearer.Listener
import Bearer.TokenStore

namespace Bearer

/-- How the caller wants the operation of a refresh to be run. -/
inductive Executor where
  | direct
  /-- As soon as everything begun is done. -/
  | deferring
  /-- When the caller says so. -/
  | manual
  | refusing (failure : Thrown)

/-- The name of a signal that its owner may abort. -/
abbrev Signal := String

inductive Query where
  | now
  | note (n : Note)
  | send (request : Http.Request)
  | read (path : String)
  | store (call : TokenStore.Call)
  | fetch (c : CredentialId) (executor : Executor) (signal : Option Signal)
  | refresh (c : CredentialId) (signal : Option Signal)
  | refreshIfExpired (c : CredentialId) (signal : Option Signal)
  | credential (c : CredentialId)
  | cached (c : CredentialId)
  | freshness (c : CredentialId)
  | create (credential : Credential)
  /-- Gives an impersonating credential another source. -/
  | redirect (c source : CredentialId)
  | listen (c : CredentialId) (l : Listener)
  | callbackFailed (c : CredentialId) (failure : Thrown)
  /-- The outcome of an operation that the application brings. -/
  | operation (c : CredentialId)
  | gate (name : String)
  /-- Lets everything that is due go first. -/
  | rest

abbrev Reply : Query → Type
  | .now => Double
  | .note _ => Unit
  | .send _ => Result Http.Response
  | .read _ => Option (List UInt8)
  | .store _ => Result (Option String)
  | .fetch .. => Result Token
  | .refresh .. => Result Unit
  | .refreshIfExpired .. => Result Unit
  | .credential _ => Credential
  | .cached _ => Option Token
  | .freshness _ => Freshness
  | .create _ => CredentialId
  | .redirect .. => Unit
  | .listen .. => Unit
  | .callbackFailed .. => Unit
  | .operation _ => Result Token
  | .gate _ => Unit
  | .rest => Unit

/-- What a credential does one thing after the other, apart from the world it does it in. A
procedure asks its surroundings a question, goes on with the reply, and ends with a value or a
failure. Some replies come at once, others after a while in which other procedures go on. -/
inductive Procedure (α : Type) where
  | done (outcome : Result α)
  | ask (q : Query) (next : Reply q → Procedure α)

namespace Procedure

variable {α β : Type}

instance : Inhabited (Procedure α) := ⟨done (.error .undefined)⟩

protected def bind (p : Procedure α) (f : α → Procedure β) : Procedure β :=
  match p with
  | done (.ok a) => f a
  | done (.error e) => done (.error e)
  | ask q next => ask q (fun r => (next r).bind f)

instance : Monad Procedure where
  pure a := done (.ok a)
  bind := Procedure.bind

/-- The outcome as a value: such a procedure does not fail. -/
def attempt (p : Procedure α) : Procedure (Result α) :=
  match p with
  | done outcome => done (.ok outcome)
  | ask q next => ask q (fun r => (next r).attempt)

def fail (failure : Thrown) : Procedure α := done (.error failure)

def raise (f : Fault) : Procedure α := done f.raise

def ofResult (r : Result α) : Procedure α := done r

instance : MonadLift Result Procedure := ⟨ofResult⟩

def query (q : Query) : Procedure (Reply q) := ask q pure

end Procedure

open Procedure

def now : Procedure Double := query .now

def note (n : Note) : Procedure Unit := query (.note n)

def send (request : Http.Request) : Procedure Http.Response := ask (.send request) done

def readFile (path : String) : Procedure (Option (List UInt8)) := query (.read path)

def callStore (call : TokenStore.Call) : Procedure (Option String) := ask (.store call) done

/-- A token of a credential, cached or after a refresh. -/
def fetchToken (c : CredentialId) (executor : Executor) (signal : Option Signal := none) :
    Procedure Token := ask (.fetch c executor signal) done

def refreshToken (c : CredentialId) (signal : Option Signal := none) : Procedure Unit :=
  ask (.refresh c signal) done

def refreshTokenIfExpired (c : CredentialId) (signal : Option Signal := none) : Procedure Unit :=
  ask (.refreshIfExpired c signal) done

def lookAt (c : CredentialId) : Procedure Credential := query (.credential c)

def cachedToken (c : CredentialId) : Procedure (Option Token) := query (.cached c)

def create (credential : Credential) : Procedure CredentialId := query (.create credential)

def rest : Procedure Unit := query .rest

end Bearer
