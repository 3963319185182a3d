import Bearer.Error.Fault

namespace Bearer

/-- Serialized tokens by user. Calls may be made to fail. -/
structure TokenStore where
  /-- What is stored, the latest first; one entry per user. -/
  entries : List (String × String) := []
  failLoad : Option Thrown := none
  failStore : Option Thrown := none
  failDelete : Option Thrown := none

namespace TokenStore

inductive Call where
  | load (user : String)
  | store (user tokens : String)
  | delete (user : String)

def find? (s : TokenStore) (user : String) : Option String :=
  (s.entries.find? (fun e => e.1 = user)).map Prod.snd

def erase (s : TokenStore) (user : String) : TokenStore :=
  { s with entries := s.entries.filter (fun e => e.1 ≠ user) }

def insert (s : TokenStore) (user tokens : String) : TokenStore :=
  { s with entries := (user, tokens) :: (s.erase user).entries }

def failure? (s : TokenStore) : Call → Option Thrown
  | .load _ => s.failLoad
  | .store .. => s.failStore
  | .delete _ => s.failDelete

/-- Performs a call. Only loading brings something back. -/
def perform (s : TokenStore) (call : Call) : TokenStore × Result (Option String) :=
  match s.failure? call with
  | some failure => (s, .error failure)
  | none =>
    match call with
    | .load user => (s, .ok (s.find? user))
    | .store user tokens => (s.insert user tokens, .ok none)
    | .delete user => (s.erase user, .ok none)

end TokenStore
end Bearer
