import Bearer.Credential.Grant

namespace Bearer.JwtAccess

def life : Nat := 3600

def claims (c : JwtAccess) (audience : String) (issuedAt : Double) : Json.Members :=
  [("iss", .string c.clientEmail),
   ("sub", .string c.clientEmail),
   ("aud", .string audience),
   ("iat", .number issuedAt),
   ("exp", .number (issuedAt + Double.ofNat life))]

/-- The audience of a request: its target, else the default one. -/
def audience? (c : JwtAccess) (uri : Given String) : Option String :=
  (uri.toOption.or c.defaultAudience.toOption).filter (· ≠ "")

def metadata (c : JwtAccess) (uri : Given String) : Procedure Metadata := do
  match c.audience? uri with
  | none => .raise .audienceRequired
  | some audience =>
    let token ← Crypto.signedToken c.key c.keyId.filled? (c.claims audience (← wholeSeconds))
    rest
    return [(Token.authorizationHeader, [Token.bearerScheme ++ token])]

end Bearer.JwtAccess
