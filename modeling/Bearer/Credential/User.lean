import Bearer.Credential.Grant

namespace Bearer.User

def wording : Grant.Wording := { refused := "error refreshing user credentials" }

/-- The credential of a person, who has granted at least one of the two tokens. -/
def credential (c : User) (setup : Credential.Setup) : Result Credential :=
  if setup.token.isNone ∧ c.refreshToken.filled?.isNone then
    Fault.tokenOrRefreshTokenRequired.raise
  else .ok { setup with kind := .user c }

def requestToken (c : User) : Procedure Token := do
  match c.refreshToken.filled? with
  | none => .raise .noRefreshToken
  | some refreshToken =>
    let response ← send (Http.postForm c.tokenServerUrl (.ofStrings
      [("client_id", some c.clientId),
       ("client_secret", c.clientSecret.formText),
       ("refresh_token", some refreshToken),
       ("grant_type", some "refresh_token")]))
    tokenIn response wording

end Bearer.User
