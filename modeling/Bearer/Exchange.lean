import Bearer.Credential.Grant
import Bearer.ClientIdentity
import Bearer.Text.Base64

namespace Bearer.Exchange

def grantType : String := "urn:ietf:params:oauth:grant-type:token-exchange"

def accessTokenType : String := "urn:ietf:params:oauth:token-type:access_token"

structure Actor where
  token : Given String
  tokenType : Given String

structure Request where
  endpoint : String
  subjectToken : Given String
  subjectTokenType : Given String
  audience : Given String := .missing
  scopes : List String := []
  requestedTokenType : Given String := .missing
  actor : Option Actor := none
  options : Given String := .missing
  client : Option ClientIdentity := none
  headers : Http.Headers := []

structure Answer where
  token : Token
  issuedTokenType : String
  tokenType : String
  expiresIn : Option Double
  refreshToken : Option String
  scopes : Option (List String)

def refusedContext : String := "error exchanging token"

def parseContext : String := "error parsing token exchange response"

/-- What identifies a client to the service: the encoded parts with a colon between,
as bytes in letters. -/
def basicCredentials (c : ClientIdentity) : String :=
  let pair := Text.Percent.encodeComponent c.id ++ ":"
    ++ Text.Percent.encodeComponent (c.secret.getD "")
  Text.Base64.encodeString (Text.Utf8.encode pair.toList)

def scopeText? (scopes : List String) : Option String :=
  if scopes.isEmpty then none else some (" ".intercalate scopes)

namespace Request

def form (r : Request) : List (String × Option String) :=
  [("grant_type", some grantType),
   ("subject_token_type", r.subjectTokenType.formText),
   ("subject_token", r.subjectToken.formText),
   ("audience", r.audience.formText),
   ("scope", scopeText? r.scopes),
   ("requested_token_type", some (r.requestedTokenType.getD accessTokenType)),
   ("actor_token", (r.actor.map Actor.token).bind Given.formText),
   ("actor_token_type", (r.actor.map Actor.tokenType).bind Given.formText),
   ("options", r.options.formText)]

def allHeaders (r : Request) : Http.Headers :=
  match r.client with
  | some c => r.headers.set Token.authorizationHeader ("Basic " ++ basicCredentials c)
  | none => r.headers

end Request

def words (scope : String) : List String :=
  ((Text.Form.splitAt ' ' scope.toList).filter (fun w => !w.isEmpty)).map String.ofList

/-- The life of the issued token; null is not taken for nothing here. -/
def expiresIn? (data : Json.Members) : Result (Option Double) :=
  match Json.Members.get? data "expires_in" with
  | none => .ok none
  | some _ => (Http.requireInteger data "expires_in" parseContext).map some

/-- The issued token with what is told about it, read at a reading of the clock. -/
def answerOf (data : Json.Members) (now : Double) : Result Answer := do
  let expiresIn ← expiresIn? data
  let scope ← Http.optionalString data "scope" parseContext
  let value ← Http.requireString data "access_token" parseContext
  let issuedTokenType ← Http.requireString data "issued_token_type" parseContext
  let tokenType ← Http.requireString data "token_type" parseContext
  let refreshToken ← Http.optionalString data "refresh_token" parseContext
  let token := match expiresIn with
    | some seconds => Token.lasting value now seconds
    | none => ⟨value, .never⟩
  return { token, issuedTokenType, tokenType, expiresIn, refreshToken, scopes := scope.map words }

def Answer.document (a : Answer) : Json :=
  .object
    ([("accessToken", a.token.document), ("issuedTokenType", .string a.issuedTokenType),
      ("tokenType", .string a.tokenType)]
      ++ (a.expiresIn.map (fun n => ("expiresIn", Json.number n))).toList
      ++ (a.refreshToken.map (fun t => ("refreshToken", Json.string t))).toList
      ++ (a.scopes.map (fun s => ("scopes", Json.array (s.map .string)))).toList)

def Request.perform (r : Request) : Procedure Answer := do
  let response ← send (Http.postForm r.endpoint (.ofStrings r.form) r.allHeaders)
  let data ← response.expectObject refusedContext parseContext
  answerOf data (← now)

end Bearer.Exchange
