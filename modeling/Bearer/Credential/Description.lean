import Bearer.Credential.Request

namespace Bearer.Credential

def Kind.name : Kind → String
  | .serviceAccount _ => "ServiceAccountCredentials"
  | .user _ => "UserCredentials"
  | .computeEngine _ => "ComputeEngineCredentials"
  | .externalAccount _ => "ExternalAccountCredentials"
  | .impersonated _ => "ImpersonatedCredentials"
  | .jwtAccess _ => "ServiceAccountJwtAccessCredentials"
  | .fixed | .supplied => "OAuth2Credentials"

def Kind.isCaching : Kind → Bool
  | .jwtAccess _ => false
  | _ => true

def Kind.authenticationType (k : Kind) : String := if k.isCaching then "OAuth2" else "JWTAccess"

/-- A member for a setting that is not left out. -/
def told (name : String) : Given String → Json.Members
  | .missing => []
  | .null => [(name, .null)]
  | .value s => [(name, .string s)]

def listed (texts : List String) : Json := .array (texts.map .string)

/-- What is set for the kind; `nameOf` names the kind of other credentials. -/
def Kind.members (nameOf : CredentialId → String) : Kind → Json.Members
  | .serviceAccount c =>
    [("clientEmail", .string c.clientEmail), ("scopes", listed c.scopes),
     ("tokenServerUri", .string c.tokenServerUrl)]
      ++ told "clientId" c.clientId ++ told "privateKeyId" c.keyId ++ told "projectId" c.project
      ++ told "serviceAccountUser" c.user
  | .user c =>
    [("clientId", .string c.clientId), ("tokenServerUri", .string c.tokenServerUrl)]
      ++ told "clientSecret" c.clientSecret ++ told "refreshToken" c.refreshToken
  | .computeEngine c => [("tokenServerUrl", .string c.tokenUrl)]
  | .externalAccount c =>
    [("audience", .string c.audience), ("subjectTokenType", .string c.subjectTokenType),
     ("tokenUrl", .string c.tokenUrl), ("scopes", listed c.scopes)]
      ++ told "tokenInfoUrl" c.tokenInfoUrl
      ++ told "serviceAccountImpersonationUrl" c.impersonationUrl
      ++ told "serviceAccountEmail" (.ofOption (c.impersonated.map Prod.snd))
  | .impersonated c =>
    [("lifetime", .number (Double.ofNat c.lifetime.seconds)),
     ("iamEndpoint", .string c.iamEndpoint), ("source", .string (nameOf c.source))]
  | .jwtAccess c =>
    [("clientEmail", .string c.clientEmail)]
      ++ told "clientId" c.clientId ++ told "privateKeyId" c.keyId
      ++ told "defaultAudience" c.defaultAudience
  | .fixed | .supplied => []

/-- What a credential tells about itself: everything that is set, but no key and no token. -/
def describe (nameOf : CredentialId → String) (c : Credential) : Json :=
  .object
    ([("kind", Json.string c.kind.name), ("type", .string c.kind.authenticationType),
      ("hasRequestMetadata", .array [.bool true, .bool true])]
      ++ (if c.kind.isCaching then
          ("createScopedRequired", .bool c.needsScopes) :: told "quotaProjectId" c.quotaProject
        else [])
      ++ c.kind.members nameOf)

end Bearer.Credential
