import Bearer.Error.Thrown

namespace Bearer

inductive Fault where
  | refreshNotSupported
  | refreshAborted (reason : Thrown)
  | emptyContent (context : String)
  | invalidDocument (context : String)
  | notAnObject (context : String)
  | missingField (context key : String)
  | notText (context key : String)
  | notAnInteger (context key : String)
  | invalidExpireTime (context text : String)
  /-- An answer of an unexpected status that explains nothing. -/
  | unexpectedStatus (context : String) (status : Nat) (body : String)
  /-- An answer that explains itself with a message. -/
  | refused (context message : String) (status : Nat) (body : String)
  /-- An answer in the form that the protocol gives to errors. -/
  | rejected (context : String) (status : Nat) (body code : String)
      (description uri : Option String)
  | blobNotSigned (status : Nat) (body : String)
  | metadataNotFound (status : Nat) (body : String)
  | metadataStatus (status : Nat) (body : String)
  | metadataServerUnavailable (cause : Thrown)
  | noResponse (method url : String) (cause : Thrown)
  | invalidPrivateKey
  | scopesRequired
  | tokenOrRefreshTokenRequired
  | noRefreshToken
  | lifetimeNotPositive (given : String)
  | lifetimeTooLong (most : Nat)
  | sourceNotRefreshed (cause : Thrown)
  | audienceRequired
  | settingRequired (name : String)
  | noTargetPrincipal (url : String)
  | unreadableTokenFile (path : String)
  | unsupportedEnvironment (id : String)
  | fieldNameRequired
  | sourceRequired
  | notInGrammar (kind failure : String)
  | unsupportedType (type : String)
  | clientSectionRequired
  | authorizerScopesRequired
  | baseUriRequired (callback : String)
  | tokenStoreRequired
  | retryAborted (name : String) (reason : Thrown)
  | attemptTimedOut (name : String) (attempt : Nat) (timeout : String)

namespace Fault

def sentence (parts : List (Option String)) : String := ": ".intercalate (parts.filterMap id)

def metadataContext : String :=
  "trying to get security access token from compute engine metadata for the default service account"

def message : Fault → String
  | refreshNotSupported =>
    "credentials do not support refreshing the access token; use an instance with a new "
      ++ "access token or a refreshable credential type"
  | refreshAborted _ => "interrupted while waiting for the access token to refresh"
  | emptyContent context => context ++ ": empty content"
  | invalidDocument context => context ++ ": invalid json"
  | notAnObject context => context ++ ": expected a json object"
  | missingField context key => context ++ ": missing field '" ++ key ++ "'"
  | notText context key => context ++ ": expected a string for '" ++ key ++ "'"
  | notAnInteger context key => context ++ ": expected an integer for '" ++ key ++ "'"
  | invalidExpireTime context text => context ++ ": invalid expireTime '" ++ text ++ "'"
  | unexpectedStatus context status body =>
    context ++ ": unexpected status " ++ toString status ++ ": " ++ body
  | refused context message _ _ => context ++ ": " ++ message
  | rejected context _ _ code description uri =>
    sentence [some context, some code, description, uri]
  | blobNotSigned status body =>
    "unexpected error code " ++ toString status ++ " while signing blob: " ++ body
  | metadataNotFound status _ =>
    "error code " ++ toString status ++ " " ++ metadataContext
      ++ ", this may be because the virtual machine instance does not have permission scopes"
      ++ " specified"
  | metadataStatus status body =>
    "unexpected error code " ++ toString status ++ " " ++ metadataContext ++ ": " ++ body
  | metadataServerUnavailable _ =>
    "unable to reach the metadata server, the application is probably not running on compute engine"
  | noResponse method url cause => method ++ " " ++ url ++ " failed: " ++ cause.reason
  | invalidPrivateKey => "invalid pkcs#8 private key"
  | scopesRequired => "scopes not configured, call createScoped before refreshing"
  | tokenOrRefreshTokenRequired => "either an access token or a refresh token is required"
  | noRefreshToken => "cannot refresh user credentials without a refresh token"
  | lifetimeNotPositive given => "lifetime must be a positive number of seconds, got " ++ given
  | lifetimeTooLong most =>
    "lifetime must be less than or equal to " ++ toString most ++ " seconds"
  | sourceNotRefreshed _ =>
    "error processing impersonated credentials: unable to refresh source credentials"
  | audienceRequired => "jwt access credentials require a request uri or a default audience"
  | settingRequired name => "external account credentials require " ++ name
  | noTargetPrincipal url =>
    "unable to determine target principal from service account impersonation url: " ++ url
  | unreadableTokenFile path => "error reading subject token from file " ++ path
  | unsupportedEnvironment id => "unsupported credential source environment " ++ id
  | fieldNameRequired =>
    "credential source format of type json requires subject_token_field_name"
  | sourceRequired => "credential source must specify either a file or an url"
  | notInGrammar kind failure =>
    "error reading " ++ kind ++ " credentials from json: " ++ failure
  | unsupportedType type => "error reading credentials from json: unsupported type " ++ type
  | clientSectionRequired =>
    "client secrets must contain an 'installed' or 'web' section with a client_id"
  | authorizerScopesRequired => "user authorizer requires scopes"
  | baseUriRequired callback =>
    "a base uri is required to resolve the relative callback uri " ++ callback
  | tokenStoreRequired => "a token store is required to load or save user credentials"
  | retryAborted name _ => name ++ " aborted"
  | attemptTimedOut name attempt timeout =>
    name ++ " attempt #" ++ toString attempt ++ " exceeded timeout " ++ timeout ++ "ms"

def statusKind (status : Nat) (body : String) : ErrorKind :=
  .httpStatus (some (Double.ofNat status)) (some body)

def kind : Fault → ErrorKind
  | refreshNotSupported => .refreshNotSupported
  | refreshAborted _ => .refreshAborted
  | emptyContent _ | invalidDocument _ | notAnObject _ | missingField .. | notText ..
  | notAnInteger .. | invalidExpireTime .. => .malformedResponse
  | unexpectedStatus _ status body | refused _ _ status body | blobNotSigned status body
  | metadataNotFound status body | metadataStatus status body => statusKind status body
  | rejected _ status body code description uri =>
    .oauth (some (Double.ofNat status)) (some body) (some code) description uri
  | metadataServerUnavailable _ => .metadataServerUnavailable
  | noResponse .. => .transport
  | scopesRequired => .scopesRequired
  | sourceNotRefreshed _ | unreadableTokenFile _ => .credential
  | retryAborted .. => .nonRetryable
  | attemptTimedOut .. => .plain
  | _ => .config

def cause? : Fault → Option Thrown
  | refreshAborted reason => some reason
  | invalidDocument _ => some (.platform .documentText)
  | metadataServerUnavailable cause => some cause
  | noResponse _ _ cause => some cause
  | invalidPrivateKey => some (.platform .keyText)
  | sourceNotRefreshed cause => some cause
  | unreadableTokenFile _ => some (.platform .fileSystem)
  | retryAborted _ reason => some reason
  | _ => none

def thrown (f : Fault) : Thrown := .error f.kind f.message f.cause? none []

end Fault

def Fault.raise {α : Type} (f : Fault) : Result α := .error f.thrown

end Bearer
