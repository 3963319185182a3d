import Bearer.Authorizer
import Bearer.Environment
import Bearer.Probe

namespace Bearer.Constants

def number (n : Nat) : Json := .number (Double.ofNat n)

def ratio (a b : Int) : Json := .number (Double.ofInt (a / b))

def core : Json.Members :=
  [("AUTHORIZATION_HEADER", .string Token.authorizationHeader),
   ("BEARER_PREFIX", .string Token.bearerScheme),
   ("MS_PER_SECOND", ratio Time.msPerSecond 1),
   ("SECONDS_PER_MINUTE", ratio Time.msPerMinute Time.msPerSecond),
   ("MINUTES_PER_HOUR", ratio Time.msPerHour Time.msPerMinute),
   ("MINUTES_TO_MS", ratio Time.msPerMinute 1),
   ("HOUR_IN_SECONDS", ratio Time.msPerHour Time.msPerSecond),
   ("MINIMUM_VALIDITY_MS", number Freshness.minimumValidity),
   ("REFRESH_MARGIN_MS", number Freshness.refreshMargin)]

def endpoints : Json.Members :=
  [("ACCESS_TOKEN_TYPE", .string Exchange.accessTokenType),
   ("AUTHORIZATION_SERVER_URL", .string Google.authorizationUrl),
   ("CLOUD_PLATFORM_SCOPE", .string Google.cloudPlatformScope),
   ("DEFAULT_METADATA_HOST", .string Environment.defaultHost),
   ("IAM_SERVICE_ACCOUNTS_URL", .string Iam.accountsUrl),
   ("JWT_BEARER_GRANT", .string ServiceAccount.grantType),
   ("METADATA_TOKEN_PATH", .string ComputeEngine.tokenPath),
   ("TOKEN_EXCHANGE_GRANT", .string Exchange.grantType),
   ("TOKEN_REVOKE_URL", .string Google.revokeUrl),
   ("TOKEN_SERVER_URL", .string Google.tokenUrl)]

def http : Json.Members :=
  [("CONTENT_TYPE_FORM", .string Http.formType),
   ("CONTENT_TYPE_JSON", .string Http.jsonType),
   ("HTTP_STATUS_BAD_REQUEST", number Http.statusBadRequest),
   ("HTTP_STATUS_NOT_FOUND", number Http.statusNotFound),
   ("HTTP_STATUS_OK", number Http.statusOk),
   ("HTTP_STATUS_SERVER_ERROR", number Http.statusServerError),
   ("METADATA_FLAVOR_HEADER", .string ComputeEngine.flavorHeader),
   ("METADATA_FLAVOR_VALUE", .string ComputeEngine.flavor),
   ("QUOTA_PROJECT_HEADER", .string Credential.quotaHeader)]

def probe : Json.Members :=
  [("COMPUTE_PING_TIMEOUT_MS", number Probe.timeout),
   ("MAX_COMPUTE_PING_TRIES", number Probe.tries)]

def retry : Json.Members :=
  [("DEFAULT_MAX_RETRIES", .number ({} : Retry.Config).maxRetries),
   ("INITIAL_RETRY_DELAY", number Retry.initialDelay),
   ("MAX_RETRY_DELAY", number Retry.mostDelay)]

def other : Json.Members :=
  [("DEFAULT_CALLBACK_URI", .string Authorizer.defaultCallback),
   ("MAX_TOKEN_LIFETIME_SECONDS", number Lifetime.most)]

def document : Json :=
  .object
    [("core", .object core), ("endpoints", .object endpoints), ("http", .object http),
     ("other", .object other), ("probe", .object probe), ("retry", .object retry)]

end Bearer.Constants
