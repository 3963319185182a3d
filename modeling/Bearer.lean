import Bearer.Authorizer
import Bearer.Cache.State
import Bearer.Cache.Step
import Bearer.ClientIdentity
import Bearer.Constants
import Bearer.Credential.Basic
import Bearer.Credential.ComputeEngine
import Bearer.Credential.Description
import Bearer.Credential.ExternalAccount
import Bearer.Credential.Grant
import Bearer.Credential.Impersonated
import Bearer.Credential.JwtAccess
import Bearer.Credential.Request
import Bearer.Credential.ServiceAccount
import Bearer.Credential.Settings
import Bearer.Credential.User
import Bearer.CredentialFile.Load
import Bearer.CredentialFile.Shape
import Bearer.Crypto.PrivateKey
import Bearer.Crypto.Sha256
import Bearer.Crypto.Signature
import Bearer.Environment
import Bearer.Error.Fault
import Bearer.Error.Outline
import Bearer.Error.Report
import Bearer.Error.Thrown
import Bearer.Exchange
import Bearer.Folder
import Bearer.Given
import Bearer.Http.Answer
import Bearer.Http.Message
import Bearer.Http.Network
import Bearer.Http.Unreachable
import Bearer.Iam.Address
import Bearer.Iam.SignBlob
import Bearer.Json.Basic
import Bearer.Json.Reader
import Bearer.Json.Writer
import Bearer.Listener
import Bearer.Listener.Act
import Bearer.Log
import Bearer.Number.Double
import Bearer.Number.Numeral
import Bearer.Number.Shortest
import Bearer.Probe
import Bearer.Procedure
import Bearer.Retry.Basic
import Bearer.Retry.Run
import Bearer.Session.Run
import Bearer.Session.State
import Bearer.Session.Step
import Bearer.SubjectToken.Retrieve
import Bearer.SubjectToken.Source
import Bearer.Text.Base64
import Bearer.Text.Blank
import Bearer.Text.Form
import Bearer.Text.Percent
import Bearer.Text.Units
import Bearer.Text.Utf8
import Bearer.Time.Calendar
import Bearer.Time.Expiry
import Bearer.Time.Reader
import Bearer.Token
import Bearer.TokenStore
import Bearer.Url.Basic
import Bearer.Url.Host
import Bearer.Url.Path
import Bearer.Url.Punycode
import Bearer.Url.Reader
import Bearer.Proofs.Cache.Calls
import Bearer.Proofs.Cache.Stages
import Bearer.Proofs.Cache.Waiters
import Bearer.Proofs.Cache.Runs
import Bearer.Proofs.Cache.SingleFlight
import Bearer.Proofs.Cache.Deadlock
import Bearer.Proofs.Cache.Course
import Bearer.Proofs.Cache.Delivery
import Bearer.Proofs.Cache.Signals
import Bearer.Proofs.Cache.Aborts
import Bearer.Proofs.Freshness
import Bearer.Proofs.Cache.Serving
import Bearer.Proofs.Cache.Installed
import Bearer.Proofs.Cache.Failures
import Bearer.Proofs.Report
import Bearer.Proofs.Cache.Isolation
import Bearer.Proofs.Cache.Notification
import Bearer.Proofs.Correspondence
import Bearer.Proofs.Cache.Renaming
import Bearer.Proofs.Cache.Secrecy
import Bearer.Proofs.Asking
import Bearer.Proofs.Session.Schedule
import Bearer.Proofs.Session.Acts
import Bearer.Proofs.Session.Sound
import Bearer.Proofs.Session.Runs
import Bearer.Proofs.Session.Whereabouts
import Bearer.Proofs.Session.Pending
import Bearer.Proofs.Session.Behind
import Bearer.Proofs.Session.Twins
import Bearer.Proofs.Session.Calling
import Bearer.Proofs.Session.Callbacks
import Bearer.Proofs.Session.Forms
import Bearer.Proofs.Number.Whole
import Bearer.Proofs.Json.Strings
import Bearer.Proofs.Json.RoundTrip
import Bearer.Proofs.TokenStore
import Bearer.Proofs.Authorizer.StoredTokens
import Bearer.Proofs.Authorizer.Calls
import Bearer.Proofs.Authorizer.RoundTrip
import Bearer.Proofs.Session.Steps
import Bearer.Proofs.Cache.Successes
import Bearer.Proofs.Session.Onward
import Bearer.Proofs.Session.Alone
import Bearer.Proofs.Authorizer.Revocation
import Bearer.Proofs.Session.Inner
import Bearer.Proofs.Authorizer.HandOut
import Bearer.Proofs.Authorizer.WriteBack
import Bearer.Proofs.Authorizer.Redemption
import Bearer.Proofs.Authorizer.Finality
import Bearer.Proofs.Retry.Outcome
import Bearer.Proofs.Number.Instants
import Bearer.Proofs.Credential.Acceptance
import Bearer.Proofs.Cache.Contents
import Bearer.Proofs.Session.Positions
import Bearer.Proofs.Session.Discipline
import Bearer.Proofs.Credential.Calls
import Bearer.Proofs.Credential.Impersonation
import Bearer.Proofs.Credential.ScopedSource
import Bearer.Proofs.Credential.SharedSource
import Bearer.Proofs.Credential.Copies
import Bearer.Proofs.Credential.Minting
import Bearer.Proofs.Lifetime
import Bearer.Proofs.Authorizer.Storeless
import Bearer.Proofs.Probe
import Bearer.Proofs.Retry.Abort
import Bearer.Proofs.Text.Utf8
import Bearer.Proofs.Text.Percent
import Bearer.Proofs.Text.Form
import Bearer.Proofs.Text.Base64
import Bearer.Proofs.Http.Forms
import Bearer.Proofs.Exchange.Client
import Bearer.Proofs.Exchange.Scopes
import Bearer.Proofs.Exchange.Answers
import Bearer.Proofs.Text.Spelling
import Bearer.Proofs.Iam.SignBlob
import Bearer.Proofs.Iam.Address
import Bearer.Proofs.CredentialFile.Shape
import Bearer.Proofs.Decisions
import Bearer.Proofs.CredentialFile.Grammar
import Bearer.Proofs.CredentialFile.Known
import Bearer.Proofs.CredentialFile.Acceptance
import Bearer.Proofs.Credential.Unreachable
import Bearer.Proofs.Url.Marks
import Bearer.Proofs.Authorizer.Consent
import Bearer.Proofs.Time.Calendar
import Bearer.Proofs.Time.Text
import Bearer.Proofs.Credential.ExpireTime
import Bearer.Proofs.Report.Places
import Bearer.Proofs.Report.Marks
import Bearer.Proofs.Text.Blank
import Bearer.Proofs.Number.Literal
import Bearer.Proofs.Http.Integers
