import Bearer.Json.Basic
import Bearer.Time.Expiry

namespace Bearer

/-- Failures that the platform raises rather than this library. -/
inductive PlatformFault where
  | documentText
  | fileSystem
  | keyText
  | aborted
  | timedOut
  | fetchFailed
  | invalidUrl
  | invalidRequest
  | invalidTime
  | bigInteger
  | weakKey
  | wrongKey
  | notIterable
deriving DecidableEq

namespace PlatformFault

def name : PlatformFault → String
  | documentText => "SyntaxError"
  | fileSystem | keyText => "Error"
  | aborted => "AbortError"
  | timedOut => "TimeoutError"
  | fetchFailed | invalidUrl | invalidRequest | bigInteger | weakKey | wrongKey
  | notIterable => "TypeError"
  | invalidTime => "RangeError"

/-- Stands for a wording that is the platform's own. -/
def unworded : String := "<platform>"

def message : PlatformFault → String
  | documentText | fileSystem | keyText | notIterable => unworded
  | aborted => "This operation was aborted"
  | timedOut => "The operation was aborted due to timeout"
  | fetchFailed => "fetch failed"
  | invalidUrl => "Invalid URL"
  | invalidRequest => "Invalid request"
  | invalidTime => "Invalid time value"
  | bigInteger => "Do not know how to serialize a BigInt"
  | weakKey => "RS256 requires key modulusLength to be 2048 bits or larger"
  | wrongKey => "Invalid key for this operation, its asymmetricKeyType must be rsa"

end PlatformFault

inductive ErrorKind where
  | plain
  | type
  | range
  | aggregate
  | refreshNotSupported
  | refreshAborted
  | credential
  | transport
  | metadataServerUnavailable
  | malformedResponse
  | config
  | scopesRequired
  | nonRetryable
  | httpStatus (status : Option Double) (body : Option String)
  | oauth (status : Option Double) (body : Option String) (code : Option String)
      (description uri : Option String)
  | platform (fault : PlatformFault)
deriving DecidableEq

namespace ErrorKind

def name : ErrorKind → String
  | plain => "Error"
  | type => "TypeError"
  | range => "RangeError"
  | aggregate => "AggregateError"
  | refreshNotSupported => "RefreshNotSupportedError"
  | refreshAborted => "RefreshAbortedError"
  | credential => "CredentialError"
  | transport => "TransportError"
  | metadataServerUnavailable => "MetadataServerUnavailableError"
  | malformedResponse => "MalformedResponseError"
  | config => "CredentialConfigError"
  | scopesRequired => "ScopesRequiredError"
  | nonRetryable => "NonRetryableError"
  | httpStatus .. => "HttpStatusError"
  | oauth .. => "OAuthError"
  | platform fault => fault.name

/-- The kinds that nothing but their name tells apart. -/
def simple : List ErrorKind :=
  [plain, type, range, aggregate, refreshNotSupported, refreshAborted, credential, transport,
   metadataServerUnavailable, malformedResponse, config, scopesRequired, nonRetryable]

def ofName? (name : String) : Option ErrorKind := simple.find? (fun k => k.name = name)

end ErrorKind

/-- What is thrown: an error with a chain of causes, or any other value, down to graphs of
objects and lists. A graph is written as a tree: an object or list that occurs in several places
carries a label in one of them and is referred to by it in the others. -/
inductive Thrown where
  | undefined
  | null
  | bool (b : Bool)
  | number (x : Double)
  | string (s : String)
  | bigint (n : Int)
  | symbol (description : Option String)
  /-- A function. A call of it gives nothing, or fails with this. So an object that fails to be
  read is one whose `toJSON` fails. -/
  | function (name : String) (failure : Option Thrown)
  | date (instant : Expiry)
  | object (label : Option String) (entries : List (String × Thrown))
  | array (label : Option String) (items : List Thrown)
  | reference (label : String)
  | error (kind : ErrorKind) (message : String) (cause : Option Thrown) (code : Option Json)
      (errors : List Thrown)

namespace Thrown

instance : Inhabited Thrown := ⟨undefined⟩

def isError : Thrown → Bool
  | error .. => true
  | _ => false

def kind? : Thrown → Option ErrorKind
  | error kind .. => some kind
  | _ => none

def plain (kind : ErrorKind) (message : String) : Thrown := error kind message none none []

def because (kind : ErrorKind) (message : String) (cause : Thrown) : Thrown :=
  error kind message (some cause) none []

def platform (fault : PlatformFault) : Thrown := plain (.platform fault) fault.message

/-- A failed call to the network, with what the network failed with. -/
def fetchFailed (cause : Thrown) : Thrown :=
  because (.platform .fetchFailed) PlatformFault.fetchFailed.message cause

mutual

def ofJson : Json → Thrown
  | .null => null
  | .bool b => bool b
  | .number x => number x
  | .string s => string s
  | .array items => array none (ofItems items)
  | .object members => object none (ofMembers members)

def ofItems : List Json → List Thrown
  | [] => []
  | v :: vs => ofJson v :: ofItems vs

def ofMembers : List (String × Json) → List (String × Thrown)
  | [] => []
  | (name, v) :: ms => (name, ofJson v) :: ofMembers ms

end

mutual

/-- The text of a failure in a sentence: the message of an error, or the value. -/
def reason : Thrown → String
  | undefined => "undefined"
  | null => "null"
  | bool true => "true"
  | bool false => "false"
  | number x => x.text
  | string s => s
  | bigint n => toString n
  | symbol description => "Symbol(" ++ description.getD "" ++ ")"
  | error _ message .. => message
  | array _ items => ",".intercalate (reasons items)
  | _ => "[object Object]"

def reasons : List Thrown → List String
  | [] => []
  | undefined :: vs => "" :: reasons vs
  | null :: vs => "" :: reasons vs
  | v :: vs => reason v :: reasons vs

end

end Thrown

/-- What a call comes to that may throw. -/
abbrev Result := Except Thrown

theorem Result.bind_eq_ok {α β : Type} {x : Result α} {f : α → Result β} {b : β}
    (h : (x >>= f) = .ok b) : ∃ a, x = .ok a ∧ f a = .ok b := by
  cases x with
  | error e => cases h
  | ok a => exact ⟨a, rfl, h⟩

theorem Result.bind_eq_error {α β : Type} {x : Result α} {f : α → Result β} {e : Thrown}
    (h : (x >>= f) = .error e) : x = .error e ∨ ∃ a, x = .ok a ∧ f a = .error e := by
  cases x with
  | error e' =>
    cases h
    exact .inl rfl
  | ok a => exact .inr ⟨a, rfl, h⟩

end Bearer
