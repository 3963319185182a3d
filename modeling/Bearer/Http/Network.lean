import Bearer.Http.Message
import Bearer.Url.Reader

namespace Bearer.Http.Network

/-- What the network does with a request. -/
inductive Reply where
  | unreachable
  | failing (cause : Thrown)
  /-- The response, and after how many milliseconds it arrives. -/
  | answering (after : Double) (response : Response)

/-- A request that has left, in the spelling of the wire. -/
structure Sent where
  request : Request
  url : String
  headers : Headers

def schemes : List (List Char) := ["http".toList, "https".toList]

/-- The address of a request as it is sent, without its fragment. -/
def wireUrl? (url : String) : Option String :=
  ((Url.read? url).filter (fun u => schemes.contains u.scheme)).map (fun u =>
    { u with fragment := none }.text)

def wireHeaders (r : Request) : Headers :=
  (r.headers.getD []).map (fun h => (Headers.lower h.1, Headers.strip h.2))

def failed {α : Type} (r : Request) (cause : Thrown) : Result α :=
  (Fault.noResponse r.method.name r.url cause).raise

/-- What is wrong with a request that cannot be made at all: its address makes no sense or
names a user, or it asks with a body. -/
def flaw? (r : Request) : Option Thrown :=
  let flaw (text : String) : Thrown := .plain (.platform .invalidRequest) text
  match Url.read? r.url with
  | none =>
    some (.because (.platform .invalidRequest) ("Failed to parse URL from " ++ r.url)
      (.platform .invalidUrl))
  | some u =>
    if !u.userText.isEmpty then
      some (flaw ("Request cannot be constructed from a URL that includes credentials: " ++ r.url))
    else if r.method = .get ∧ r.body.isSome then
      some (flaw "Request with GET/HEAD method cannot have body.")
    else none

/-- Whether a request leaves, if nobody has given it up. -/
def leaves (r : Request) : Bool := (flaw? r).isNone && (wireUrl? r.url).isSome

/-- Whether a response of a status has no body, whatever comes with it. -/
def isBodyless (status : Nat) : Bool := [101, 204, 205, 304].contains status

/-- A text without the mark that it may start with. -/
def dropMark (text : String) : String :=
  match text.toList with
  | '\uFEFF' :: cs => String.ofList cs
  | _ => text

def received (r : Response) : Response :=
  { r with body := if isBodyless r.status then .ok "" else r.body.map dropMark }

/-- Sends a request. The signal of the caller may be aborted already; a limit of zero
milliseconds is none. -/
def exchange (limit : Option Double) (aborted : Option Thrown) (r : Request) (reply : Reply) :
    Result Response × Option Sent :=
  match flaw? r, aborted, wireUrl? r.url with
  | some flaw, _, _ => (failed r flaw, none)
  | none, some reason, _ => (failed r reason, none)
  | none, none, none => (failed r (.platform .fetchFailed), none)
  | none, none, some url =>
    let sent : Sent := { request := r, url, headers := wireHeaders r }
    match reply with
    | .unreachable => (failed r (.platform .fetchFailed), none)
    | .failing cause => (failed r (.fetchFailed cause), none)
    | .answering after response =>
      if (limit.filter (fun ms => (0 : Double).lt ms)).any (fun ms => ms.lt after) then
        (failed r (.platform .timedOut), some sent)
      else (.ok (received response), some sent)

end Bearer.Http.Network
