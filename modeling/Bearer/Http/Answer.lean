import Bearer.Http.Message
import Bearer.Json.Reader
import Bearer.Token

namespace Bearer.Http

def parseObject (text context : String) : Result Json.Members :=
  if Text.isBlankText text then (Fault.emptyContent context).raise
  else match Json.parse text with
    | none => (Fault.invalidDocument context).raise
    | some (.object members) => .ok members
    | some _ => (Fault.notAnObject context).raise

def Response.object (r : Response) (context : String) : Result Json.Members := do
  parseObject (← r.body) context

/-- What a look for a field finds: nothing, a document, or something that every
object answers to and that is no document. -/
inductive Found where
  | nothing
  | document (j : Json)
  | inherited

def lookup (data : Json.Members) (key : String) : Found :=
  match Json.Members.get? data key with
  | some .null => .nothing
  | some j => .document j
  | none => if Json.inheritedNames.contains key then .inherited else .nothing

def requireString (data : Json.Members) (key context : String) : Result String :=
  match lookup data key with
  | .nothing => (Fault.missingField context key).raise
  | .document (.string s) => .ok s
  | _ => (Fault.notText context key).raise

def optionalString (data : Json.Members) (key context : String) : Result (Option String) :=
  match lookup data key with
  | .nothing => .ok none
  | _ => (requireString data key context).map some

/-- The number that a field means: itself, or the one that its text spells. -/
def numberOf : Json → Double
  | .number x => x
  | .string s => if Text.isBlankText s then .nan else Double.ofText s
  | _ => .nan

def requireInteger (data : Json.Members) (key context : String) : Result Double :=
  match lookup data key with
  | .nothing => (Fault.missingField context key).raise
  | .inherited => (Fault.notAnInteger context key).raise
  | .document j =>
    match (numberOf j).toInt? with
    | some n => .ok (.finite n)
    | none => (Fault.notAnInteger context key).raise

/-- The token that an answer grants, its life counted from a reading of the clock. -/
def tokenOf (data : Json.Members) (now : Double) (context : String) : Result Token := do
  let value ← requireString data "access_token" context
  let seconds ← requireInteger data "expires_in" context
  .ok (Token.lasting value now seconds)

/-- The failure behind a response of an unexpected status: the error that its body
spells out, the message of an error object, or the whole body. -/
def failureOf (status : Nat) (body context : String) : Fault :=
  match Json.parse body with
  | some (.object data) =>
    match Json.Members.get? data "error" with
    | some (.string code) =>
      let text (key : String) := (Json.Members.get? data key).bind Json.string?
      .rejected context status body code (text "error_description") (text "error_uri")
    | some (.object inner) =>
      match Json.Members.get? inner "message" with
      | some (.string message) => .refused context message status body
      | _ => .unexpectedStatus context status body
    | _ => .unexpectedStatus context status body
  | _ => .unexpectedStatus context status body

def Response.fail {α : Type} (r : Response) (context : String) : Result α := do
  (failureOf r.status (← r.body) context).raise

def Response.expectObject (r : Response) (context parseContext : String) : Result Json.Members :=
  if r.status = statusOk then r.object parseContext else r.fail context

end Bearer.Http
