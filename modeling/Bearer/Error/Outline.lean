import Bearer.Error.Thrown

namespace Bearer.Outline

/-- The details of an error; a code that was set from outside goes over its own. -/
def details (kind : ErrorKind) (code : Option Json) : Json.Members :=
  let member (name : String) (v : Option Json) : Json.Members :=
    (v.map (fun v => (name, v))).toList
  let answered (status : Option Double) (body : Option String) : Json.Members :=
    member "status" (status.map .number) ++ member "body" (body.map .string)
  match kind with
  | .httpStatus status body => answered status body ++ member "code" code
  | .oauth status body own description uri =>
    answered status body ++ member "code" (code.or (own.map .string))
      ++ member "description" (description.map .string) ++ member "uri" (uri.map .string)
  | _ => member "code" code

/-- Stands for a value that has no text of its own. -/
def marker : Thrown → Option Json
  | .undefined => none
  | .null => some .null
  | .bool b => some (.bool b)
  | .number x => some (.number x)
  | .string s => some (.string s)
  | .bigint _ => some (.string "<bigint>")
  | .symbol _ => some (.string "<symbol>")
  | .function .. => some (.string "<function>")
  | _ => some (.string "<object>")

/-- The message, unless its wording is the platform's own. -/
def message (kind : ErrorKind) (text : String) : Json.Members :=
  if kind.name = PlatformFault.documentText.name then [] else [("message", .string text)]

mutual

/-- The outline of a thrown value: what went wrong, with the details of its kind, down the chain
of causes. What the platform failed with is not told. -/
def members : Thrown → Json.Members
  | .error kind text cause code _ =>
    ("error", .string kind.name) :: message kind text ++ details kind code ++ causeMembers cause
  | v =>
    ("error", .string "NonError") :: ((marker v).map (fun j => ("value", j))).toList

def causeMembers : Option Thrown → Json.Members
  | none => []
  | some .undefined => []
  | some (.error (.platform _) ..) => [("cause", .object [("platform", .bool true)])]
  | some cause => [("cause", .object (members cause))]

end

end Bearer.Outline
