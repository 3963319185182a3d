import Bearer.Http.Message

namespace Bearer.SubjectToken

/-- How a token is kept: as the whole text, or in a field of a document. -/
inductive Format where
  | text
  | json (field : String)

inductive Source where
  | file (path : String) (format : Format)
  | url (url : String) (headers : Given Http.Headers) (format : Format)
  /-- The application brings the token itself, or fails to. -/
  | supplied (outcome : Result String)

structure Section where
  file : Given String := .missing
  url : Given String := .missing
  headers : Given Http.Headers := .missing
  environmentId : Given String := .missing
  isJson : Bool := false
  fieldName : Given String := .missing

/-- The format that the settings ask for; a document needs a field to look at. -/
def Section.format (s : Section) : Result Format :=
  if s.isJson then
    match s.fieldName.filled? with
    | some field => .ok (.json field)
    | none => Fault.fieldNameRequired.raise
  else .ok .text

/-- The source that the settings describe; a file comes before an address. -/
def Source.ofSection (s : Section) : Result Source := do
  let format ← s.format
  match s.environmentId.filled? with
  | some id => (Fault.unsupportedEnvironment id).raise
  | none =>
    match s.file.filled?, s.url.filled? with
    | some path, _ => .ok (.file path format)
    | none, some address => .ok (.url address s.headers format)
    | none, none => Fault.sourceRequired.raise

end Bearer.SubjectToken
