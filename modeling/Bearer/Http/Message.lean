import Bearer.Error.Fault
import Bearer.Given
import Bearer.Json.Writer
import Bearer.Text.Form
import Bearer.Text.Units

namespace Bearer.Http

inductive Method where
  | get
  | post
deriving DecidableEq

def Method.name : Method → String
  | get => "GET"
  | post => "POST"

abbrev Headers := List (String × String)

namespace Headers

/-- Gives a header a value: in its old place, or at the end. -/
def set (hs : Headers) (name value : String) : Headers :=
  match hs with
  | [] => [(name, value)]
  | h :: rest => if h.1 = name then (name, value) :: rest else h :: set rest name value

/-- Request headers from metadata, several values of one header joined. -/
def ofMetadata (m : List (String × List String)) : Headers :=
  m.map (fun h => (h.1, ", ".intercalate h.2))

def lower (s : String) : String := s.map Char.toLower

def isPadding (c : Char) : Bool := c = ' ' || c = '\t' || c = '\n' || c = '\r'

def strip (s : String) : String :=
  String.ofList ((s.toList.dropWhile isPadding).reverse.dropWhile isPadding).reverse

/-- The value of a header, whatever the case of its name; the values of several ones are joined.
-/
def find? (hs : Headers) (name : String) : Option String :=
  match hs.filter (fun h => lower h.1 = lower name) with
  | [] => none
  | found => some (", ".intercalate (found.map (fun h => strip h.2)))

/-- A header that is there once has the value that is given there. -/
theorem find?_single (name value : String) : find? [(name, value)] name = some (strip value) := by
  rw [find?, List.filter_cons_of_pos (by simp), List.filter_nil]
  rfl

end Headers

structure Request where
  method : Method
  url : String
  headers : Given Headers := .missing
  body : Option String := none

structure Response where
  status : Nat
  headers : Headers := []
  /-- The text of the body, which may fail to be read. -/
  body : Result String

def statusOk : Nat := 200
def statusBadRequest : Nat := 400
def statusNotFound : Nat := 404
def statusServerError : Nat := 500

def contentType : String := "Content-Type"
def formType : String := "application/x-www-form-urlencoded"
def jsonType : String := "application/json"

/-- Fields, of which some may have no value. -/
abbrev Form := List (Text.Utf16 × Option Text.Utf16)

def Form.ofStrings (fields : List (String × Option String)) : Form :=
  fields.map (fun f => (f.1, f.2.map Text.Utf16.ofString))

/-- The fields of a form that have a value, as they are written. -/
def formFields (form : Form) : Text.Form.Fields :=
  form.filterMap (fun f => f.2.map (fun v => (f.1.repaired, v.repaired)))

def postForm (url : String) (form : Form) (headers : Headers := []) : Request :=
  { method := .post
    url
    headers := .value (headers.set contentType formType)
    body := some (Text.Form.render (formFields form)) }

def postJson (url : String) (data : Json) (headers : Headers := []) : Request :=
  { method := .post
    url
    headers := .value (headers.set contentType jsonType)
    body := some data.render }

end Bearer.Http
