import Bearer.Error.Fault
import Bearer.Given

namespace Bearer

structure ClientIdentity where
  id : String
  secret : Given String := .missing

namespace ClientIdentity

/-- The section of a client secrets document that counts: the first one that is not
null. -/
def section? (j : Json) : Option Json :=
  match j.get? "installed" with
  | none | some .null => j.get? "web"
  | found => found

def ofJson (j : Json) : Result ClientIdentity :=
  let found := section? j
  match (found.bind (Json.get? · "client_id")).bind Json.string? with
  | some id =>
    .ok ⟨id, .ofOption ((found.bind (Json.get? · "client_secret")).bind Json.string?)⟩
  | none => Fault.clientSectionRequired.raise

end ClientIdentity
end Bearer
