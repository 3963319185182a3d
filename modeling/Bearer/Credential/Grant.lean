import Bearer.Http.Answer
import Bearer.Procedure

namespace Bearer

/-- What the parts of a grant are called in failures. -/
structure Grant.Wording where
  refused : String
  unreadable : String := "error parsing token refresh response"

/-- The token in an answer, which lives from the moment of reading. -/
def tokenIn (response : Http.Response) (wording : Grant.Wording) : Procedure Token := do
  let data ← response.expectObject wording.refused wording.unreadable
  Http.tokenOf data (← now) wording.unreadable

def wholeSeconds : Procedure Double := do
  return ((← now) / Double.ofNat 1000).floor

end Bearer
