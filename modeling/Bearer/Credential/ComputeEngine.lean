import Bearer.Credential.Grant
import Bearer.Http.Unreachable

namespace Bearer.ComputeEngine

def flavorHeader : String := "Metadata-Flavor"

def flavor : String := "Google"

def parseContext : String := "error parsing token refresh response"

def request (url : String) : Http.Request :=
  { method := .get, url, headers := .value [(flavorHeader, flavor)] }

/-- What a failed request means: with a host that is not known there is no metadata
server. -/
def failure (thrown : Thrown) : Thrown :=
  if Http.isHostNotFound thrown then (Fault.metadataServerUnavailable thrown).thrown else thrown

def requestToken (c : ComputeEngine) : Procedure Token := do
  match ← (send (request c.tokenUrl)).attempt with
  | .error thrown => .fail (failure thrown)
  | .ok response =>
    if response.status = Http.statusOk then
      Http.tokenOf (← response.object parseContext) (← now) parseContext
    else
      let body ← response.body
      if response.status = Http.statusNotFound then
        .raise (.metadataNotFound response.status body)
      else .raise (.metadataStatus response.status body)

end Bearer.ComputeEngine
