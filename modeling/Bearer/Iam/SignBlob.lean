import Bearer.Http.Answer
import Bearer.Iam.Address
import Bearer.Procedure
import Bearer.Text.Base64

namespace Bearer.Iam

def parseContext : String := "error parsing signBlob response"

def signRequest (account : String) (metadata : Metadata) (bytes : List UInt8) : Http.Request :=
  Http.postJson (signBlobUrl account)
    (.object [("payload", .string (Text.Base64.encodeString bytes))])
    (Http.Headers.ofMetadata metadata)

def signatureIn (response : Http.Response) : Result (List UInt8) := do
  if Http.statusBadRequest ≤ response.status ∧ response.status < Http.statusServerError then
    response.fail "error signing blob"
  else if response.status ≠ Http.statusOk then
    (Fault.blobNotSigned response.status (← response.body)).raise
  else
    let data ← response.object parseContext
    let signature ← Http.requireString data "signedBlob" parseContext
    return Text.Base64.decode signature.toList

def signBlob (account : String) (metadata : Metadata) (bytes : List UInt8) :
    Procedure (List UInt8) := do
  signatureIn (← send (signRequest account metadata bytes))

end Bearer.Iam
