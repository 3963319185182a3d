import Bearer.Http.Answer
import Bearer.Procedure

namespace Bearer.SubjectToken

def Format.extract (f : Format) (content origin : String) : Result String :=
  match f with
  | .text => .ok content
  | .json field => do
    let context := "error parsing subject token from " ++ origin
    Http.requireString (← Http.parseObject content context) field context

def Source.retrieve : Source → Procedure String
  | .supplied outcome => .ofResult outcome
  | .file path format => do
    match ← readFile path with
    | some bytes => format.extract (String.ofList (Text.Utf8.decode bytes)) ("file " ++ path)
    | none => .raise (.unreadableTokenFile path)
  | .url address headers format => do
    let response ← send { method := .get, url := address, headers }
    let body ← response.body
    if response.status = Http.statusOk then format.extract body address
    else
      .raise (.unexpectedStatus ("error retrieving subject token from " ++ address)
        response.status body)

end Bearer.SubjectToken
