import Bearer.Error.Fault

namespace Bearer.Http

def hostNotFoundCodes : List String := ["ENOTFOUND", "EAI_AGAIN"]

/-- The code of an error: the one that it was given, or the one that a server told. -/
def code? : ErrorKind → Option Json → Option Json
  | _, some code => some code
  | .oauth _ _ (some code) _ _, none => some (.string code)
  | _, none => none

/-- Whether some error in the chain of causes has such a code. -/
def isHostNotFound : Thrown → Bool
  | .error kind _ cause code _ =>
    ((code? kind code).any (fun c => hostNotFoundCodes.contains c.plainText))
      || (match cause with
        | some cause => isHostNotFound cause
        | none => false)
  | _ => false

end Bearer.Http
