import Bearer.Error.Fault

namespace Bearer.Iam

def accountsUrl : String :=
  "https://iamcredentials.googleapis.com/v1/projects/-/serviceAccounts"

def generateSuffix : String := ":generateAccessToken"

def signSuffix : String := ":signBlob"

def generateAccessTokenUrl (account : String) : String :=
  accountsUrl ++ "/" ++ account ++ generateSuffix

def signBlobUrl (account : String) : String := accountsUrl ++ "/" ++ account ++ signSuffix

/-- What stands before the last occurrence of a mark. -/
def beforeLast? (mark : List Char) : List Char → Option (List Char)
  | [] => if mark.isEmpty then some [] else none
  | c :: cs =>
    match beforeLast? mark cs with
    | some before => some (c :: before)
    | none => if mark.isPrefixOf (c :: cs) then some [] else none

def afterLastSlash? (cs : List Char) : Option (List Char) :=
  (beforeLast? ['/'] cs).map (fun before => cs.drop (before.length + 1))

/-- The account that an address for generating tokens names: it stands between a
slash and the last suffix, and is not empty. -/
def targetPrincipal? (url : String) : Option String := do
  let account ← (← beforeLast? generateSuffix.toList url.toList) |> afterLastSlash?
  if account.isEmpty then none else some (String.ofList account)

def targetPrincipal (url : String) : Result String :=
  match targetPrincipal? url with
  | some account => .ok account
  | none => (Fault.noTargetPrincipal url).raise

end Bearer.Iam
