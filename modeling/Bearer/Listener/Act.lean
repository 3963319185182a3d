import Bearer.Authorizer
import Bearer.Error.Outline

namespace Bearer.Listener

def see (name : String) (c : CredentialId) : Procedure Unit := do
  let token ← cachedToken c
  note (.called name token (← .query (.freshness c)))

/-- Does something and leaves on record how it went; a failure stays one. -/
def report (name : String) (p : Procedure (Option Metadata)) : Procedure Unit := do
  match ← p.attempt with
  | .ok metadata => note (.done name metadata)
  | .error failure =>
    note (.failed name failure)
    .fail failure

/-- The call of a listener that has been called so many times before. -/
def act (l : Listener) (c : CredentialId) (calls : Nat) : Procedure Unit := do
  match l with
  | saving authorizer user => authorizer.storeCredential user c
  | observing name => see name c
  | failing name times failure =>
    see name c
    if times.all (calls < ·) then .fail failure
  | fetching name times =>
    see name c
    if calls < times then
      report name (some <$> Credential.requestMetadata c .missing)
  | refreshing name times =>
    see name c
    if calls < times then report name ((fun _ => none) <$> refreshToken c)
  | refreshingIfExpired name times =>
    see name c
    if calls < times then report name ((fun _ => none) <$> refreshTokenIfExpired c)
  | adding name times other =>
    see name c
    if calls < times then .query (.listen c other)
  | waiting name times =>
    see name c
    if calls < times then .query (.gate name)

end Bearer.Listener

/-- What is on record, as a document; callbacks are told apart. -/
def Bearer.Note.document? : Note → Option Json
  | .called name token freshness =>
    some (.object
      [("name", .string name), ("token", (token.map (fun t => Json.string t.value)).getD .null),
       ("freshness", .string freshness.name), ("same", .bool true)])
  | .done name metadata =>
    some (.object
      [("name", .string name),
       ("done", (metadata.map Metadata.document).getD (.string "refreshed"))])
  | .failed name failure =>
    some (.object [("name", .string name), ("failed", .object (Outline.members failure))])
  | .calledBack .. => none
