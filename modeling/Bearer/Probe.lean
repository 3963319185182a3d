import Bearer.Credential.ComputeEngine
import Bearer.Environment
import Bearer.Retry.Run
import Bearer.Session.Step

namespace Bearer.Probe

def tries : Nat := 3

/-- Milliseconds that one try may take. -/
def timeout : Nat := 500

def config : Retry.Config :=
  { name := "compute engine probe", maxRetries := Double.ofNat (tries - 1)
    timeout := Double.ofNat timeout }

def policy (logging : Bool) : Retry.Policy :=
  { config, delay := Retry.doublingDelay, accepts := Retry.isRetryable, logging }

/-- Whether a response has the mark of a metadata server; its body has to be readable. -/
def isMarked (r : Http.Response) : Result Bool := do
  let _ ← r.body
  return r.headers.find? ComputeEngine.flavorHeader = some ComputeEngine.flavor

/-- How a try goes, given the answers laid down for the tries. -/
def behaviour (request : Http.Request) (replies : List Session.Reply) (attempt : Nat) :
    Retry.Behaviour Bool :=
  match replies[attempt]? with
  | none => .ends none (.error (Session.unexpected request))
  | some reply =>
    if reply.lost then .hangs else .ends reply.after (reply.outcome.bind isMarked)

structure Report where
  ended : Retry.Ended Bool
  requests : List Http.Request := []
  log : List Log.Entry := []
  elapsed : Double := 0

def Report.found (r : Report) : Bool :=
  match r.ended with
  | .finished (.ok found) => found
  | _ => false

/-- A failure of all tries means that there is no metadata server, if the log can tell it. -/
def conclude (logging : Bool) : Retry.Ended Bool → Retry.Ended Bool × List Log.Entry
  | .finished (.error failure) =>
    if logging then
      match Log.warning "failed to detect whether running on compute engine" failure with
      | .ok entry => (.finished (.ok false), [entry])
      | .error failure => (.finished (.error failure), [])
    else (.finished (.ok false), [])
  | ended => (ended, [])

def run (e : Environment) (replies : List Session.Reply) (logging : Bool) : Report :=
  if e.skipsProbe then { ended := .finished (.ok false) }
  else
    let request := ComputeEngine.request e.metadataServer
    let (ended, p) := Retry.run (policy logging) (behaviour request replies) none
    let (ended, said) := conclude logging ended
    { ended, requests := p.calls.map (fun _ => request), log := p.log ++ said
      elapsed := p.now.time }

end Bearer.Probe
