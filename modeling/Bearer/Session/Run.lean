import Bearer.Credential.Description
import Bearer.Session.Step

namespace Bearer.Session

/-- The earliest of some timers; of two alike the earlier set one. -/
def earliest? (timers : List (Double × Job)) : Option (Double × Job) :=
  timers.foldl (fun best t => match best with
    | none => some t
    | some b => if t.1.lt b.1 then some t else some b) none

def dropFirst (at_ : Double) : List (Double × Job) → List (Double × Job)
  | [] => []
  | t :: later => if t.1 = at_ then later else t :: dropFirst at_ later

/-- The next piece of work. Time passes only when there is none without a time. -/
def takeJob? (s : Session) : Option (Job × Session) :=
  match s.inner, s.agenda, s.deferred with
  | job :: rest, _, _ => some (job, { s with inner := rest })
  | [], job :: rest, _ => some (job, { s with agenda := rest })
  | [], [], job :: rest => some (job, { s with deferred := rest })
  | [], [], [] =>
    (earliest? s.timers).map (fun t =>
      (t.2, { s with
        now := if s.now.lt t.1 then t.1 else s.now
        timers := dropFirst t.1 s.timers }))

/-- Does so many pieces of work, or all there are. -/
def work : Nat → Session → Session
  | 0, s => s
  | n + 1, s =>
    match s.takeJob? with
    | none => s
    | some (job, s) => work n (s.perform job)

/-- Does so many pieces of the work that belongs to what is being done. -/
def workInner : Nat → Session → Session
  | 0, s => s
  | n + 1, s =>
    match s.inner with
    | [] => s
    | job :: rest => workInner n ({ s with inner := rest }.perform job)

/-- How many pieces of work are done at most, so that a session can be evaluated. -/
def plenty : Nat := 1000000

def settle (s : Session) : Session := work plenty s

def finishCall (s : Session) : Session := workInner plenty s

/-- Makes a call, up to where the caller has to wait. -/
def call (s : Session) (name : String) (program : Procedure Answer) : Session :=
  (s.spawn ((Ending.call name) <$> program.attempt)).finishCall

/-- Does something whose outcome nobody asks for. -/
def quietly (s : Session) (program : Procedure Unit) : Session :=
  (s.spawn ((fun _ => Ending.nothing) <$> program.attempt)).finishCall

def waitsFor (signal : Signal) (t : Thread) : Option (CredentialId × Cache.CallerId) :=
  match t.waiting with
  | .token c (some name) _ => if name = signal then some (c, t.id) else none
  | _ => none

/-- Aborts a signal: all who wait under it give up, in the order in which they came. A
signal is aborted only once. -/
def abort (s : Session) (signal : Signal) (reason : Thrown) : Session :=
  if s.aborted.any (fun a => a.1 = signal) then s
  else
    let waiting := s.threads.filterMap (waitsFor signal)
    let s := { s with aborted := (signal, reason) :: s.aborted }
    (waiting.foldl (fun s w => (s.stepCache w.1 .direct (.abort w.2 reason)).finishCall) s)

/-- The operations of the application that have started and not ended, by number. -/
def openOperations (s : Session) : List Nat :=
  s.threads.filterMap (fun t => match t.waiting with
    | .operation number _ => some number
    | _ => none)

def endOperation (s : Session) (number : Nat) (outcome : Result Offer) : Session :=
  let isIt (t : Thread) : Option (Cache.CallerId × (Result Token → Procedure Ending)) :=
    match t.waiting with
    | .operation n next => if n = number then some (t.id, next) else none
    | _ => none
  match s.threads.findSome? isIt with
  | some (id, next) =>
    (s.forget id).doNext (.resume id (next (outcome.map (fun o => o.token s.now))))
  | none => s

/-- Lets the first one pass that waits at a gate. -/
def release (s : Session) (gate : String) : Session :=
  let isIt (t : Thread) : Option (Cache.CallerId × (Unit → Procedure Ending)) :=
    match t.waiting with
    | .gate name next => if name = gate then some (t.id, next) else none
    | _ => none
  match s.threads.findSome? isIt with
  | some (id, next) => (s.forget id).doNext (.resume id (next ()))
  | none => s

def runKept (s : Session) : Session := ({ s with kept := [] }.doFirst s.kept).finishCall

def pass (s : Session) (ms : Double) : Session := { s with now := s.now + ms }

def takeTrace (s : Session) : List Observation × Session :=
  (s.trace.reverse, { s with trace := [] })

def Observation.logged? : Observation → Option Log.Entry
  | .logged e => some e
  | _ => none

def Observation.request? : Observation → Option Http.Request
  | .sent r => some r
  | _ => none

def Observation.storeCall? : Observation → Option TokenStore.Call
  | .stored c => some c
  | _ => none

def Observation.note? : Observation → Option Note
  | .noted n => some n
  | _ => none

def Observation.answer? : Observation → Option (String × Result Answer)
  | .answered call outcome => some (call, outcome)
  | _ => none

/-- Makes a call and lets everything happen: how the call ends, if it does, and all
that is seen meanwhile. -/
def complete (s : Session) (program : Procedure Answer) :
    Option (Result Answer) × List Observation × Session :=
  let (seen, s) := ((s.call "" program).settle).takeTrace
  ((seen.findSome? Observation.answer?).map Prod.snd, seen, s)

def cachedToken (s : Session) (c : CredentialId) : Option Token := (s.held? c).cache.token

def freshness (s : Session) (c : CredentialId) : Freshness :=
  (s.held? c).cache.freshness s.now

def describe (s : Session) (c : CredentialId) : Json :=
  (s.held? c).credential.describe (fun d => (s.held? d).credential.kind.name)

end Bearer.Session
