import Bearer.Authorizer
import Bearer.Cache.Step
import Bearer.Folder

namespace Bearer

structure Session.Reply where
  outcome : Result Http.Response
  /-- Milliseconds until the answer arrives, if that takes a while. -/
  after : Option Double := none
  lost : Bool := false

/-- A token to come, which ends at an instant or so many milliseconds after it came. -/
structure Session.Offer where
  value : String
  ends : Option Double := none
  lasts : Option Double := none

inductive Session.Answer where
  | nothing
  | metadata (m : Metadata)
  | token (t : Token)
  | bytes (bs : List UInt8)
  | text (s : String)
  | credential (c : Option CredentialId)
  | stored (tokens : Option String)
  | exchanged (a : Exchange.Answer)

namespace Session

def Offer.token (o : Offer) (now : Double) : Token :=
  match o.ends, o.lasts with
  | some ms, _ => ⟨o.value, .ofNumber ms⟩
  | none, some ms => ⟨o.value, .ofNumber (now + ms)⟩
  | none, none => ⟨o.value, .never⟩

/-- What becomes of a thread that has come to its end. -/
inductive Ending where
  | operation (c : CredentialId) (k : Cache.RefreshId) (outcome : Result Token)
  | listener (c : CredentialId) (k : Cache.RefreshId) (failure : Option Thrown)
  | call (name : String) (outcome : Result Answer)
  | nothing

/-- What a thread waits for that has no time set. -/
inductive Waiting where
  | token (c : CredentialId) (signal : Option Signal)
      (next : Result (Option Token) → Procedure Ending)
  | operation (number : Nat) (next : Result Token → Procedure Ending)
  | gate (name : String) (next : Unit → Procedure Ending)

structure Thread where
  id : Cache.CallerId
  waiting : Waiting

inductive Job where
  | resume (thread : Cache.CallerId) (program : Procedure Ending)
  | effect (c : CredentialId) (executor : Executor) (e : Cache.Effect)
  | launch (c : CredentialId) (k : Cache.RefreshId)
  | process (c : CredentialId) (k : Cache.RefreshId)
  | listenerDone (c : CredentialId) (k : Cache.RefreshId) (failure : Option Thrown)

structure Held where
  credential : Credential
  cache : Cache.State
  /-- The listeners, each with the number of calls it has had. -/
  listeners : List (Listener × Nat) := []

instance : Inhabited Held := ⟨{ credential := default, cache := { token := none } }⟩

inductive Observation where
  | logged (entry : Log.Entry)
  | sent (request : Http.Request)
  | stored (call : TokenStore.Call)
  | noted (n : Note)
  | answered (call : String) (outcome : Result Answer)

end Session

/-- Credentials at work in a world that is laid down beforehand. Servers answer from a list,
time passes only when nothing else can happen, and all that can be seen from outside is kept in
the order in which it happened. -/
structure Session where
  now : Double
  /-- How far off the next readings of the clock are. -/
  offsets : List Double := []
  held : List Session.Held := []
  threads : List Session.Thread := []
  born : Nat := 0
  /-- Work that belongs to what is being done, to be done first. -/
  inner : List Session.Job := []
  agenda : List Session.Job := []
  /-- Work to be done when there is nothing on the agenda. -/
  deferred : List Session.Job := []
  kept : List Session.Job := []
  timers : List (Double × Session.Job) := []
  replies : List Session.Reply := []
  /-- The network may wrap its failures, and then tells nothing of failed requests. -/
  wraps : Bool := false
  folder : Folder := {}
  store : TokenStore := {}
  aborted : List (Signal × Thrown) := []
  /-- How operations of the application end, in the order in which they start; those
  not listed stay open. -/
  script : List (Option (Result Session.Offer)) := []
  started : Nat := 0
  /-- All that was seen, the latest first. -/
  trace : List Session.Observation := []

namespace Session

def observe (s : Session) (o : Observation) : Session := { s with trace := o :: s.trace }

def held? (s : Session) (c : CredentialId) : Held := s.held.getD c default

def read (s : Session) : Double × Session :=
  match s.offsets with
  | [] => (s.now, s)
  | offset :: rest => (s.now + offset, { s with offsets := rest })

/-- Reads the clock to judge a cache; a token that never ends needs no reading. -/
def readFor (s : Session) (cache : Cache.State) : Double × Session :=
  match cache.token with
  | some t => if t.expiry = .never then (s.now, s) else s.read
  | none => (s.now, s)

def modifyHeld (s : Session) (c : CredentialId) (f : Held → Held) : Session :=
  { s with held := s.held.modify c f }

def doFirst (s : Session) (jobs : List Job) : Session := { s with inner := jobs ++ s.inner }

def doNext (s : Session) (job : Job) : Session := { s with agenda := s.agenda ++ [job] }

def doLater (s : Session) (job : Job) : Session := { s with deferred := s.deferred ++ [job] }

/-- Sets a time for work; of two times alike the earlier set one comes first. -/
def doAfter (s : Session) (ms : Double) (job : Job) : Session :=
  let ms := if (0 : Double).lt ms then ms else 0
  { s with timers := s.timers ++ [(s.now + ms, job)] }

def block (s : Session) (id : Cache.CallerId) (waiting : Waiting) : Session :=
  { s with threads := s.threads ++ [⟨id, waiting⟩] }

def thread? (s : Session) (id : Cache.CallerId) : Option Thread :=
  s.threads.find? (fun t => t.id = id)

def forget (s : Session) (id : Cache.CallerId) : Session :=
  { s with threads := s.threads.filter (fun t => t.id ≠ id) }

def reason? (s : Session) (signal : Option Signal) : Option Thrown :=
  signal.bind (fun name => (s.aborted.find? (fun a => a.1 = name)).map Prod.snd)

/-- Lets the cache of a credential take a step; what it wants done is done first. -/
def stepCache (s : Session) (c : CredentialId) (executor : Executor) (e : Cache.Event) :
    Session :=
  let h := s.held? c
  let (cache, effects) := Cache.step ⟨h.credential.logging⟩ e h.cache
  (s.modifyHeld c (fun h => { h with cache })).doFirst (effects.map (.effect c executor))

end Session
end Bearer
