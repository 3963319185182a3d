import Bearer.Http.Network
import Bearer.Listener.Act
import Bearer.Session.State

namespace Bearer.Session

/-- The failure of a request that no answer was laid down for. -/
def unexpected (r : Http.Request) : Thrown :=
  .plain .plain ("unexpected request " ++ r.method.name ++ " " ++ r.url)

def takeReply (s : Session) (r : Http.Request) : Reply × Session :=
  match s.replies with
  | [] => ({ outcome := .error (unexpected r) }, s)
  | reply :: rest => (reply, { s with replies := rest })

/-- Sends a request through a network that wraps failures; what is on record is what
has left. -/
def transmitWrapped (s : Session) (r : Http.Request) : Reply × Session :=
  let (reply, s) := if Http.Network.leaves r then s.takeReply r
    else ({ outcome := .error (unexpected r) }, s)
  let answer : Http.Network.Reply := match reply.outcome with
    | .ok response => .answering 0 response
    | .error cause => .failing cause
  let (outcome, sent) := Http.Network.exchange none none r answer
  let s := match sent with
    | some sent => s.observe (.sent { r with url := sent.url, headers := .missing })
    | none => s
  ({ reply with outcome }, s)

def transmit (s : Session) (r : Http.Request) : Reply × Session :=
  if s.wraps then s.transmitWrapped r else (s.observe (.sent r)).takeReply r

def arrive (s : Session) (reply : Reply) (job : Job) : Session :=
  if reply.lost then s
  else
    match reply.after with
    | some ms => s.doAfter ms job
    | none => s.doNext job

/-- What comes of a token for one who asked for a token. -/
def givenToken : Result (Option Token) → Result Token
  | .ok (some t) => .ok t
  | .ok none => .error .undefined
  | .error e => .error e

def finish (s : Session) : Ending → Session
  | .operation c k outcome => s.stepCache c .direct (.settle k outcome)
  | .listener c k failure => s.doNext (.listenerDone c k failure)
  | .call name outcome => s.observe (.answered name outcome)
  | .nothing => s

def startOperation (s : Session) (id : Cache.CallerId)
    (next : Result Token → Procedure Ending) : Session :=
  let number := s.started
  let s := { s with started := number + 1 }
  match s.script.getD number none with
  | some outcome => s.doNext (.resume id (next (outcome.map (fun o => o.token s.now))))
  | none => s.block id (.operation number next)

/-- A thread goes on until it waits or ends. -/
def advance (id : Cache.CallerId) : Procedure Ending → Session → Session
  | .done (.ok e), s => s.finish e
  | .done (.error _), s => s
  | .ask .now next, s =>
    let (now, s) := s.read
    advance id (next now) s
  | .ask (.note n) next, s => advance id (next ()) (s.observe (.noted n))
  | .ask (.send r) next, s =>
    let (reply, s) := s.transmit r
    s.arrive reply (.resume id (next reply.outcome))
  | .ask (.read path) next, s =>
    s.doLater (.resume id (next (s.folder.read? path)))
  | .ask (.store call) next, s =>
    let s := s.observe (.stored call)
    let (store, outcome) := s.store.perform call
    { s with store }.doNext (.resume id (next outcome))
  | .ask (.fetch c executor signal) next, s =>
    let (first, s) := s.readFor (s.held? c).cache
    let (second, s) := s.readFor (s.held? c).cache
    let how : Cache.Start := match executor with
      | .direct => .now
      | .deferring | .manual => .later
      | .refusing failure => .refused failure
    (s.block id (.token c signal (fun r => next (givenToken r)))).stepCache c executor
      (.fetch id how first second (s.reason? signal))
  | .ask (.refresh c signal) next, s =>
    (s.block id (.token c signal (fun r => next (r.map (fun _ => ()))))).stepCache c .direct
      (.refresh id (s.reason? signal))
  | .ask (.refreshIfExpired c signal) next, s =>
    let (reading, s) := s.readFor (s.held? c).cache
    (s.block id (.token c signal (fun r => next (r.map (fun _ => ()))))).stepCache c .direct
      (.refreshIfExpired id reading (s.reason? signal))
  | .ask (.credential c) next, s => advance id (next (s.held? c).credential) s
  | .ask (.cached c) next, s => advance id (next (s.held? c).cache.token) s
  | .ask (.freshness c) next, s =>
    let cache := (s.held? c).cache
    let (reading, s) := s.readFor cache
    advance id (next (cache.freshness reading)) s
  | .ask (.create credential) next, s =>
    advance id (next s.held.length)
      { s with held := s.held ++ [{ credential, cache := { token := credential.token } }] }
  | .ask (.redirect c source) next, s =>
    advance id (next ()) (s.modifyHeld c (fun h =>
      match h.credential.kind with
      | .impersonated i =>
        { h with credential := { h.credential with kind := .impersonated { i with source } } }
      | _ => h))
  | .ask (.listen c l) next, s =>
    let number := (s.held? c).listeners.length
    advance id (next ()) ((s.modifyHeld c (fun h =>
      { h with listeners := h.listeners ++ [(l, 0)] })).stepCache c .direct (.listen number))
  | .ask (.callbackFailed c failure) next, s =>
    advance id (next ()) (s.stepCache c .direct (.callbackFailed failure))
  | .ask (.operation _) next, s => s.startOperation id next
  | .ask (.gate name) next, s => s.block id (.gate name next)
  | .ask .rest next, s => s.doLater (.resume id (next ()))

def spawn (s : Session) (program : Procedure Ending) : Session :=
  advance s.born program { s with born := s.born + 1 }

def runOperation (s : Session) (c : CredentialId) (k : Cache.RefreshId) : Session :=
  s.spawn ((Ending.operation c k) <$> (Credential.requestToken c).attempt)

def failureOf : Result Unit → Option Thrown
  | .ok _ => none
  | .error failure => some failure

def callListener (s : Session) (c : CredentialId) (k : Cache.RefreshId) (l : Cache.ListenerId) :
    Session :=
  match (s.held? c).listeners[l]? with
  | none => s.doNext (.listenerDone c k none)
  | some (listener, calls) =>
    let s := s.modifyHeld c (fun h =>
      { h with listeners := h.listeners.set l (listener, calls + 1) })
    s.spawn ((fun r => Ending.listener c k (failureOf r)) <$> (listener.act c calls).attempt)

def answer (s : Session) (id : Cache.CallerId) (outcome : Result (Option Token)) : Session :=
  match s.thread? id with
  | some ⟨_, .token _ _ next⟩ => (s.forget id).doNext (.resume id (next outcome))
  | _ => s

/-- Does a piece of work. A thread goes on until it has to wait; what a cache wants done is done
before anything else; what is due later is done in the order in which it became due. -/
def perform (s : Session) : Job → Session
  | .resume id program => advance id program s
  | .effect _ _ (.log entry) => s.observe (.logged entry)
  | .effect c _ (.run k) => s.runOperation c k
  | .effect c executor (.hold k) =>
    match executor with
    | .manual => { s with kept := s.kept ++ [.launch c k] }
    | _ => s.doLater (.launch c k)
  | .effect c _ (.due k) => s.doNext (.process c k)
  | .effect c _ (.notify k l) => s.callListener c k l
  | .effect _ _ (.answer caller outcome) => s.answer caller outcome
  | .launch c k => s.stepCache c .direct (.launch k)
  | .process c k => s.stepCache c .direct (.process k)
  | .listenerDone c k failure => s.stepCache c .direct (.listenerDone k failure)

end Bearer.Session
