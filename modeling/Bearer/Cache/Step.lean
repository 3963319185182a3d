import Bearer.Cache.State

namespace Bearer.Cache

namespace Settings

def say (set : Settings) (entry : Log.Entry) : List Effect :=
  if set.logging then [.log entry] else []

/-- Warns of a failure. A failure that cannot be told is not logged. -/
def warn (set : Settings) (message : String) (failure : Thrown) : List Effect :=
  if set.logging then
    match Log.warning message failure with
    | .ok entry => [.log entry]
    | .error _ => []
  else []

end Settings

namespace State
variable (set : Settings)

def start (how : Start) (s : State) : Outcome :=
  let k := s.refreshes.length
  let begun (stage : Stage) : State :=
    { s with refreshes := s.refreshes ++ [⟨stage, []⟩], slot := some k }
  let said := set.say (Log.debug "refreshing access token")
  match how with
  | .now => (begun .working, said ++ [.run k])
  | .later => (begun .held, said ++ [.hold k])
  | .refused failure => (begun (.settled (.error failure)), said ++ [.due k])

/-- What a caller gets whose signal was aborted before it could wait. -/
def turnAway (caller : CallerId) (reason : Thrown) : Effect :=
  .answer caller (.error (Fault.refreshAborted reason).thrown)

def await (caller : CallerId) (aborted : Option Thrown) (k : RefreshId) (o : Outcome) : Outcome :=
  match aborted with
  | some reason => (o.1, o.2 ++ [turnAway caller reason])
  | none => (o.1.join k caller, o.2)

/-- The caller waits for the refresh in flight, which is started if there is none. -/
def awaitSlot (caller : CallerId) (how : Start) (aborted : Option Thrown) (o : Outcome) :
    Outcome :=
  match o.1.slot with
  | some k => await caller aborted k o
  | none =>
    let (s, effects) := o.1.start set how
    await caller aborted o.1.refreshes.length (s, o.2 ++ effects)

/-- Asks for a token. The first reading of the clock decides about a refresh, the
second whether the caller is served from the cache. -/
def fetch (caller : CallerId) (how : Start) (first second : Double) (aborted : Option Thrown)
    (s : State) : Outcome :=
  let o : Outcome :=
    if s.freshness first ≠ .fresh ∧ s.slot = none then s.start set how else (s, [])
  match o.1.token with
  | some t =>
    if t.freshness second ≠ .expired then
      match aborted with
      | some reason => (o.1, o.2 ++ [turnAway caller reason])
      | none => (o.1, o.2 ++ [.answer caller (.ok (some t))])
    else awaitSlot set caller how aborted o
  | none => awaitSlot set caller how aborted o

def refresh (caller : CallerId) (aborted : Option Thrown) (s : State) : Outcome :=
  await caller aborted s.refreshes.length (s.start set .now)

def refreshIfExpired (caller : CallerId) (reading : Double) (aborted : Option Thrown)
    (s : State) : Outcome :=
  if s.freshness reading = .fresh then (s, [.answer caller (.ok none)])
  else awaitSlot set caller .now aborted (s, [])

def launch (k : RefreshId) (s : State) : Outcome :=
  match s.stage? k with
  | some .held => (s.setStage k .working, [.run k])
  | _ => (s, [])

def settle (k : RefreshId) (outcome : Result Token) (s : State) : Outcome :=
  match s.stage? k with
  | some .working => (s.setStage k (.settled outcome), [.due k])
  | _ => (s, [])

def answerOf (outcome : Result Token) (caller : CallerId) : Effect :=
  .answer caller (outcome.map some)

/-- A refresh is over: a failure is logged, and all who wait get the outcome. -/
def finish (k : RefreshId) (outcome : Result Token) (s : State) : Outcome :=
  let waiters := ((s.refreshes[k]?).map Refresh.waiters).getD []
  let said := match outcome with
    | .ok _ => []
    | .error failure => set.warn "access token refresh failed" failure
  ({ s with refreshes := s.refreshes.modify k (fun _ => ⟨.finished outcome, []⟩) },
   said ++ waiters.map (answerOf outcome))

def notifyNext (k : RefreshId) (token : Token) (left : List ListenerId) (s : State) : Outcome :=
  match left with
  | [] => s.finish set k (.ok token)
  | l :: rest => (s.setStage k (.notifying token l rest), [.notify k l])

/-- Processes the outcome of a refresh: a token is installed and told to those who
listen at this moment, a failure ends the refresh. -/
def process (k : RefreshId) (s : State) : Outcome :=
  match s.stage? k with
  | some (.settled (.ok token)) =>
    let s := { s with token := some token }.clear k
    let (s, effects) := s.notifyNext set k token s.listeners
    (s, set.say (Log.debug "access token refreshed") ++ effects)
  | some (.settled (.error failure)) => (s.clear k).finish set k (.error failure)
  | _ => (s, [])

/-- A listener has finished. Its failure is logged; only a failure that cannot be
told in the log ends the refresh. -/
def listenerDone (k : RefreshId) (failure : Option Thrown) (s : State) : Outcome :=
  match s.stage? k with
  | some (.notifying token _ rest) =>
    match failure with
    | none => s.notifyNext set k token rest
    | some failure =>
      if set.logging then
        match Log.warning "credentials change listener failed" failure with
        | .ok entry =>
          let (s, effects) := s.notifyNext set k token rest
          (s, .log entry :: effects)
        | .error failure => s.finish set k (.error failure)
      else s.notifyNext set k token rest
  | _ => (s, [])

def listen (l : ListenerId) (s : State) : Outcome :=
  ({ s with listeners := s.listeners ++ [l] }, [])

/-- A caller gives up waiting; the refresh goes on without it. -/
def abort (caller : CallerId) (reason : Thrown) (s : State) : Outcome :=
  if s.waits caller then (s.leave caller, [turnAway caller reason]) else (s, [])

/-- A callback has thrown; nothing but the log shows it. -/
def callbackFailed (failure : Thrown) (s : State) : Outcome :=
  (s, set.warn "request metadata callback failed" failure)

end State

inductive Event where
  | fetch (caller : CallerId) (how : Start) (first second : Double) (aborted : Option Thrown)
  | refresh (caller : CallerId) (aborted : Option Thrown)
  | refreshIfExpired (caller : CallerId) (reading : Double) (aborted : Option Thrown)
  | launch (k : RefreshId)
  | settle (k : RefreshId) (outcome : Result Token)
  | process (k : RefreshId)
  | listenerDone (k : RefreshId) (failure : Option Thrown)
  | listen (l : ListenerId)
  | abort (caller : CallerId) (reason : Thrown)
  | callbackFailed (failure : Thrown)

/-- One step of the cache. Every decision is one: no other caller comes between the look at the
token and the start of a refresh, and a token is installed, its refresh taken out of the slot
and its first listener called in one go. -/
def step (set : Settings) (e : Event) (s : State) : Outcome :=
  match e with
  | .fetch caller how first second aborted => s.fetch set caller how first second aborted
  | .refresh caller aborted => s.refresh set caller aborted
  | .refreshIfExpired caller reading aborted => s.refreshIfExpired set caller reading aborted
  | .launch k => s.launch k
  | .settle k outcome => s.settle k outcome
  | .process k => s.process set k
  | .listenerDone k failure => s.listenerDone set k failure
  | .listen l => s.listen l
  | .abort caller reason => s.abort caller reason
  | .callbackFailed failure => s.callbackFailed set failure

/-- A run of events, with all that it makes the surroundings do. -/
def run (set : Settings) : List Event → State → Outcome
  | [], s => (s, [])
  | e :: es, s =>
    let (s, effects) := step set e s
    let (s, more) := run set es s
    (s, effects ++ more)

end Bearer.Cache
