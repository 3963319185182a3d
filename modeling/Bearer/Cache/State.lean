import Bearer.Log
import Bearer.Token

namespace Bearer.Cache

/-- Refreshes are numbered in the order in which they were started. -/
abbrev RefreshId := Nat

abbrev CallerId := Nat

abbrev ListenerId := Nat

/-- How far a started refresh has come. The executor may hold its operation before that works; when
the operation has settled, its outcome waits to be processed. A token is then installed, and told
to one listener after the other. At the end the waiters have their answer. -/
inductive Stage where
  | held
  | working
  | settled (outcome : Result Token)
  | notifying (token : Token) (current : ListenerId) (rest : List ListenerId)
  | finished (outcome : Result Token)

structure Refresh where
  stage : Stage
  /-- Those who wait for the end, in the order in which they came. -/
  waiters : List CallerId

structure State where
  token : Option Token
  /-- The refresh in flight, which later callers join. -/
  slot : Option RefreshId := none
  refreshes : List Refresh := []
  listeners : List ListenerId := []

/-- What the surroundings of a cache have to do. -/
inductive Effect where
  | log (entry : Log.Entry)
  | run (refresh : RefreshId)
  | hold (refresh : RefreshId)
  /-- Process the outcome of a refresh as soon as nothing before it is left to do. -/
  | due (refresh : RefreshId)
  | notify (refresh : RefreshId) (listener : ListenerId)
  | answer (caller : CallerId) (outcome : Result (Option Token))

structure Settings where
  logging : Bool := true

/-- How an executor starts an operation. -/
inductive Start where
  | now
  | later
  | refused (failure : Thrown)

abbrev Outcome := State × List Effect

namespace State

def freshness (s : State) (now : Double) : Freshness :=
  match s.token with
  | none => .expired
  | some t => t.freshness now

def stage? (s : State) (k : RefreshId) : Option Stage := (s.refreshes[k]?).map Refresh.stage

def setStage (s : State) (k : RefreshId) (stage : Stage) : State :=
  { s with refreshes := s.refreshes.modify k (fun r => { r with stage }) }

def join (s : State) (k : RefreshId) (caller : CallerId) : State :=
  { s with
    refreshes := s.refreshes.modify k (fun r => { r with waiters := r.waiters ++ [caller] }) }

def leave (s : State) (caller : CallerId) : State :=
  { s with
    refreshes := s.refreshes.map (fun r =>
      { r with waiters := r.waiters.filter (· ≠ caller) }) }

def waits (s : State) (caller : CallerId) : Bool :=
  s.refreshes.any (fun r => r.waiters.contains caller)

def clear (s : State) (k : RefreshId) : State :=
  if s.slot = some k then { s with slot := none } else s

end State
end Bearer.Cache
