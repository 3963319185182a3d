import Bearer.Retry.Basic

namespace Bearer.Retry

structure Call where
  attempt : Nat
  time : Double
  timedOut : Bool := false

inductive Question where
  | delay (f : Failed)
  | accepts (f : Failed)

structure Progress where
  now : Moment := .start
  serial : Nat := 2
  calls : List Call := []
  /-- The timers that attempts set for themselves. -/
  timers : List Moment := []
  log : List Log.Entry := []
  asked : List Question := []

/-- How a run ends: with an outcome, or never. -/
inductive Ended (α : Type) where
  | finished (outcome : Result α)
  | never

structure End (α : Type) where
  moment : Moment
  timedOut : Bool
  outcome : Result α

section Run
variable {α : Type} (policy : Policy) (behaviour : Nat → Behaviour α) (abort : Option Abort)

def Progress.say (p : Progress) (level : Log.Level) (text : String)
    (details : Option Json := none) : Progress :=
  if policy.logging then
    { p with log := p.log ++ [⟨level, policy.config.name ++ text, details⟩] }
  else p

def numbered (attempt : Nat) : String := " attempt #" ++ toString attempt

def overdue (attempt : Nat) : Thrown :=
  (Fault.attemptTimedOut policy.config.name attempt policy.config.timeout.text).thrown

/-- How an attempt that starts now ends, if it ever does. The limit is set before the
attempt sets a timer of its own, and so comes first of two alike. -/
def endOf (p : Progress) (attempt : Nat) : Option (End α) :=
  let limit? := policy.limit?.map (fun ms => p.now.later ms p.serial)
  let late (outcome : Result α) : Option (End α) := limit?.map (fun m => ⟨m, true, outcome⟩)
  match behaviour attempt with
  | .ends none outcome => some ⟨p.now, false, outcome⟩
  | .ends (some ms) outcome =>
    let done := p.now.later ms (p.serial + 1)
    if limit?.any (fun m => m.before done) then late (.error (overdue policy attempt))
    else some ⟨done, false, outcome⟩
  | .hangs => late (.error (overdue policy attempt))
  | .untilAborted failure =>
    match pending? abort p.now with
    | some at_ =>
      if limit?.any (fun m => m.before at_) then late (.error failure)
      else some ⟨at_, false, .error failure⟩
    | none => late (.error failure)

def ownTimer (p : Progress) (attempt : Nat) : List Moment :=
  match behaviour attempt with
  | .ends (some ms) _ => [p.now.later ms (p.serial + 1)]
  | _ => []

def Progress.begin (p : Progress) (attempt : Nat) (timedOut : Bool) : Progress :=
  { p with
    serial := p.serial + 2
    calls := p.calls ++ [⟨attempt, p.now.time, timedOut⟩]
    timers := p.timers ++ ownTimer behaviour p attempt }

/-- Waits, but not beyond an abort. -/
def Progress.wait (p : Progress) (ms : Double) : Progress :=
  let done := p.now.later ms p.serial
  let now := match pending? abort p.now with
    | some at_ => if at_.before done then at_ else done
    | none => done
  { p with now, serial := p.serial + 1 }

/-- The failure of the last attempt, unless it cannot even be told in the log. -/
def lastFailure (failure : Thrown) : Option Json × Thrown :=
  if policy.logging then
    match Report.ofThrown failure with
    | .ok details => (some details, failure)
    | .error failure => (none, failure)
  else (none, failure)

def giveUp (p : Progress) (attempt : Nat) (failure : Thrown) : Ended α × Progress :=
  match lastFailure policy failure with
  | (some details, failure) =>
    (.finished (.error failure),
     p.say policy .debug (" stopped retrying after " ++ toString (attempt + 1) ++ " attempts")
      (some details))
  | (none, failure) => (.finished (.error failure), p)

def abortDetails (attempt : Nat) : Json :=
  .object
    [("name", .string policy.config.name),
     ("maxRetries", .number policy.config.maxRetries),
     ("timeout", .number policy.config.timeout),
     ("attempt", .number (Double.ofNat attempt))]

/-- The attempts from one on; the first number bounds how many there are. -/
def attempts : Nat → Nat → Progress → Ended α × Progress
  | 0, _, p => (.never, p)
  | fuel + 1, attempt, p =>
    match abort with
    | some ⟨_, reason⟩ =>
      if isAborted abort p.now then
        (.finished (Fault.retryAborted policy.config.name reason).raise,
         p.say policy .info " aborted" (some (abortDetails policy attempt)))
      else one fuel attempt p
    | none => one fuel attempt p
where
  one (fuel attempt : Nat) (p : Progress) : Ended α × Progress :=
    let p := p.say policy .debug (numbered attempt)
    match endOf policy behaviour abort p attempt with
    | none => (.never, p.begin behaviour attempt false)
    | some e =>
      let p := { p.begin behaviour attempt e.timedOut with now := e.moment }
      let p := if e.timedOut then
          p.say policy .warn (numbered attempt ++ " exceeded timeout "
            ++ policy.config.timeout.text ++ "ms")
        else p
      match e.outcome with
      | .ok a =>
        (.finished (.ok a), p.say policy .debug (" success on attempt #" ++ toString attempt))
      | .error failure =>
        let p := p.say policy .debug (" failed on attempt #" ++ toString attempt)
        let failed : Failed := ⟨policy.config, attempt, failure⟩
        if policy.config.maxRetries.le (Double.ofNat attempt) ∨ isAborted abort p.now then
          giveUp policy p attempt failure
        else
          let p := { p with asked := p.asked ++ [Question.accepts failed] }
          if policy.accepts failed then
            let delay := policy.delay failed
            let p := { p with asked := p.asked ++ [Question.delay failed] }
            let p := p.say policy .debug (" retrying in " ++ delay.text ++ "ms")
            attempts fuel (attempt + 1) (p.wait abort (policy.pause failed))
          else giveUp policy p attempt failure

/-- How many attempts are evaluated of a run that has no limit to their number. -/
def plenty : Nat := 100000

def mostAttempts (c : Config) : Nat :=
  match c.maxRetries.truncate? with
  | some n => n.toNat + 2
  | none => plenty

/-- Tries until an attempt succeeds or there is no further one. -/
def run : Ended α × Progress := attempts policy behaviour abort (mostAttempts policy.config) 0 {}

end Run

/-- The moments that are set and still to come. -/
def timersLeft (abort : Option Abort) (p : Progress) : List Moment :=
  p.timers.filter (fun m => p.now.before m) ++ (pending? abort p.now).toList

/-- The end of a run that never ends otherwise: nothing can happen any more. -/
def Progress.exhausted (abort : Option Abort) (p : Progress) : Progress :=
  { p with
    now := (timersLeft abort p).foldl (fun last m => if last.before m then m else last) p.now }

/-- The run as it is left, when it has ended or nothing can happen any more. -/
def left {α : Type} (abort : Option Abort) (r : Ended α × Progress) : Progress :=
  match r.1 with
  | .finished _ => r.2
  | .never => r.2.exhausted abort

/-- Whether the signal of an attempt is aborted at the end. -/
def Call.isAborted (abort : Option Abort) (finish : Moment) (c : Call) : Bool :=
  c.timedOut || Retry.isAborted abort finish

end Bearer.Retry
