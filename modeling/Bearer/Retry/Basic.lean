import Bearer.Error.Fault
import Bearer.Log

namespace Bearer.Retry

structure Config where
  name : String := "retryable task"
  /-- How many attempts may follow the first one. -/
  maxRetries : Double := 2
  /-- Milliseconds that one attempt may take. -/
  timeout : Double := .infinite false

/-- What is known when an attempt has failed. -/
structure Failed where
  config : Config
  attempt : Nat
  failure : Thrown

/-- The longest time, in milliseconds, that a timer of the platform can be set to. -/
def longestTimer : Nat := 2147483647

/-- How long a timer lasts on the platform. One that is set to less than a millisecond, or
further than it can be set, is over after one. -/
def platformTimer (ms : Double) : Double :=
  if (1 : Double).le ms ∧ ms.le (Double.ofNat longestTimer) then ms.floor else 1

structure Policy where
  config : Config := {}
  delay : Failed → Double
  accepts : Failed → Bool
  logging : Bool := true
  /-- How long a timer lasts that is set to so many milliseconds. -/
  timer : Double → Double := platformTimer

def initialDelay : Nat := 50

def mostDelay : Nat := 1000

/-- A delay that doubles with every attempt, up to a limit. -/
def doublingDelay (f : Failed) : Double :=
  Double.ofNat (min (initialDelay * Nat.pow 2 f.attempt) mostDelay)

/-- All failures are worth another attempt but those that say otherwise. -/
def isRetryable (f : Failed) : Bool := f.failure.kind? ≠ some .nonRetryable

/-- An entry of a list for an attempt, the last one for all later ones. -/
def listed? {β : Type} (list : List β) (attempt : Nat) : Option β := list[attempt]?.or list.getLast?

def listedDelay (list : List Double) (f : Failed) : Double := (listed? list f.attempt).getD .nan

def listedDecision (list : List Bool) (f : Failed) : Bool := (listed? list f.attempt).getD false

def Config.limit? (c : Config) : Option Double :=
  if (0 : Double).lt c.timeout ∧ c.timeout.lt (.infinite false) then some c.timeout else none

/-- How long one attempt may last, if that is limited. -/
def Policy.limit? (policy : Policy) : Option Double := policy.config.limit?.map policy.timer

/-- How long the wait for the next attempt lasts. -/
def Policy.pause (policy : Policy) (f : Failed) : Double := policy.timer (policy.delay f)

inductive Behaviour (α : Type) where
  | ends (after : Option Double) (outcome : Result α)
  | hangs
  /-- Fails when it is told to give up. -/
  | untilAborted (failure : Thrown)

/-- A moment: milliseconds since the start, and among what is set for the same time
the order in which it was set. -/
structure Moment where
  time : Double
  serial : Nat

namespace Moment

def before (a b : Moment) : Bool :=
  a.time.lt b.time || (a.time = b.time && decide (a.serial < b.serial))

def start : Moment := ⟨0, 0⟩

/-- The moment so many milliseconds later; there is no going back. -/
def later (m : Moment) (ms : Double) (serial : Nat) : Moment :=
  ⟨if (0 : Double).lt ms then m.time + ms else m.time, serial⟩

end Moment

/-- So many milliseconds after the start is when something is due that is set before the first
attempt. -/
instance : Coe Double Moment := ⟨fun ms => Moment.start.later ms 1⟩

/-- When the caller aborts: before everything, or at a moment. -/
structure Abort where
  moment? : Option Moment
  reason : Thrown

def isAborted (abort : Option Abort) (m : Moment) : Bool :=
  match abort with
  | none => false
  | some a =>
    match a.moment? with
    | none => true
    | some at_ => !m.before at_

/-- The moment of an abort that is still to come. -/
def pending? (abort : Option Abort) (m : Moment) : Option Moment :=
  ((abort.bind Abort.moment?)).filter (fun at_ => m.before at_)

end Bearer.Retry
