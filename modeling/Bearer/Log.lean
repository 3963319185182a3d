import Bearer.Error.Report

namespace Bearer.Log

inductive Level where
  | trace
  | debug
  | info
  | warn
  | error
  | fatal
deriving DecidableEq

namespace Level

def all : List Level := [trace, debug, info, warn, error, fatal]

def name : Level → String
  | trace => "trace"
  | debug => "debug"
  | info => "info"
  | warn => "warn"
  | error => "error"
  | fatal => "fatal"

def ofName? (name : String) : Option Level := all.find? (fun l => l.name = name)

/-- How severe; the severest last. -/
def rank : Level → Nat
  | trace => 0
  | debug => 1
  | info => 2
  | warn => 3
  | error => 4
  | fatal => 5

end Level

/-- A message of a severity, with a document about the circumstances. -/
structure Entry where
  level : Level
  message : String
  details : Option Json := none

/-- Whether a message of one level passes a filter of another; unknown levels never
do. -/
def passes (minimum level : String) : Bool :=
  match Level.ofName? minimum, Level.ofName? level with
  | some m, some l => m.rank ≤ l.rank
  | _, _ => false

def debug (message : String) : Entry := { level := .debug, message }

/-- A warning about a failure, unless the failure cannot be told. -/
def warning (message : String) (failure : Thrown) : Result Entry :=
  (Report.ofThrown failure).map (fun details =>
    { level := .warn, message, details := some details })

end Bearer.Log
