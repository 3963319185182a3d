import Bearer.Given
import Bearer.Text.Blank

namespace Bearer

/-- Where the metadata server is, and whether to look for it at all. -/
structure Environment where
  metadataHost : Given String := .missing
  skipsProbe : Bool := false

namespace Environment

def hostVariable : String := "GCE_METADATA_HOST"

def skipVariable : String := "NO_GCE_CHECK"

def defaultHost : String := "169.254.169.254"

def valueOf? (settings : List (String × String)) (name : String) : Option String :=
  (settings.find? (fun v => v.1 = name)).map (fun v => Text.trim v.2)

/-- Reads the settings of a process; a blank host is none. -/
def ofVariables (settings : List (String × String)) : Environment where
  metadataHost := .ofOption ((valueOf? settings hostVariable).filter (· ≠ ""))
  skipsProbe := (valueOf? settings skipVariable).map (String.map Char.toLower) = some "true"

/-- The address of the metadata server, without a slash at the end. -/
def metadataServer (e : Environment) : String := "http://" ++ e.metadataHost.getD defaultHost

end Environment
end Bearer
