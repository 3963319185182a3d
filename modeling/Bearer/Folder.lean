import Bearer.Text.Form

namespace Bearer

/-- Paths of what is kept lead from the directory itself and hold no dots. -/
structure Folder where
  files : List (String × List UInt8) := []
  folders : List String := []

namespace Folder

/-- A place below the directory: the names on the way to it, the last one first. -/
abbrev Place := List (List Char)

def Place.path (p : Place) : String := String.ofList (['/'].intercalate p.reverse)

def isFolder (f : Folder) (p : Place) : Bool := p.isEmpty || f.folders.contains p.path

/-- Takes one part of a path; a dot stays, two dots go back, and only a directory leads
on. What is outside of the directory is out of reach. -/
def enter (f : Folder) (part : List Char) (p : Place) : Option Place :=
  if !f.isFolder p then none
  else
    match part with
    | [] | ['.'] => some p
    | ['.', '.'] => if p.isEmpty then none else some p.tail
    | name => some (name :: p)

def walk (f : Folder) : List (List Char) → Place → Option Place
  | [], p => some p
  | part :: parts, p => (f.enter part p).bind (f.walk parts)

/-- The content of the file at a path. A path from the root leads nowhere. -/
def read? (f : Folder) (path : String) : Option (List UInt8) :=
  match path.toList with
  | '/' :: _ => none
  | cs =>
    match f.walk (Text.Form.splitAt '/' cs) [] with
    | some p => (f.files.find? (fun e => e.1 = p.path)).map Prod.snd
    | none => none

end Folder
end Bearer
