import Bearer.Text.Percent

namespace Bearer.Text.Form

abbrev Fields := List (String × String)

def isSafe (c : Char) : Bool := c.isAlphanum || "*-._".toList.contains c

def encodeChar (c : Char) : List Char :=
  if c = ' ' then ['+']
  else if isSafe c then [c]
  else (Utf8.encodeChar c).flatMap Percent.escape

def encodeText (s : String) : List Char := s.toList.flatMap encodeChar

def encodeField (f : String × String) : List Char :=
  encodeText f.1 ++ '=' :: encodeText f.2

/-- Names and values as the body of a request or the query of an address. Letters, digits and
`*-._` stand for themselves, a space is written as a plus sign, all else is percent encoded. -/
def encode : Fields → List Char
  | [] => []
  | [f] => encodeField f
  | f :: fs => encodeField f ++ '&' :: encode fs

def render (fs : Fields) : String := String.ofList (encode fs)

def splitAt (separator : Char) : List Char → List (List Char)
  | [] => [[]]
  | c :: cs =>
    if c = separator then [] :: splitAt separator cs
    else match splitAt separator cs with
      | [] => [[c]]
      | p :: ps => (c :: p) :: ps

def decodeText (cs : List Char) : String :=
  String.ofList (Percent.decode (cs.map (fun c => if c = '+' then ' ' else c)))

def decodeField (cs : List Char) : String × String :=
  let name := cs.takeWhile (· ≠ '=')
  (decodeText name, decodeText ((cs.dropWhile (· ≠ '=')).drop 1))

/-- The fields of a body; empty parts between separators are none. -/
def decode (cs : List Char) : Fields :=
  ((splitAt '&' cs).filter (fun p => !p.isEmpty)).map decodeField

/-- Gives a name one value: in the place of its first field, or at the end. -/
def set (fs : Fields) (name value : String) : Fields :=
  match fs with
  | [] => [(name, value)]
  | f :: rest =>
    if f.1 = name then (name, value) :: rest.filter (fun g => g.1 ≠ name)
    else f :: set rest name value

end Bearer.Text.Form
