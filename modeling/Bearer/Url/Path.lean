import Bearer.Url.Basic

namespace Bearer.Url

/-- A letter and a colon or bar. -/
def isDriveLetter : List Char → Bool
  | [a, b] => a.isAlpha && (b = ':' || b = '|')
  | _ => false

def isUsualDriveLetter : List Char → Bool
  | [a, b] => a.isAlpha && b = ':'
  | _ => false

/-- Whether a text starts with a drive letter that nothing else belongs to. -/
def startsWithDriveLetter : List Char → Bool
  | a :: b :: rest => isDriveLetter [a, b] && (match rest with
    | [] => true
    | c :: _ => "/\\?#".toList.contains c)
  | _ => false

/-- A segment in small letters with its encoded points decoded. -/
def plainDots : List Char → List Char
  | '%' :: '2' :: 'e' :: cs | '%' :: '2' :: 'E' :: cs => '.' :: plainDots cs
  | c :: cs => c :: plainDots cs
  | [] => []

def isHere (segment : List Char) : Bool := plainDots segment = ['.']

def isAbove (segment : List Char) : Bool := plainDots segment = ['.', '.']

/-- The path without its last segment; a drive letter stays. -/
def shorten (isFile : Bool) (segments : List (List Char)) : List (List Char) :=
  match segments with
  | [only] => if isFile && isUsualDriveLetter only then [only] else []
  | _ => segments.dropLast

/-- The usual spelling of a drive letter at the start of a path. -/
def usualDriveLetter (isFile : Bool) (before : List (List Char)) (segment : List Char) :
    List Char :=
  match segment with
  | [a, _] => if isFile && before.isEmpty && isDriveLetter segment then [a, ':'] else segment
  | _ => segment

/-- Takes one segment into a path; dots at the end leave an empty segment. -/
def addSegment (isFile last : Bool) (before : List (List Char)) (segment : List Char) :
    List (List Char) :=
  if isAbove segment then
    let shorter := shorten isFile before
    if last then shorter ++ [[]] else shorter
  else if isHere segment then
    if last then before ++ [[]] else before
  else before ++ [usualDriveLetter isFile before segment]

def addSegments (isFile : Bool) (before : List (List Char)) :
    List (List Char) → List (List Char)
  | [] => before
  | [s] => addSegment isFile true before s
  | s :: ss => addSegments isFile (addSegment isFile false before s) ss

def isSlash (special : Bool) (c : Char) : Bool := c = '/' || (special && c = '\\')

def splitSlashes (special : Bool) : List Char → List (List Char)
  | [] => [[]]
  | c :: cs =>
    if isSlash special c then [] :: splitSlashes special cs
    else match splitSlashes special cs with
      | [] => [[c]]
      | p :: ps => (c :: p) :: ps

/-- The segments after a start, of a text without query and fragment. -/
def readPath (special isFile : Bool) (before : List (List Char)) (cs : List Char) :
    List (List Char) :=
  addSegments isFile before ((splitSlashes special cs).map (encodeUnless unsafeInPath))

end Bearer.Url
