import Bearer.Text.Percent

namespace Bearer

/-- A path is a list of segments, or one text without structure. -/
inductive Url.Path where
  | whole (text : List Char)
  | segments (list : List (List Char))
deriving DecidableEq

structure Url where
  scheme : List Char
  username : List Char := []
  password : List Char := []
  /-- The host as it is written; addresses of some schemes have none. -/
  host : Option (List Char) := none
  /-- The port, unless it is the usual one of the scheme. -/
  port : Option Nat := none
  path : Url.Path := .segments []
  query : Option (List Char) := none
  fragment : Option (List Char) := none
deriving DecidableEq

namespace Url

/-- The schemes with a host that is a domain, and their usual ports. -/
def specialSchemes : List (String × Option Nat) :=
  [("http", some 80), ("https", some 443), ("ws", some 80), ("wss", some 443), ("ftp", some 21),
   ("file", none)]

def isSpecialScheme (scheme : List Char) : Bool :=
  specialSchemes.any (fun s => s.1.toList == scheme)

def usualPort? (scheme : List Char) : Option Nat :=
  (specialSchemes.find? (fun s => s.1.toList = scheme)).bind Prod.snd

def fileScheme : List Char := "file".toList

def isSpecial (u : Url) : Bool := isSpecialScheme u.scheme

def isFile (u : Url) : Bool := u.scheme = fileScheme

def isControl (c : Char) : Bool := c.toNat < 0x20 || 0x7E < c.toNat

def unsafeInFragment (c : Char) : Bool := isControl c || " \"<>`".toList.contains c

def unsafeInQuery (special : Bool) (c : Char) : Bool :=
  isControl c || " \"#<>".toList.contains c || (special && c = '\'')

/-- The marks that end a path or are braces: question mark, caret, grave accent. -/
def unsafeInPath (c : Char) : Bool :=
  unsafeInQuery false c || "?^`".toList.contains c || c.toNat = 0x7B || c.toNat = 0x7D

def unsafeInUser (c : Char) : Bool := unsafeInPath c || "/:;=@[\\]|".toList.contains c

def encodeUnless (isUnsafe : Char → Bool) (cs : List Char) : List Char :=
  Text.Percent.encode (fun c => !isUnsafe c) cs

def pathText : Path → List Char
  | .whole text => text
  | .segments list => list.flatMap (fun s => '/' :: s)

def userText (u : Url) : List Char :=
  if u.username.isEmpty ∧ u.password.isEmpty then []
  else u.username ++ (if u.password.isEmpty then [] else ':' :: u.password) ++ ['@']

def portText (u : Url) : List Char :=
  match u.port with
  | some port => ':' :: Nat.toDigits 10 port
  | none => []

/-- Without a host, a path that starts with an empty segment is kept from being taken
for one. -/
def authorityText (u : Url) : List Char :=
  match u.host with
  | some host => '/' :: '/' :: u.userText ++ host ++ u.portText
  | none =>
    match u.path with
    | .segments ([] :: _ :: _) => ['/', '.']
    | _ => []

def optionalText (mark : Char) : Option (List Char) → List Char
  | some text => mark :: text
  | none => []

def chars (u : Url) : List Char :=
  u.scheme ++ ':' :: u.authorityText ++ pathText u.path ++ optionalText '?' u.query
    ++ optionalText '#' u.fragment

def text (u : Url) : String := String.ofList u.chars

end Url
end Bearer
