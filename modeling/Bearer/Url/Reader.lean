import Bearer.Url.Host
import Bearer.Url.Path

namespace Bearer.Url

def isSchemeChar (c : Char) : Bool := c.isAlphanum || c = '+' || c = '-' || c = '.'

/-- The scheme at the start of a text, in small letters, and what follows its colon. -/
def splitScheme? (cs : List Char) : Option (List Char × List Char) :=
  match cs with
  | c :: _ =>
    if c.isAlpha then
      match cs.span isSchemeChar with
      | (scheme, ':' :: rest) => some (scheme.map Char.toLower, rest)
      | _ => none
    else none
  | [] => none

def cut (mark : Char) (cs : List Char) : List Char × Option (List Char) :=
  match cs.span (· ≠ mark) with
  | (before, _ :: after) => (before, some after)
  | (before, []) => (before, none)

/-- A text without its query and fragment, and those. -/
structure Cut where
  front : List Char
  query : Option (List Char)
  fragment : Option (List Char)

/-- Cuts off the fragment, then the query, and encodes both. -/
def Cut.ofChars (special : Bool) (cs : List Char) : Cut :=
  let (rest, fragment) := cut '#' cs
  let (front, query) := cut '?' rest
  { front
    query := query.map (encodeUnless (unsafeInQuery special))
    fragment := fragment.map (encodeUnless unsafeInFragment) }

def cutLast (mark : Char) : List Char → Option (List Char × List Char)
  | [] => none
  | c :: cs =>
    match cutLast mark cs with
    | some (before, after) => some (c :: before, after)
    | none => if c = mark then some ([], cs) else none

/-- A host and the port behind the first colon outside brackets. -/
def splitPort : Bool → List Char → List Char × Option (List Char)
  | _, [] => ([], none)
  | within, c :: cs =>
    if c = ':' && !within then ([], some cs)
    else
      let within := if c = '[' then true else if c = ']' then false else within
      let (host, port) := splitPort within cs
      (c :: host, port)

/-- A port; none if it is not written or the usual one. Fails if it is no number or
too big. -/
def readPort? (scheme : List Char) : Option (List Char) → Option (Option Nat)
  | none | some [] => some none
  | some ds =>
    if ds.all Char.isDigit then
      let n := Double.ofDigits ds
      if 65535 < n then none
      else some (if usualPort? scheme = some n then none else some n)
    else none

def readAuthority? (u : Url) (cs : List Char) : Option Url := do
  let (user, rest) := match cutLast '@' cs with
    | some (user, rest) => (some user, rest)
    | none => (none, cs)
  let (hostText, portText) := splitPort false rest
  if hostText.isEmpty && (user.isSome || portText.isSome || u.isSpecial) then none
  else
    let host ← host? u.isSpecial hostText
    let port ← readPort? u.scheme portText
    let (username, password) := cut ':' (user.getD [])
    some { u with
      username := encodeUnless unsafeInUser username
      password := encodeUnless unsafeInUser (password.getD [])
      host := some host
      port }

/-- The path that follows an authority. Special addresses always have one. -/
def pathAfterAuthority (u : Url) (cs : List Char) : List (List Char) :=
  match cs with
  | [] => if u.isSpecial then [[]] else []
  | c :: rest =>
    if isSlash u.isSpecial c then readPath u.isSpecial u.isFile [] rest
    else readPath u.isSpecial u.isFile [] cs

def readFromAuthority? (u : Url) (c : Cut) : Option Url := do
  let (authority, path) := c.front.span (fun x => !isSlash u.isSpecial x)
  let u ← readAuthority? u authority
  some { u with
    path := .segments (pathAfterAuthority u path), query := c.query, fragment := c.fragment }

/-- Without slashes at the start, of any kind. -/
def skipSlashes (cs : List Char) : List Char := cs.dropWhile (isSlash true)

def segmentsOf : Path → List (List Char)
  | .segments list => list
  | .whole _ => []

/-- Reads what is relative to a base of the same scheme. -/
def readRelative? (base : Url) (c : Cut) : Option Url :=
  let special := base.isSpecial
  let found : Url := { base with query := c.query, fragment := c.fragment }
  match c.front with
  | [] => some { found with query := c.query.or base.query }
  | x :: rest =>
    if isSlash special x then
      match rest with
      | y :: authority =>
        if isSlash special y then
          let start : Url := { scheme := base.scheme }
          readFromAuthority? start
            { c with front := if special then skipSlashes authority else authority }
        else some { found with path := .segments (readPath special base.isFile [] rest) }
      | [] => some { found with path := .segments (readPath special base.isFile [] rest) }
    else
      let above := shorten base.isFile (segmentsOf base.path)
      some { found with path := .segments (readPath special base.isFile above c.front) }

/-- The host of a file; the local one is not written. -/
def fileHost? (cs : List Char) : Option (List Char) := do
  if cs.isEmpty then some []
  else
    let host ← host? true cs
    some (if host = "localhost".toList then [] else host)

/-- Reads the address of a file, relative to the base if that is one of a file too. -/
def readFile? (base : Option Url) (c : Cut) : Option Url :=
  let base := base.filter isFile
  let start : Url :=
    { scheme := fileScheme, host := some [], query := c.query, fragment := c.fragment }
  match c.front with
  | x :: rest =>
    if isSlash true x then
      match rest with
      | y :: more =>
        if isSlash true y then
          let (hostText, path) := more.span (fun z => !isSlash true z)
          if isDriveLetter hostText then
            some { start with path := .segments (readPath true true [] more) }
          else do
            let host ← fileHost? hostText
            some { start with host := some host, path := .segments (pathAfterAuthority start path) }
        else some (rooted start base rest)
      | [] => some (rooted start base rest)
    else
      match base with
      | some b =>
        let above := if startsWithDriveLetter c.front then []
          else shorten true (segmentsOf b.path)
        some { start with host := b.host, path := .segments (readPath true true above c.front) }
      | none => some { start with path := .segments (readPath true true [] c.front) }
  | [] =>
    match base with
    | some b => some { start with host := b.host, path := b.path, query := c.query.or b.query }
    | none => some { start with path := .segments [[]] }
where
  /-- After one slash: the drive and the host of the base are kept. -/
  rooted (start : Url) (base : Option Url) (rest : List Char) : Url :=
    match base with
    | some b =>
      let drive := match segmentsOf b.path with
        | first :: _ =>
          if isUsualDriveLetter first && !startsWithDriveLetter rest then [first] else []
        | [] => []
      { start with host := b.host, path := .segments (readPath true true drive rest) }
    | none => { start with path := .segments (readPath true true [] rest) }

def readAfterScheme? (base : Option Url) (scheme rest : List Char) : Option Url :=
  let special := isSpecialScheme scheme
  let c := Cut.ofChars special rest
  let start : Url := { scheme }
  if scheme = fileScheme then readFile? base c
  else if special then
    match base.filter (fun b => b.scheme = scheme), c.front with
    | some _, '/' :: '/' :: _ | none, _ =>
      readFromAuthority? start { c with front := skipSlashes c.front }
    | some b, _ => readRelative? b c
  else
    match c.front with
    | '/' :: '/' :: authority => readFromAuthority? start { c with front := authority }
    | '/' :: path =>
      some { start with
        path := .segments (readPath false false [] path), query := c.query,
        fragment := c.fragment }
    | front =>
      some { start with
        path := .whole (encodeUnless isControl front), query := c.query, fragment := c.fragment }

/-- Reads what has no scheme, which needs a base. -/
def readSchemeless? (base : Option Url) (cs : List Char) : Option Url := do
  let b ← base
  let c := Cut.ofChars b.isSpecial cs
  match b.path with
  | .whole _ =>
    if c.front.isEmpty && c.query.isNone && c.fragment.isSome then
      some { b with fragment := c.fragment }
    else none
  | .segments _ => if b.isFile then readFile? base c else readRelative? b c

/-- The text without blanks and controls around it, and without tabs and line ends. -/
def cleaned (cs : List Char) : List Char :=
  let edge (c : Char) : Bool := c.toNat ≤ 0x20
  let cs := ((cs.dropWhile edge).reverse.dropWhile edge).reverse
  cs.filter (fun c => c ≠ '\t' && c ≠ '\n' && c ≠ '\r')

/-- The address that a text means, given the address it stands in. -/
def read? (text : String) (base : Option Url := none) : Option Url :=
  let cs := cleaned text.toList
  match splitScheme? cs with
  | some (scheme, rest) => readAfterScheme? base scheme rest
  | none => readSchemeless? base cs

/-- Whether a text is an address by itself. -/
def isAbsolute (text : String) : Bool := (read? text).isSome

def fields (u : Url) : Text.Form.Fields := Text.Form.decode (u.query.getD [])

def withFields (u : Url) (fields : Text.Form.Fields) : Url :=
  { u with query := if fields.isEmpty then none else some (Text.Form.encode fields) }

end Bearer.Url
