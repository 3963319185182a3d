import Bearer.Number.Numeral
import Bearer.Text.Form
import Bearer.Url.Basic
import Bearer.Url.Punycode

namespace Bearer.Url

/-- A number in one of the bases ten, sixteen and eight. -/
def readPart? (cs : List Char) : Option Nat :=
  let inBase (base : Nat) (ds : List Char) : Option Nat :=
    (ds.mapM (Double.digitInBase? base)).map (fun ds => ds.foldl (fun n d => n * base + d) 0)
  match cs with
  | [] => none
  | '0' :: 'x' :: ds | '0' :: 'X' :: ds => inBase 16 ds
  | '0' :: d :: ds => inBase 8 (d :: ds)
  | ds => inBase 10 ds

/-- The parts between points; a point at the end is none. -/
def hostParts (host : List Char) : List (List Char) :=
  let parts := Text.Form.splitAt '.' host
  if parts.length ≠ 1 ∧ parts.getLast? = some [] then parts.dropLast else parts

def endsInNumber (host : List Char) : Bool :=
  match (hostParts host).getLast? with
  | none | some [] => false
  | some last => last.all Char.isDigit || (readPart? last).isSome

/-- All parts but the last are bytes; the last fills the rest. -/
def joinParts? : Nat → List Nat → Option Nat
  | _, [] => none
  | room, [last] => if last < Nat.pow 256 room then some last else none
  | room, n :: ns => do
    let rest ← joinParts? (room - 1) ns
    if n < 256 then some (n * Nat.pow 256 (room - 1) + rest) else none

def fourBytes? (host : List Char) : Option Nat := do
  let parts := hostParts host
  if 4 < parts.length then none
  else joinParts? 4 (← parts.mapM readPart?)

def writeFourBytes (n : Nat) : List Char :=
  let byte (k : Nat) : List Char := Nat.toDigits 10 (n / Nat.pow 256 k % 256)
  byte 3 ++ '.' :: byte 2 ++ '.' :: byte 1 ++ '.' :: byte 0

def readGroup? (cs : List Char) : Option Nat := do
  let ds ← cs.mapM Text.Percent.hexValue?
  if ds.isEmpty ∨ 4 < ds.length then none
  else some (ds.foldl (fun n d => n * 16 + d) 0)

def readByte? (cs : List Char) : Option Nat :=
  let n := Double.ofDigits cs
  if !cs.isEmpty && cs.all Char.isDigit && Nat.toDigits 10 n == cs && n < 256 then some n else none

/-- Four bytes in plain decimal, as two groups. -/
def readEmbedded? (cs : List Char) : Option (List Nat) :=
  match (Text.Form.splitAt '.' cs).map readByte? with
  | [some a, some b, some c, some d] => some [a * 256 + b, c * 256 + d]
  | _ => none

/-- The groups between colons, the last of which may be four bytes. -/
def readGroups? : List (List Char) → Option (List Nat)
  | [] => some []
  | [last] => if last.contains '.' then readEmbedded? last else (readGroup? last).map ([·])
  | g :: gs => do
    let n ← readGroup? g
    let ns ← readGroups? gs
    some (n :: ns)

def groupsOf? (cs : List Char) : Option (List Nat) :=
  if cs.isEmpty then some [] else readGroups? (Text.Form.splitAt ':' cs)

def splitDouble : List Char → Option (List Char × List Char)
  | ':' :: ':' :: rest => some ([], rest)
  | c :: cs => (splitDouble cs).map (fun p => (c :: p.1, p.2))
  | [] => none

/-- The eight groups of an address; a double colon stands for one or more zeros. -/
def eightGroups? (cs : List Char) : Option (List Nat) := do
  match splitDouble cs with
  | some (before, after) =>
    if before.contains '.' then none
    else
      let left ← groupsOf? before
      let right ← groupsOf? after
      let missing := 8 - (left.length + right.length)
      if missing = 0 then none else some (left ++ List.replicate missing 0 ++ right)
  | none =>
    let groups ← groupsOf? cs
    if groups.length = 8 then some groups else none

def leadingZeros (groups : List Nat) : Nat := (groups.takeWhile (· = 0)).length

/-- Where the longest run of zeros starts, the first of several, and its length. -/
def longestZeros : Nat → List Nat → Nat × Nat
  | _, [] => (0, 0)
  | start, g :: gs =>
    let here := leadingZeros (g :: gs)
    let later := longestZeros (start + 1) gs
    if later.2 ≤ here then (start, here) else later

def writeHex (n : Nat) : List Char := Nat.toDigits 16 n

def writeGroups (groups : List Nat) : List Char :=
  ":".toList.intercalate (groups.map writeHex)

/-- An address in brackets; the longest run of at least two zeros is left out. -/
def writeEightGroups (groups : List Nat) : List Char :=
  let (start, length) := longestZeros 0 groups
  let inner :=
    if 2 ≤ length then
      writeGroups (groups.take start) ++ [':', ':'] ++ writeGroups (groups.drop (start + length))
    else writeGroups groups
  '[' :: inner ++ [']']

def isForbidden (c : Char) : Bool :=
  c.toNat = 0 || "\t\n\r #/:<>?@[\\]^|".toList.contains c

def isForbiddenInDomain (c : Char) : Bool :=
  isForbidden c || c.toNat < 0x20 || c = '%' || c.toNat = 0x7F

/-- A letter of a domain in its usual form: small, of usual width, and nothing for
what cannot be seen. Covers the letters of Latin, Greek and Cyrillic script. -/
def foldLetter (c : Char) : List Char :=
  let n := c.toNat
  if n < 0x80 then [c.toLower]
  else if n = 0xAD ∨ n = 0x200B ∨ n = 0x2060 ∨ n = 0xFEFF then []
  else if n = 0x3002 ∨ n = 0xFF0E ∨ n = 0xFF61 then ['.']
  else if 0xC0 ≤ n ∧ n ≤ 0xDE ∧ n ≠ 0xD7 then [Char.ofNat (n + 0x20)]
  else if 0x100 ≤ n ∧ n ≤ 0x137 ∧ n % 2 = 0 ∧ n ≠ 0x130 then [Char.ofNat (n + 1)]
  else if 0x139 ≤ n ∧ n ≤ 0x148 ∧ n % 2 = 1 then [Char.ofNat (n + 1)]
  else if 0x14A ≤ n ∧ n ≤ 0x177 ∧ n % 2 = 0 then [Char.ofNat (n + 1)]
  else if 0x391 ≤ n ∧ n ≤ 0x3A9 then [Char.ofNat (n + 0x20)]
  else if 0x410 ≤ n ∧ n ≤ 0x42F then [Char.ofNat (n + 0x20)]
  else if 0x400 ≤ n ∧ n ≤ 0x40F then [Char.ofNat (n + 0x50)]
  else if 0xFF01 ≤ n ∧ n ≤ 0xFF5E then [(Char.ofNat (n - 0xFEE0)).toLower]
  else [c]

def encodeLabel (label : List Char) : List Char :=
  if label.all (fun c => c.toNat < 0x80) then label
  else "xn--".toList ++ Punycode.encode label

def asciiDomain (domain : List Char) : List Char :=
  ['.'].intercalate ((Text.Form.splitAt '.' (domain.flatMap foldLetter)).map encodeLabel)

def domain? (cs : List Char) : Option (List Char) :=
  let domain := asciiDomain (Text.Percent.decode cs)
  if domain.isEmpty ∨ domain.any isForbiddenInDomain then none
  else if endsInNumber domain then (fourBytes? domain).map writeFourBytes
  else some domain

/-- The host that a text spells, in its usual spelling. -/
def host? (special : Bool) (cs : List Char) : Option (List Char) :=
  match cs with
  | '[' :: rest =>
    if rest.getLast? = some ']' then (eightGroups? rest.dropLast).map writeEightGroups else none
  | _ =>
    if special then domain? cs
    else if cs.any isForbidden then none
    else some (encodeUnless isControl cs)

end Bearer.Url
