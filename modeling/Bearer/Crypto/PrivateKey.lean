import Bearer.Text.Base64
import Bearer.Text.Utf8

namespace Bearer.Crypto

/-- A private key, of one of the two sorts that are told apart. -/
inductive PrivateKey where
  /-- A key for signing by powers modulo a product of primes. -/
  | rsa (modulus exponent : Nat)
  /-- A key of any other kind, with which no token is signed. -/
  | other

/-- What the platform makes of a text that is to hold a private key. -/
abbrev KeyReader := String → Option PrivateKey

namespace PrivateKey

structure Element where
  tag : Nat
  content : List UInt8

def natOf (bs : List UInt8) : Nat := bs.foldl (fun n b => n * 256 + b.toNat) 0

/-- The length at the start of some bytes, and what follows it. -/
def lengthOf? : List UInt8 → Option (Nat × List UInt8)
  | [] => none
  | b :: bs =>
    let n := b.toNat
    if n < 0x80 then some (n, bs)
    else
      let k := n - 0x80
      if k = 0 ∨ 4 < k ∨ bs.length < k then none
      else some (natOf (bs.take k), bs.drop k)

def element? : List UInt8 → Option (Element × List UInt8)
  | [] => none
  | tag :: bs => do
    let (size, bs) ← lengthOf? bs
    if bs.length < size then none
    else some (⟨tag.toNat, bs.take size⟩, bs.drop size)

/-- All elements of some bytes; none of them is shorter than two bytes. -/
def elements? : Nat → List UInt8 → Option (List Element)
  | _, [] => some []
  | 0, _ => none
  | fuel + 1, bs => do
    let (e, rest) ← element? bs
    let es ← elements? fuel rest
    some (e :: es)

def children? (e : Element) : Option (List Element) := elements? e.content.length e.content

def sequenceTag : Nat := 0x30
def integerTag : Nat := 0x02
def identifierTag : Nat := 0x06
def bytesTag : Nat := 0x04

def sequence? (bs : List UInt8) : Option (List Element) := do
  let (e, _) ← element? bs
  if e.tag = sequenceTag then children? e else none

def rsaIdentifier : List UInt8 := [0x2a, 0x86, 0x48, 0x86, 0xf7, 0x0d, 0x01, 0x01, 0x01]

def curveIdentifier : List UInt8 := [0x2a, 0x86, 0x48, 0xce, 0x3d, 0x02, 0x01]

/-- A key as a bare list of numbers: version, modulus, the two exponents, two primes
and three numbers made of them. -/
def ofNumbers? (bs : List UInt8) : Option PrivateKey := do
  let es ← sequence? bs
  if es.length < 9 ∨ es.any (fun e => e.tag ≠ integerTag) then none
  else match es with
    | _ :: modulus :: _ :: exponent :: _ =>
      some (.rsa (natOf modulus.content) (natOf exponent.content))
    | _ => none

def ofCurve? (bs : List UInt8) : Option PrivateKey := do
  match ← sequence? bs with
  | version :: number :: _ =>
    if version.tag = integerTag ∧ number.tag = bytesTag then some other else none
  | _ => none

/-- A key inside an envelope that names its kind. -/
def ofEnvelope? (bs : List UInt8) : Option PrivateKey := do
  let es ← sequence? bs
  match es with
  | version :: algorithm :: key :: _ =>
    if version.tag ≠ integerTag ∨ algorithm.tag ≠ sequenceTag ∨ key.tag ≠ bytesTag then none
    else
      match ← children? algorithm with
      | identifier :: _ =>
        if identifier.tag ≠ identifierTag then none
        else if identifier.content = rsaIdentifier then ofNumbers? key.content
        else if identifier.content = curveIdentifier then ofCurve? key.content
        else none
      | [] => none
  | _ => none

def lines (text : List Char) : List (List Char) :=
  (splitLines text).map trimLine
where
  splitLines : List Char → List (List Char)
    | [] => [[]]
    | c :: cs =>
      if c = '\n' then [] :: splitLines cs
      else match splitLines cs with
        | [] => [[c]]
        | l :: ls => (c :: l) :: ls
  trimLine (l : List Char) : List Char :=
    (l.reverse.dropWhile (fun c => c.toNat ≤ 0x20)).reverse

def label? (word : String) (line : List Char) : Option (List Char) :=
  let start := ("-----" ++ word ++ " ").toList
  let finish := "-----".toList
  if start.isPrefixOf line ∧ finish.isSuffixOf line ∧ start.length + 5 ≤ line.length then
    some ((line.drop start.length).take (line.length - start.length - 5))
  else none

def bodyLines? (label : List Char) : List (List Char) → Option (List Char)
  | [] => none
  | l :: ls =>
    if label? "END" l = some label then some []
    else (bodyLines? label ls).map (l ++ ·)

def armour? : List (List Char) → Option (List Char × List UInt8)
  | [] => none
  | l :: ls =>
    match label? "BEGIN" l with
    | some label => do
      let body ← bodyLines? label ls
      if (body.filter (· ≠ '=')).all (fun c => (Text.Base64.value? c).isSome) then
        some (label, Text.Base64.decode body)
      else none
    | none => armour? ls

/-- Reads the keys in common use: those with a modulus and those on a curve, not enciphered, in
the first armour of the text. -/
def ofText? : KeyReader := fun text => do
  let (label, bytes) ← armour? (lines text.toList)
  let label := String.ofList label
  if label = "PRIVATE KEY" then ofEnvelope? bytes
  else if label = "RSA PRIVATE KEY" then ofNumbers? bytes
  else if label = "EC PRIVATE KEY" then ofCurve? bytes
  else none

end PrivateKey
end Bearer.Crypto
