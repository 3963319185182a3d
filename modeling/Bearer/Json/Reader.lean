import Bearer.Json.Basic
import Bearer.Text.Units

namespace Bearer.Json

open Text

def isSpace (c : Char) : Bool := c = ' ' || c = '\t' || c = '\n' || c = '\r'

def skip (cs : List Char) : List Char := cs.dropWhile isSpace

def hexUnit? (a b c d : Char) : Option Units.Unit16 := do
  let w ← Double.digitInBase? 16 a
  let x ← Double.digitInBase? 16 b
  let y ← Double.digitInBase? 16 c
  let z ← Double.digitInBase? 16 d
  some (((w * 16 + x) * 16 + y) * 16 + z)

/-- The unit that a one-letter escape stands for. -/
def shortEscape? : Char → Option Units.Unit16
  | '"' => some 0x22
  | '\\' => some 0x5C
  | '/' => some 0x2F
  | 'b' => some 0x08
  | 'f' => some 0x0C
  | 'n' => some 0x0A
  | 'r' => some 0x0D
  | 't' => some 0x09
  | _ => none

/-- The units of a string up to its closing quote, and what follows it. -/
def stringBody : List Char → Option (List Units.Unit16 × List Char)
  | [] => none
  | '"' :: cs => some ([], cs)
  | '\\' :: 'u' :: a :: b :: c :: d :: cs => do
    let u ← hexUnit? a b c d
    let (us, rest) ← stringBody cs
    some (u :: us, rest)
  | '\\' :: c :: cs => do
    let u ← shortEscape? c
    let (us, rest) ← stringBody cs
    some (u :: us, rest)
  | c :: cs =>
    if c.toNat < 0x20 ∨ c = '\\' then none
    else do
      let (us, rest) ← stringBody cs
      some (Units.ofChar c ++ us, rest)

def stringRest (cs : List Char) : Option (String × List Char) :=
  (stringBody cs).map (fun r => (String.ofList (Units.decode r.1), r.2))

mutual

/-- A value at the start of the text, and what follows it. Every call within a
value is on a shorter text, so the length of the text is fuel enough. -/
def readValue : Nat → List Char → Option (Json × List Char)
  | 0, _ => none
  | fuel + 1, cs =>
    match skip cs with
    | '{' :: rest =>
      match skip rest with
      | '}' :: rest => some (object [], rest)
      | rest => (readMembers fuel rest).map (fun r => (ofMembers r.1, r.2))
    | '[' :: rest =>
      match skip rest with
      | ']' :: rest => some (array [], rest)
      | rest => (readItems fuel rest).map (fun r => (array r.1, r.2))
    | '"' :: rest => (stringRest rest).map (fun r => (string r.1, r.2))
    | 't' :: 'r' :: 'u' :: 'e' :: rest => some (bool true, rest)
    | 'f' :: 'a' :: 'l' :: 's' :: 'e' :: rest => some (bool false, rest)
    | 'n' :: 'u' :: 'l' :: 'l' :: rest => some (null, rest)
    | rest => (Double.read? rest).map (fun r => (number r.1, r.2))

/-- The items of a list up to its closing bracket; at least one. -/
def readItems : Nat → List Char → Option (List Json × List Char)
  | 0, _ => none
  | fuel + 1, cs => do
    let (v, rest) ← readValue fuel cs
    match skip rest with
    | ']' :: rest => some ([v], rest)
    | ',' :: rest =>
      let (vs, rest) ← readItems fuel rest
      some (v :: vs, rest)
    | _ => none

def readMembers : Nat → List Char → Option (Members × List Char)
  | 0, _ => none
  | fuel + 1, cs =>
    match skip cs with
    | '"' :: rest => do
      let (name, rest) ← stringRest rest
      match skip rest with
      | ':' :: rest =>
        let (v, rest) ← readValue fuel rest
        match skip rest with
        | '}' :: rest => some ([(name, v)], rest)
        | ',' :: rest =>
          let (ms, rest) ← readMembers fuel rest
          some ((name, v) :: ms, rest)
        | _ => none
      | _ => none
    | _ => none

end

/-- The document that the whole text holds, read strictly: no comments, no trailing commas, no
leading zeros, no control characters in strings, nothing after the value. -/
def parse (text : String) : Option Json :=
  let cs := text.toList
  match readValue (2 * cs.length + 2) cs with
  | some (v, rest) => if (skip rest).isEmpty then some v else none
  | none => none

end Bearer.Json
