import Bearer.Json.Basic

namespace Bearer.Json

def hexDigit (n : Nat) : Char := (Nat.toDigits 16 (n % 16)).headD '0'

def escapeChar (c : Char) : List Char :=
  if c = '"' then ['\\', '"']
  else if c = '\\' then ['\\', '\\']
  else if c.toNat = 0x08 then ['\\', 'b']
  else if c.toNat = 0x09 then ['\\', 't']
  else if c.toNat = 0x0A then ['\\', 'n']
  else if c.toNat = 0x0C then ['\\', 'f']
  else if c.toNat = 0x0D then ['\\', 'r']
  else if c.toNat < 0x20 then
    ['\\', 'u', '0', '0', hexDigit (c.toNat / 16), hexDigit c.toNat]
  else [c]

def writeString (s : String) : List Char := '"' :: s.toList.flatMap escapeChar ++ ['"']

def writeNumber : Double → List Char
  | .finite a => (Double.finite a).chars
  | _ => "null".toList

mutual

def write : Json → List Char
  | null => "null".toList
  | bool true => "true".toList
  | bool false => "false".toList
  | number x => writeNumber x
  | string s => writeString s
  | array items => '[' :: writeItems items
  | object members => '{' :: writeMembers members

def writeItems : List Json → List Char
  | [] => [']']
  | [v] => write v ++ [']']
  | v :: vs => write v ++ ',' :: writeItems vs

def writeMembers : List (String × Json) → List Char
  | [] => ['}']
  | [(name, v)] => writeString name ++ ':' :: write v ++ ['}']
  | (name, v) :: ms => writeString name ++ ':' :: write v ++ ',' :: writeMembers ms

end

/-- The compact text of a document: no spaces, and only quotes, backslashes and control
characters escaped. What is not a finite number is written as null. -/
def render (j : Json) : String := String.ofList j.write

end Bearer.Json
