import Bearer.Given
import Bearer.Number.Numeral

namespace Bearer

/-- A document. The members of an object keep their order, the numbered ones first, and no name
occurs twice. -/
inductive Json where
  | null
  | bool (b : Bool)
  | number (x : Double)
  | string (s : String)
  | array (items : List Json)
  | object (members : List (String × Json))

namespace Json

instance : Inhabited Json := ⟨null⟩

abbrev Members := List (String × Json)

/-- Names that every object answers to, though not as one of its members. -/
def inheritedNames : List String :=
  ["constructor", "__defineGetter__", "__defineSetter__", "hasOwnProperty",
   "__lookupGetter__", "__lookupSetter__", "isPrototypeOf", "propertyIsEnumerable",
   "toString", "valueOf", "__proto__", "toLocaleString"]

/-- A name that numbers an element: the plain decimal of a number below `2 ^ 32 - 1`. -/
def index? (name : String) : Option Nat :=
  let cs := name.toList
  let n := Double.ofDigits cs
  if !cs.isEmpty && cs.all Char.isDigit && Nat.toDigits 10 n == cs && n < 4294967295 then some n
  else none

namespace Members

def get? (ms : Members) (name : String) : Option Json :=
  (ms.find? (fun m => m.1 == name)).map Prod.snd

/-- Gives a member a value: in its old place, or at the end. -/
def set (ms : Members) (name : String) (v : Json) : Members :=
  match ms with
  | [] => [(name, v)]
  | m :: rest => if m.1 = name then (name, v) :: rest else m :: set rest name v

end Members

/-- Numbered names first, by number; the others as they came. -/
def inOrder {α : Type} (ms : List (String × α)) : List (String × α) :=
  let numbered := ms.filterMap (fun m => (index? m.1).map (fun n => (n, m)))
  (numbered.mergeSort (fun a b => a.1 ≤ b.1)).map Prod.snd
    ++ ms.filter (fun m => (index? m.1).isNone)

/-- The object with these members; of two with one name the later one wins. -/
def ofMembers (ms : Members) : Json :=
  object (inOrder (ms.foldl (fun acc m => Members.set acc m.1 m.2) []))

/-- The member of that name, if this is an object that has one. -/
def get? (j : Json) (name : String) : Option Json :=
  match j with
  | object ms => Members.get? ms name
  | _ => none

mutual

/-- The text that a value has within a sentence. -/
def plainText : Json → String
  | null => "null"
  | bool true => "true"
  | bool false => "false"
  | number x => x.text
  | string s => s
  | array items => ",".intercalate (plainItems items)
  | object _ => "[object Object]"

def plainItems : List Json → List String
  | [] => []
  | null :: vs => "" :: plainItems vs
  | v :: vs => plainText v :: plainItems vs

end

def isObject : Json → Bool
  | object _ => true
  | _ => false

def members? : Json → Option Members
  | object ms => some ms
  | _ => none

def string? : Json → Option String
  | string s => some s
  | _ => none

def number? : Json → Option Double
  | number x => some x
  | _ => none

def bool? : Json → Option Bool
  | bool b => some b
  | _ => none

def array? : Json → Option (List Json)
  | array xs => some xs
  | _ => none

namespace Members

/-- A member as an optional setting; null stays apart from nothing. -/
def setting {α : Type} (ms : Members) (name : String) (read : Json → Option α) : Given α :=
  match ms.get? name with
  | none => .missing
  | some null => .null
  | some j => .ofOption (read j)

def text (ms : Members) (name : String) : Given String := ms.setting name string?

def textD (ms : Members) (name : String) : String := ((ms.get? name).bind string?).getD ""

/-- The texts of a list; no list has none. -/
def texts (ms : Members) (name : String) : List String :=
  (((ms.get? name).bind array?).getD []).filterMap string?

def pairs (ms : Members) : List (String × String) :=
  ms.filterMap (fun m => m.2.string?.map (fun v => (m.1, v)))

end Members

end Json
end Bearer
