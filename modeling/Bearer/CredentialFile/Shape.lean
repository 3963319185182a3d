import Bearer.Given
import Bearer.Json.Basic

namespace Bearer

inductive Shape where
  /-- Text of a least length; among some values, if there are any. -/
  | text (least : Nat) (among : List String) (nullable : Bool)
  | object (members : List (String × Shape)) (required : List String) (others : Option Shape)
      (nullable : Bool)

namespace Shape

def plain : Shape := text 0 [] false

def filled : Shape := text 1 [] false

def optional : Shape := text 0 [] true

/-- A departure from a shape: where it is, and what should be there. -/
structure Departure where
  path : List String
  expected : String

/-- A name within a path: the marks that a path is made of are escaped. -/
def escapeName (name : String) : String :=
  String.ofList (name.toList.flatMap (fun c =>
    if c = '~' then ['~', '0'] else if c = '/' then ['~', '1'] else [c]))

def Departure.text (d : Departure) : String :=
  "data" ++ String.join (d.path.map (fun name => "/" ++ escapeName name)) ++ " " ++ d.expected

def textDeparture? (least : Nat) (among : List String) (s : String) : Option String :=
  if s.length < least then some ("must NOT have fewer than " ++ toString least ++ " characters")
  else
    match among with
    | [] => none
    | [only] => if s = only then none else some "must be equal to constant"
    | _ =>
      if among.contains s then none else some "must be equal to one of the allowed values"

def missing? (ms : Json.Members) (required : List String) : Option String :=
  required.find? (fun name => (Json.Members.get? ms name).isNone)

mutual

/-- The first departure of a document from a shape. An object is looked at in this order:
whether it is one, its required members, the members that have a shape of their own, then all
others. -/
def departure? (shape : Shape) (path : List String) (j : Json) : Option Departure :=
  match shape with
  | text least among nullable =>
    match j with
    | .string s => (textDeparture? least among s).map (fun expected => ⟨path, expected⟩)
    | .null => if nullable then none else some ⟨path, "must be string"⟩
    | _ => some ⟨path, "must be string"⟩
  | object members required others nullable =>
    match j with
    | .object ms =>
      match missing? ms required with
      | some name => some ⟨path, "must have required property '" ++ name ++ "'"⟩
      | none =>
        (memberDeparture? members path ms).or (othersDeparture? others path
          (ms.filter (fun m => !(members.any (fun s => s.1 == m.1)))))
    | .null => if nullable then none else some ⟨path, "must be object"⟩
    | _ => some ⟨path, "must be object"⟩

def memberDeparture? (members : List (String × Shape)) (path : List String) (ms : Json.Members) :
    Option Departure :=
  match members with
  | [] => none
  | (name, shape) :: rest =>
    let here := match Json.Members.get? ms name with
      | some j => departure? shape (path ++ [name]) j
      | none => none
    here.or (memberDeparture? rest path ms)

def othersDeparture? (others : Option Shape) (path : List String) (ms : Json.Members) :
    Option Departure :=
  match others with
  | none => none
  | some shape => ms.findSome? (fun m => departure? shape (path ++ [m.1]) m.2)

end

end Shape
end Bearer
