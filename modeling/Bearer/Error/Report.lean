import Bearer.Error.Thrown

namespace Bearer.Report

/-- Marks an object or list that has been written before. -/
def circularMark : String := "[Circular]"

/-- Stands where a report tells the calls that led to an error. -/
def stackMark : String := "<stack>"

/-- The members that belong to an error when it is written as a plain object: its
kind gives it a name and its details, the outside may have set a code. -/
def ownMembers (kind : ErrorKind) (code : Option Json) : Json.Members :=
  let named := match kind with
    | .plain | .type | .range | .aggregate | .platform _ => []
    | kind => [("name", Json.string kind.name)]
  let answered (status : Option Double) (body : Option String) : Json.Members :=
    (status.map (fun s => ("status", Json.number s))).toList
      ++ (body.map (fun b => ("body", Json.string b))).toList
  let detailed := match kind with
    | .httpStatus status body => answered status body
    | .oauth status body code description uri =>
      answered status body
        ++ (code.map (fun c => ("code", Json.string c))).toList
        ++ (description.map (fun d => ("description", Json.string d))).toList
        ++ (uri.map (fun u => ("uri", Json.string u))).toList
    | _ => []
  let members := named ++ detailed
  match code with
  | some c => Json.Members.set members "code" c
  | none => members

/-- A number as text keeps it: what is not finite becomes null. -/
def finite (x : Double) : Json :=
  match x with
  | .finite _ => .number x
  | _ => .null

mutual

/-- A document within a graph, its numbers kept as text keeps them. -/
def asText : Json → Json
  | .number x => finite x
  | .array items => .array (asTextItems items)
  | .object members => .object (asTextMembers members)
  | j => j

def asTextItems : List Json → List Json
  | [] => []
  | v :: vs => asText v :: asTextItems vs

def asTextMembers : List (String × Json) → List (String × Json)
  | [] => []
  | (name, v) :: ms => (name, asText v) :: asTextMembers ms

end

/-- The labels of what has been written so far. -/
abbrev Seen := List String

def Seen.add (seen : Seen) : Option String → Seen
  | some label => label :: seen
  | none => seen

def Seen.knows (seen : Seen) : Option String → Bool
  | some label => seen.contains label
  | none => false

/-- What a call of a value comes to, if it is a function. -/
def called? : Thrown → Option (Result Unit)
  | .function _ (some failure) => some (.error failure)
  | .function _ none => some (.ok ())
  | _ => none

/-- What comes of an object that is to write itself. There is nothing that it writes, but it
may fail. A property that cannot be read is like one that holds such an object. -/
def ownWriting? (entries : List (String × Thrown)) : Option (Result Unit) :=
  entries.findSome? (fun e => if e.1 = "toJSON" then called? e.2 else none)

/-- What a value comes to: a document, nothing for what no document holds, or a
failure; and the labels written since. -/
abbrev Written := Result (Option Json × Seen)

section Graph
variable (expand : Seen → String → Written)

mutual

/-- The document of a value in a graph; `expand` writes what a reference stands for. A big
integer has no text. -/
def graph (seen : Seen) : Thrown → Written
  | .undefined | .symbol _ | .function .. => .ok (none, seen)
  | .null => .ok (some .null, seen)
  | .bool b => .ok (some (.bool b), seen)
  | .number x => .ok (some (finite x), seen)
  | .string s => .ok (some (.string s), seen)
  | .bigint _ => .error (.platform .bigInteger)
  | .date (.at ms) => .ok (some (.string (Expiry.instantText ms)), seen)
  | .date _ => .ok (some .null, seen)
  | .object label entries =>
    match ownWriting? entries with
    | some outcome => outcome.map (fun _ => (none, seen))
    | none =>
      if seen.knows label then .ok (some (.string circularMark), seen)
      else do
        let (members, seen) ← graphMembers (seen.add label) entries
        .ok (some (.object members), seen)
  | .array label items =>
    if seen.knows label then .ok (some (.string circularMark), seen)
    else do
      let (items, seen) ← graphItems (seen.add label) items
      .ok (some (.array items), seen)
  | .reference label =>
    if seen.contains label then .ok (some (.string circularMark), seen)
    else expand seen label
  | .error kind _ _ code _ => .ok (some (.object (asTextMembers (ownMembers kind code))), seen)

def graphItems (seen : Seen) : List Thrown → Result (List Json × Seen)
  | [] => .ok ([], seen)
  | v :: vs => do
    let (item, seen) ← graph seen v
    let (items, seen) ← graphItems seen vs
    .ok (item.getD .null :: items, seen)

def graphMembers (seen : Seen) :
    List (String × Thrown) → Result (Json.Members × Seen)
  | [] => .ok ([], seen)
  | (name, v) :: rest => do
    let (member, seen) ← graph seen v
    let (members, seen) ← graphMembers seen rest
    match member with
    | some j => .ok ((name, j) :: members, seen)
    | none => .ok (members, seen)

end
end Graph

/-- The labelled objects and lists of a value. -/
abbrev Labelled := List (String × Thrown)

mutual

def labelled : Thrown → Labelled
  | .object label entries =>
    (label.map (fun l => (l, Thrown.object label entries))).toList ++ labelledEntries entries
  | .array label items =>
    (label.map (fun l => (l, Thrown.array label items))).toList ++ labelledItems items
  | .error _ _ cause _ errors => labelledCause cause ++ labelledItems errors
  | _ => []

def labelledCause : Option Thrown → Labelled
  | none => []
  | some v => labelled v

def labelledItems : List Thrown → Labelled
  | [] => []
  | v :: vs => labelled v ++ labelledItems vs

def labelledEntries : List (String × Thrown) → Labelled
  | [] => []
  | (_, v) :: es => labelled v ++ labelledEntries es

end

/-- Writes what a label stands for. One expansion inside another is of a label not
seen before, so there are no deeper ones than there are labels. -/
def expansion (known : Labelled) : Nat → Seen → String → Written
  | 0, seen, _ => .ok (none, seen)
  | depth + 1, seen, label =>
    match known.find? (fun l => l.1 = label) with
    | some l => graph (expansion known depth) seen l.2
    | none => .ok (none, seen)

/-- The document of a whole graph, which has to hold something. -/
def serialise (known : Labelled) (v : Thrown) : Result Json := do
  match ← graph (expansion known known.length) [] v with
  | (some j, _) => .ok j
  | (none, _) => .error (.platform .documentText)

def tagged (type : String) (rest : Json.Members) : Json :=
  .object (("type", .string type) :: rest)

mutual

/-- The report of a value, given the labelled parts of all that was thrown. -/
def describe (known : Labelled) : Thrown → Result Json
  | .error kind message cause _ errors => do
    let basic : Json.Members :=
      [("name", .string kind.name), ("message", .string message), ("stack", .string stackMark)]
    let several ← match kind with
      | .aggregate => do
        let items ← describeItems known errors
        pure [("errors", Json.array items)]
      | _ => pure []
    let caused ← describeCause known cause
    pure (tagged "Error" (basic ++ several ++ caused))
  | .null => pure (tagged "null" [("value", .null)])
  | .undefined => pure (tagged "undefined" [])
  | .bool b => pure (tagged "boolean" [("value", .bool b)])
  | .number x => pure (tagged "number" [("value", .number x)])
  | .string s => pure (tagged "string" [("value", .string s)])
  | .function name _ =>
    pure (tagged "function" [("name", .string (if name = "" then "anonymous" else name))])
  | .bigint n => pure (tagged "bigint" [("value", .string (toString n))])
  | .symbol description =>
    pure (tagged "symbol" (description.map (fun d => ("description", Json.string d))).toList)
  | .array label items => do
    pure (tagged "array" [("value", ← serialise known (.array label items))])
  | .object label entries => do
    pure (tagged "object" [("value", ← serialise known (.object label entries))])
  | .date instant => do
    pure (tagged "object" [("value", ← serialise known (.date instant))])
  | .reference label =>
    match known.find? (fun l => l.1 = label) with
    | some (_, v) => do
      let type := match v with
        | .array .. => "array"
        | _ => "object"
      pure (tagged type [("value", ← serialise known v)])
    | none => pure (tagged "undefined" [])

def describeCause (known : Labelled) : Option Thrown → Result Json.Members
  | none => pure []
  | some .undefined => pure []
  | some cause => do pure [("cause", ← describe known cause)]

def describeItems (known : Labelled) : List Thrown → Result (List Json)
  | [] => pure []
  | v :: vs => do pure ((← describe known v) :: (← describeItems known vs))

end

/-- The report of a thrown value. An error is told by its kind, name, message and causes; other
values by their type and value. Of a graph, every object and list is written where it occurs
first and marked where it occurs again. -/
def ofThrown (v : Thrown) : Result Json := describe (labelled v) v

end Bearer.Report
