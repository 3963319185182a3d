import Bearer.Error.Fault

namespace Bearer

/-- Header names with their values, to be merged into requests. -/
abbrev Metadata := List (String × List String)

/-- An access token: an opaque value and when it ends. -/
structure Token where
  value : String
  expiry : Expiry
deriving DecidableEq

inductive Freshness where
  | fresh
  | stale
  | expired
deriving DecidableEq

namespace Freshness

def name : Freshness → String
  | fresh => "fresh"
  | stale => "stale"
  | expired => "expired"

/-- With less life left than this a token counts as expired. -/
def minimumValidity : Nat := 300000

/-- With less life left than this a token is refreshed in the background. -/
def refreshMargin : Nat := 360000

/-- How fresh something is that has so much life left; fresh also if that is no
number. -/
def ofRemaining (remaining : Double) : Freshness :=
  if remaining.lt (Double.ofNat minimumValidity) then expired
  else if remaining.lt (Double.ofNat refreshMargin) then stale
  else fresh

end Freshness

namespace Token

def authorizationHeader : String := "Authorization"

def bearerScheme : String := "Bearer "

def metadata (t : Token) : Metadata := [(authorizationHeader, [bearerScheme ++ t.value])]

def freshness (t : Token) (now : Double) : Freshness :=
  match t.expiry.toNumber? with
  | none => .fresh
  | some at_ => .ofRemaining (at_ - now)

/-- Same value and same instant; an invalid instant is the same as none. -/
def same (t u : Token) : Bool :=
  t.value = u.value && t.expiry = u.expiry && t.expiry ≠ .invalid

def text (t : Token) : Result String :=
  match t.expiry with
  | .never => .ok "AccessToken(expiration=never)"
  | .at ms => .ok ("AccessToken(expiration=" ++ Expiry.instantText ms ++ ")")
  | .invalid => .error (.platform .invalidTime)

def document (t : Token) : Json :=
  .object (("value", .string t.value)
    :: (t.expiry.toNumber?.map (fun ms => ("expirationTime", Json.number ms))).toList)

/-- A token that ends so many seconds after a reading of the clock. -/
def lasting (value : String) (now seconds : Double) : Token :=
  ⟨value, .ofNumber (now + seconds * Double.ofNat 1000)⟩

end Token

namespace Metadata

def document (m : Metadata) : Json :=
  .object (m.map (fun h => (h.1, .array (h.2.map .string))))

/-- Replaces one header or adds it at the end. -/
def set (m : Metadata) (name : String) (values : List String) : Metadata :=
  match m with
  | [] => [(name, values)]
  | h :: rest => if h.1 = name then (name, values) :: rest else h :: set rest name values

end Metadata
end Bearer
