import Bearer.Crypto.PrivateKey
import Bearer.Crypto.Sha256
import Bearer.Error.Fault
import Bearer.Json.Reader
import Bearer.Json.Writer
import Bearer.Text.Form

namespace Bearer.Crypto

/-- The power `b ^ e` modulo `m` by repeated squaring, for exponents below `2 ^ bits`. -/
def powMod (m : Nat) : Nat → Nat → Nat → Nat
  | 0, _, _ => 1 % m
  | bits + 1, b, e =>
    let half := powMod m bits (b * b % m) (e / 2)
    if e % 2 = 1 then half * b % m else half

/-- What tells that a SHA-256 hash follows. -/
def hashMark : List UInt8 :=
  [0x30, 0x31, 0x30, 0x0d, 0x06, 0x09, 0x60, 0x86, 0x48, 0x01, 0x65, 0x03, 0x04, 0x02, 0x01, 0x05,
   0x00, 0x04, 0x20]

/-- The hash of a message, marked and padded to so many bytes. -/
def encoded (size : Nat) (message : List UInt8) : List UInt8 :=
  let tail := hashMark ++ Sha256.hash message
  0x00 :: 0x01 :: List.replicate (size - tail.length - 3) 0xff ++ 0x00 :: tail

def bitLength (n : Nat) : Nat := if n = 0 then 0 else n.log2 + 1

namespace PrivateKey

/-- The signature of some bytes; only keys with a modulus sign. -/
def sign (key : PrivateKey) (message : List UInt8) : List UInt8 :=
  match key with
  | rsa modulus exponent =>
    let size := (bitLength modulus + 7) / 8
    let value := powMod modulus (bitLength exponent) (natOf (encoded size message)) exponent
    Sha256.bytesOf value size
  | other => []

def ofSetting (keys : KeyReader) (text : Given String) : Result PrivateKey :=
  match text.toOption.bind keys with
  | some key => .ok key
  | none => Fault.invalidPrivateKey.raise

/-- The shortest modulus, in bits, with which a token may be signed. -/
def leastTokenBits : Nat := 2048

end PrivateKey

def segment (bytes : List UInt8) : List Char := Text.Base64.encodeSafe bytes

/-- A signed token: header, claims and the signature over both. -/
def signedToken (key : PrivateKey) (keyId : Option String) (claims : Json.Members) :
    Result String := do
  let header : Json.Members :=
    [("alg", .string "RS256"), ("typ", .string "JWT")]
      ++ (keyId.map (fun k => ("kid", Json.string k))).toList
  match key with
  | .other => throw (.platform .wrongKey)
  | .rsa modulus _ =>
    if bitLength modulus < PrivateKey.leastTokenBits then throw (.platform .weakKey)
    else
      let part (members : Json.Members) : List Char :=
        segment (Text.Utf8.encode (Json.object members).write)
      let signed := part header ++ '.' :: part claims
      .ok (String.ofList (signed ++ '.' :: segment (key.sign (Text.Utf8.encode signed))))

structure SignedParts where
  header : Json
  payload : Json
  signature : String

/-- Takes a signed token apart, without looking at the signature. -/
def SignedParts.ofText? (token : String) : Option SignedParts :=
  let document? (cs : List Char) : Option Json :=
    Json.parse (String.ofList (Text.Utf8.decode (Text.Base64.decode cs)))
  match Text.Form.splitAt '.' token.toList with
  | [header, payload, signature] => do
    some ⟨← document? header, ← document? payload, String.ofList signature⟩
  | _ => none

end Bearer.Crypto
