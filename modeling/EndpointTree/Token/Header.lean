import EndpointTree.Json.Record
import EndpointTree.Token.Claims

/-!
# Headers of tokens

A header names the algorithm of its token and may hold nine further fields, each of
which may be `null`. It is an object, of which other members are passed over, or a
list of exactly the ten fields in their order. One of the fields is a key, whose
common parts are optional and whose other parts depend on its kind.

* `Token.headerAlgorithm?` is the algorithm that a header names.
-/

namespace EndpointTree.Token

/-- Whether a value is a list of texts. -/
def isTextList (v : Json) : Bool := (Claims.readRoles v).isSome

/-- Whether a value is a text. -/
def isText (v : Json) : Bool := v.string?.isSome

/-- A name out of a fixed set: a text, or the only key of an object that maps it to `null`. -/
def fixedName? : Json → Option String
  | .string name => some name
  | .object [(name, .null)] => some name
  | _ => none

/-- Whether a field is absent, `null`, or passes the test, and stands only once. -/
def optionalField (test : Json → Bool) (members : List (String × Json)) (key : String) : Bool :=
  match Claims.single key members with
  | none => false
  | some none | some (some .null) => true
  | some (some value) => test value

/-- Whether a field is there once and passes the test. -/
def requiredField (test : Json → Bool) (members : List (String × Json)) (key : String) : Bool :=
  match Claims.single key members with
  | some (some value) => test value
  | _ => false

/-! ## Keys -/

/-- The curves that a key may name. -/
def knownCurves : List String := ["P-256", "P-384", "P-521", "Ed25519"]

/-- Whether a value names the algorithm of a key, which may be any. -/
def isKeyAlgorithm : Json → Bool
  | .object [(_, .object [])] => true
  | v => (fixedName? v).isSome

/-- Whether members have the parts of one kind of key. -/
def isKind (kind : String) (curved : Bool) (texts : List String)
    (members : List (String × Json)) : Bool :=
  requiredField (fun v => fixedName? v = some kind) members "kty"
    && (!curved || requiredField (fun v => (fixedName? v).any knownCurves.contains) members "crv")
    && texts.all (requiredField isText members)

/-- Whether a value is a key of one of the four kinds, its optional parts well typed. -/
def isKey : Json → Bool
  | .object members =>
    ["use", "kid", "x5u", "x5t", "x5t#S256"].all (optionalField isText members)
      && ["key_ops", "x5c"].all (optionalField isTextList members)
      && optionalField isKeyAlgorithm members "alg"
      && (isKind "EC" true ["x", "y"] members || isKind "RSA" false ["n", "e"] members
        || isKind "oct" false ["k"] members || isKind "OKP" true ["x"] members)
  | _ => false

/-! ## Fields -/

/-- The algorithms that a header may name. -/
def knownAlgorithms : List String :=
  ["HS256", "HS384", "HS512", "ES256", "ES384", "RS256", "RS384", "RS512",
   "PS256", "PS384", "PS512", "EdDSA"]

/-- The fields of a header in their order. -/
def headerFields : List String :=
  ["typ", "alg", "cty", "jku", "jwk", "kid", "x5u", "x5c", "x5t", "x5t#S256"]

/-- Whether the fields besides the algorithm are of their types. -/
def hasFields (members : List (String × Json)) : Bool :=
  ["typ", "cty", "jku", "kid", "x5u", "x5t", "x5t#S256"].all (optionalField isText members)
    && optionalField isTextList members "x5c" && optionalField isKey members "jwk"

/-- The members of a header, in which a list has the fields by position. -/
def headerMembers? : Json → Option (List (String × Json))
  | .object members => some members
  | .array items =>
    if items.length = headerFields.length then some (headerFields.zip items) else none
  | _ => none

/-- The algorithm that a header names; none where the header is unreadable. -/
def headerAlgorithm? (bytes : ByteArray) : Option String := do
  let members ← headerMembers? (← Json.parseRecord? headerFields bytes)
  let algorithm ← (← Claims.single "alg" members).bind fixedName?
  if knownAlgorithms.contains algorithm && hasFields members then some algorithm else none

end EndpointTree.Token
