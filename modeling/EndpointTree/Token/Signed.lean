import EndpointTree.Digest.Sha256
import EndpointTree.Text.Base64Url
import EndpointTree.Token.Header

/-!
# Signed tokens

A token is three texts joined by dots: a header, a payload of claims and a
signature over the first two. The signature is a keyed digest, which stands as a
parameter; only one algorithm is ever accepted. The expiry is enforced where it
is present and not negative, with a minute of leeway, and is never demanded.

* `Token.issue` writes a token, `Token.verify` reads one.
-/

namespace EndpointTree

/-- Why a token is not accepted. -/
inductive TokenFault where
  | missingSecret
  | notThreeParts
  | notBase64
  | notReadable
  | wrongAlgorithm
  | wrongSignature
  | expired
  | unknownAudience
  deriving DecidableEq, Repr

/-- The wording of a fault. -/
def TokenFault.message : TokenFault → String
  | .missingSecret => "JWT secret not configured"
  | .notThreeParts => "Invalid JWT token: InvalidToken"
  | .notBase64 => "Invalid JWT token: Base64 error"
  | .notReadable => "Invalid JWT token: JSON error"
  | .wrongAlgorithm => "Invalid JWT token: InvalidAlgorithm"
  | .wrongSignature => "Invalid JWT token: InvalidSignature"
  | .expired => "Invalid JWT token: ExpiredSignature"
  | .unknownAudience => "Invalid JWT token: InvalidAudience"

/-- A token verifier: claims for an accepted token, a fault for any other. -/
abbrev Verifier := String → Except TokenFault Claims

namespace Token

/-- A keyed digest: the key, the message, the digest. -/
abbrev Mac := List UInt8 → List UInt8 → List UInt8

/-- The bytes of a text. -/
def utf8 (s : String) : List UInt8 := s.toUTF8.toList

/-- A text as one part of a token. -/
def encodeText (s : String) : List Char := Text.Base64Url.encode (utf8 s)

/-- The header of every token that is issued. -/
def header : Json := .object [("typ", .string "JWT"), ("alg", .string "HS256")]

/-- The last part of a token: the digest of the two parts before it and the dot between them. -/
def signature (mac : Mac) (secret : String) (message : List Char) : List Char :=
  Text.Base64Url.encode (mac (utf8 secret) (utf8 (String.ofList message)))

/-- Sign claims. An empty secret signs nothing. -/
def issue (mac : Mac) (secret : String) (claims : Claims) : Except TokenFault String :=
  if secret = "" then .error .missingSecret
  else
    let message := encodeText header.text ++ '.' :: encodeText claims.toJson.text
    .ok (String.ofList (message ++ '.' :: signature mac secret message))

/-- Cut a text at its last dot; none where it has no dot. -/
def cutLast (s : List Char) : Option (List Char × List Char) :=
  let tail := s.reverse.takeWhile (· ≠ '.')
  match s.reverse.dropWhile (· ≠ '.') with
  | [] => none
  | _ :: front => some (front.reverse, tail.reverse)

/-- Decode a part of a token and read it. -/
def readPart {α : Type} (read : ByteArray → Option α) (part : List Char) : Except TokenFault α :=
  match Text.Base64Url.decode? part with
  | none => .error .notBase64
  | some bytes => match read ⟨bytes.toArray⟩ with
    | some value => .ok value
    | none => .error .notReadable

/-- Read the members of a payload, repeated keys kept. -/
def payloadMembers? (bytes : ByteArray) : Option (List (String × Json)) :=
  (Json.parseRaw bytes).toOption.bind Json.members?

/-- Whether a claim can stand where a time is expected: only filled lists and objects cannot. -/
def isTimeLike : Json → Bool
  | .array items => items.isEmpty
  | .object members => members.isEmpty
  | _ => true

/-- Whether a value names one audience or lists several. -/
def isAudience : Json → Bool
  | .string _ => true
  | .array items => items.all (·.string?.isSome)
  | _ => false

/-- The seconds by which an expiry may be past. -/
def leeway : Int := 60

/-- Whether an expiry is past: a negative one never is. -/
def isPast (now expiry : Int) : Bool := 0 ≤ expiry && expiry < now - leeway

/-- Check the claims that limit where and when a token counts. -/
def checkClaims (now : Int) (claims : Claims) (members : List (String × Json)) :
    Except TokenFault Claims :=
  match Claims.single "nbf" members, Claims.single "iss" members, Claims.single "aud" members with
  | some notBefore, some _, some audience =>
    if !(notBefore.map isTimeLike).getD true then .error .notReadable
    else if (claims.expiry.map fun t => isPast now t.toInt).getD false then .error .expired
    else if (audience.map isAudience).getD false then .error .unknownAudience
    else .ok claims
  | _, _, _ => .error .notReadable

/-- Accept a token signed with the secret, at a time in seconds. -/
def verify (mac : Mac) (secret : String) (now : Int) (token : String) : Except TokenFault Claims :=
  if secret = "" then .error .missingSecret
  else match cutLast token.toList with
    | none => .error .notThreeParts
    | some (message, sign) => match cutLast message with
      | none => .error .notThreeParts
      | some (head, payload) => do
        let algorithm ← readPart headerAlgorithm? head
        if algorithm ≠ "HS256" then .error .wrongAlgorithm
        else if sign ≠ signature mac secret message then .error .wrongSignature
        else
          let members ← readPart payloadMembers? payload
          match Claims.ofMembers members with
          | some claims => checkClaims now claims members
          | none => .error .notReadable

end Token

end EndpointTree
