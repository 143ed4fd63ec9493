import EndpointTree.Http.Headers
import EndpointTree.Text.Blank

/-!
# Bearer tokens in requests

The first `Authorization` field decides. Its value has to be plain text that
starts with `Bearer` and one space, exactly so written, and holds something
other than blanks behind it.
-/

namespace EndpointTree.Token

inductive BearerFault where
  | missing
  | notPlain
  | empty
  | notBearer
  deriving DecidableEq, Repr

def BearerFault.message : BearerFault → String
  | .missing => "Missing Authorization header"
  | .notPlain => "Invalid Authorization header format"
  | .empty => "Empty JWT token"
  | .notBearer => "Authorization header must use Bearer token format"

/-- The text behind the scheme, if the value has the scheme. -/
def afterScheme? (value : List Char) : Option (List Char) :=
  let scheme := "Bearer ".toList
  if scheme.isPrefixOf value then some (value.drop scheme.length) else none

/-- The token of the request, without blanks around it. -/
def bearer (headers : Http.Headers) : Except BearerFault String :=
  match headers.get? "authorization" with
  | none => .error .missing
  | some bytes => match Http.plainText? bytes with
    | none => .error .notPlain
    | some value => match afterScheme? value.toList with
      | none => .error .notBearer
      | some rest =>
        let token := Text.trim rest
        if token.isEmpty then .error .empty else .ok (String.ofList token)

end EndpointTree.Token
