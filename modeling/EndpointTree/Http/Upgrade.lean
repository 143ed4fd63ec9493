import EndpointTree.Http.Message

/-!
# Upgrades to a socket

A request for a socket has to say so in four header fields, and its connection has
to be one that can be taken over. The first thing that is amiss decides the answer.
-/

namespace EndpointTree.Http.Upgrade

/-- What keeps a request from becoming a socket. -/
inductive Fault where
  | methodNotGet
  | noUpgradeConnection
  | noSocketProtocol
  | wrongVersion
  | noKey
  | fixedConnection
  deriving DecidableEq, Repr

/-- The text that answers a request for a socket that is amiss. -/
def Fault.message : Fault → String
  | .methodNotGet => "Request method must be `GET`"
  | .noUpgradeConnection => "Connection header did not include 'upgrade'"
  | .noSocketProtocol => "`Upgrade` header did not include 'websocket'"
  | .wrongVersion => "`Sec-WebSocket-Version` header did not include '13'"
  | .noKey => "`Sec-WebSocket-Key` header missing"
  | .fixedConnection =>
    "WebSocket request couldn't be upgraded since no upgrade state was present"

/-- The status that goes with the text. -/
def Fault.status : Fault → Nat
  | .methodNotGet => 405
  | .noUpgradeConnection | .noSocketProtocol | .wrongVersion | .noKey => 400
  | .fixedConnection => 426

def lowerByte (b : UInt8) : UInt8 := if 65 ≤ b ∧ b ≤ 90 then b + 32 else b

/-- Whether a field has that value, whatever the case of its letters. -/
def hasValue (headers : Headers) (name value : String) : Bool :=
  (headers.get? name).any fun v => v.map lowerByte = Reply.headerValue value

/-- Whether a list is somewhere inside another. -/
def isInside (part : List UInt8) : List UInt8 → Bool
  | [] => part.isEmpty
  | b :: rest => part.isPrefixOf (b :: rest) || isInside part rest

/-- Whether a field is a text that mentions a word, whatever the case of its letters. -/
def mentions (headers : Headers) (name word : String) : Bool :=
  (headers.get? name).any fun v =>
    (String.fromUTF8? ⟨v.toArray⟩).isSome && isInside (Reply.headerValue word) (v.map lowerByte)

/-- The first thing that keeps a request from becoming a socket. -/
def fault? (r : Request) : Option Fault :=
  if r.method ≠ "GET" then some .methodNotGet
  else if !mentions r.headers "connection" "upgrade" then some .noUpgradeConnection
  else if !hasValue r.headers "upgrade" "websocket" then some .noSocketProtocol
  else if !hasValue r.headers "sec-websocket-version" "13" then some .wrongVersion
  else if !r.headers.has "sec-websocket-key" then some .noKey
  else if !r.upgradable then some .fixedConnection
  else none

/-- The request with which a client asks for a socket. -/
def request (target : Target) : Request where
  method := "GET"
  target
  headers :=
    [("connection", "Upgrade"), ("upgrade", "websocket"), ("sec-websocket-version", "13"),
     ("sec-websocket-key", "dGhlIHNhbXBsZSBub25jZQ==")].map
      fun (name, value) => (name, Reply.headerValue value)
  upgradable := true

/-- The reply to a request that cannot become a socket. -/
def refusal (f : Fault) : Reply := .plain f.status f.message

end EndpointTree.Http.Upgrade
