import EndpointTree.AuthContext
import EndpointTree.Handling.Handler

/-!
# Events of a channel

A client sends events, each a name with data; what is sent to it are messages,
whose data may be missing, and a request to close. Handlers of a channel are code
from outside: each turns data into data and may send, subscribe to changes, and
write to the store.
-/

namespace EndpointTree.Channel

/-- An event from a client. -/
structure Event where
  name : String
  data : Json
  deriving DecidableEq

/-- A message to a client. -/
structure Message where
  name : String
  data : Option Json
  deriving DecidableEq

/-- A message as a document; missing data is left out. -/
def Message.toJson (m : Message) : Json :=
  .object <| ("event", .string m.name) :: (m.data.map fun d => ("data", d)).toList

/-- What is handed to the writer of a connection. -/
inductive Outbound where
  | message (m : Message)
  | close
  deriving DecidableEq

/-! ## The names of the protocol -/

/-- The event that carries a credential. -/
def authenticateName : String := "authenticate"

/-- The message that asks for a credential. -/
def needAuthentication : Message := ⟨"needAuthentication", none⟩

/-- The message that confirms a credential. -/
def succeed : Message := ⟨"succeed", none⟩

/-- The message that refuses a connection, for a reason. -/
def unauthorized (reason : String) : Message :=
  ⟨"unauthorized", some (.object [("message", .string reason)])⟩

/-- The reason for a namespace that has no open channel. -/
def notAvailable : String := "not available"

/-- The reason for a handshake that ran out of time. -/
def failedToAuthenticate : String := "failed to authenticate"

/-- The message that reports a change. -/
def update (change : Change) : Message := ⟨"update", some change.toJson⟩

/-! ## Handlers -/

/-- What the handlers of a session see. -/
structure Context where
  /-- The path of the endpoint, parameters by name. -/
  path : String
  params : Dict String
  query : Dict String
  auth : AuthContext
  collection : Option String
  /-- The name of the event at hand, for message handlers. -/
  event : Option String := none

/-- A subscription to the changes that follow a position in the list of changes. -/
structure Watch where
  collection : String
  query : Query
  since : Nat

/-- How a handler ended. -/
inductive Outcome where
  | proceed (data : Json)
  | fail (fault : HandlerFault)
  | panic
  deriving DecidableEq

/-- What a handler did: its outcome, what it sent and subscribed to, and the store after it. -/
structure Reaction where
  outcome : Outcome
  sent : List Outbound := []
  watches : List Watch := []
  store : Store

/-- A step of a channel's fold. -/
abbrev Handler := Json → Context → Store → Reaction

/-- A channel handler with the name under which it was declared. -/
structure NamedHandler where
  name : String
  run : Handler

end EndpointTree.Channel
