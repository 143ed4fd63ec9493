import EndpointTree.Channel.Table
import EndpointTree.Roles

/-!
# Sessions

A session is the life of one connection. It is refused, or asks for a credential
first, or is dispatched at once; a dispatched session runs the connect handlers,
then the message handlers for every event, and the disconnect handlers at last.
Here a session only says what is to be done; running handlers is done elsewhere,
so that nothing a handler does can change the course of a session.

Times are read off one clock. A deadline counts as reached at its very time, and
it is looked at before anything that arrives.

* `Session.start` opens a session, `Session.receive`, `Session.leave` and
  `Session.expire` carry it on.
* `Session.run` runs a session over timed inputs, `Session.handshake` only as long
  as it waits for a credential.
* `Session.serve` is the whole life of a connection.
-/

namespace EndpointTree.Channel

/-- The stages of a dispatched session, each with handlers of its own. -/
inductive Stage where
  | connect | message | disconnect
  deriving DecidableEq, Repr

/-- The handlers of a stage. -/
def Stage.handlers (stage : Stage) (h : ChannelHandlers) : List NamedHandler :=
  match stage with
  | .connect => h.connect
  | .message => h.message
  | .disconnect => h.disconnect

/-- How a session ended. -/
inductive SessionEnd where
  /-- No route, or one whose entry forbids it. -/
  | notAvailable
  /-- No valid credential before the deadline. -/
  | timedOut
  /-- The client left before it was dispatched. -/
  | abandoned
  /-- The client left, and the disconnect handlers have run. -/
  | disconnected
  deriving DecidableEq, Repr

/-- What a session asks to be done. -/
inductive Action where
  | send (outbound : Outbound)
  | run (stage : Stage) (handlers : List NamedHandler) (input : Json) (context : Context)

/-- What a connection asked for: the context of its handlers, and the handlers. -/
structure Visit where
  context : Context
  handlers : ChannelHandlers

/-- Where a session stands. -/
inductive Session where
  | waiting (visit : Visit) (requirement : Requirement) (deadline : Nat)
  | dispatched (visit : Visit)
  | ended (how : SessionEnd)

namespace Visit

/-- The visit to a route, with a query freed of the transport's keys. -/
def ofRoute (route : Route) (params query : Dict String) : Visit where
  context :=
    { path := route.path
      params
      query := withoutTransport query
      auth := .anonymous
      collection := route.collection }
  handlers := route.handlers

/-- A query as the object that the connect handlers are given. -/
def queryJson (query : Dict String) : Json :=
  .object (query.toList.map fun (key, value) => (key, .string value))

/-- The action that runs a stage. -/
def action (v : Visit) (stage : Stage) (input : Json) (event : Option String) : Action :=
  .run stage (stage.handlers v.handlers) input { v.context with event }

end Visit

namespace Session

/-- The way the session ended, if it has. -/
def end? : Session → Option SessionEnd
  | .ended how => some how
  | _ => none

/-- The caller's context that a credential makes; none where the credential does not do. -/
def credential? (verifier : Verifier) (r : Requirement) (data : Json) : Option AuthContext :=
  match (data.member? "token").bind Json.string? with
  | none => none
  | some token => match verifier token with
    | .error _ => none
    | .ok claims =>
      if Roles.satisfies r.roles claims.roles then some (.authenticatedBy token claims) else none

/-- Refuse a connection. -/
def refuse : Session × List Action :=
  (.ended .notAvailable, [.send (.message (unauthorized notAvailable)), .send .close])

/-- Dispatch a visit on behalf of a caller. -/
def dispatch (v : Visit) (auth : AuthContext) : Session × List Action :=
  let visit := { v with context := { v.context with auth } }
  (.dispatched visit, [visit.action .connect (Visit.queryJson v.context.query) none])

/-- Open a session at a time. -/
def start (table : Table) (timeout now : Nat) (namespaceText : String) (query : Dict String) :
    Session × List Action :=
  match route? table namespaceText with
  | none => refuse
  | some (route, params) => match route.access with
    | .forbidden => refuse
    | .required r =>
      let visit := Visit.ofRoute route params query
      if r.auth then
        (.waiting visit r (now + timeout), [.send (.message needAuthentication)])
      else dispatch visit .anonymous

/-- Look at the clock: at its deadline a waiting session ends. -/
def expire (now : Nat) : Session → Session × List Action
  | .waiting visit r deadline =>
    if deadline ≤ now then
      (.ended .timedOut, [.send (.message (unauthorized failedToAuthenticate)), .send .close])
    else (.waiting visit r deadline, [])
  | other => (other, [])

/-- Take an event that is on time. -/
def take (verifier : Verifier) (e : Event) : Session → Session × List Action
  | .waiting visit r deadline =>
    if e.name = authenticateName then
      match credential? verifier r e.data with
      | some auth =>
        let (session, actions) := dispatch visit auth
        (session, .send (.message succeed) :: actions)
      | none => (.waiting visit r deadline, [])
    else (.waiting visit r deadline, [])
  | .dispatched visit =>
    if e.name = authenticateName then (.dispatched visit, [])
    else (.dispatched visit, [visit.action .message e.data (some e.name)])
  | .ended how => (.ended how, [])

/-- Take the news that the client has left, in time. -/
def depart : Session → Session × List Action
  | .waiting _ _ _ => (.ended .abandoned, [])
  | .dispatched visit => (.ended .disconnected, [visit.action .disconnect .null none])
  | .ended how => (.ended how, [])

/-- Follow one step by another. -/
def andThen (step : Session × List Action) (next : Session → Session × List Action) :
    Session × List Action :=
  let (session, actions) := step
  let (last, further) := next session
  (last, actions ++ further)

/-- An event arrives. -/
def receive (verifier : Verifier) (now : Nat) (e : Event) (s : Session) : Session × List Action :=
  andThen (s.expire now) (take verifier e)

/-- The client leaves. -/
def leave (now : Nat) (s : Session) : Session × List Action := andThen (s.expire now) depart

/-! ## Runs -/

/-- What may happen to a session from outside. -/
inductive Input where
  | event (e : Event)
  | leave
  /-- Nothing but the passing of time. -/
  | pause

/-- Take an input at a time. -/
def step (verifier : Verifier) (now : Nat) : Input → Session → Session × List Action
  | .event e, s => s.receive verifier now e
  | .leave, s => s.leave now
  | .pause, s => s.expire now

/-- Take timed inputs one after another; the actions of all of them are kept in order. -/
def run (verifier : Verifier) (s : Session) : List (Nat × Input) → Session × List Action
  | [] => (s, [])
  | (now, input) :: rest => andThen (s.step verifier now input) fun s => run verifier s rest

/-- How the wait for a credential can end. -/
inductive Handshake where
  | authenticated (auth : AuthContext)
  | timedOut
  | closed
  deriving DecidableEq

/-- The end of the wait that a session shows as soon as it waits no longer. -/
def handshake? : Session → Option Handshake
  | .waiting _ _ _ => none
  | .dispatched visit => some (.authenticated visit.context.auth)
  | .ended .timedOut => some .timedOut
  | .ended .abandoned => some .closed
  | .ended .notAvailable | .ended .disconnected => none

/-- Take inputs until a session waits no longer: the time of that, and how the wait ended. -/
def handshake (verifier : Verifier) (s : Session) : List (Nat × Input) → Option (Nat × Handshake)
  | [] => none
  | (now, input) :: rest =>
    let next := (s.step verifier now input).1
    match next.handshake? with
    | some how => some (now, how)
    | none => handshake verifier next rest

/-- Inputs with a look at the clock at a deadline, before whatever arrives then or later. -/
def withDeadline (deadline : Nat) (inputs : List (Nat × Input)) : List (Nat × Input) :=
  inputs.takeWhile (·.1 < deadline) ++ (deadline, .pause) :: inputs.dropWhile (·.1 < deadline)

/-- Serve a connection that is opened at a time over what comes in from then on. -/
def serve (verifier : Verifier) (table : Table) (timeout now : Nat) (namespaceText : String)
    (query : Dict String) (inputs : List (Nat × Input)) : Session × List Action :=
  andThen (start table timeout now namespaceText query) fun s =>
    run verifier s (withDeadline (now + timeout) inputs)

end Session

/-- What comes in on a connection, in times since it was opened. -/
structure Inbound where
  events : List (Nat × Event)
  /-- When the client leaves, if it ever does; what is on its way by then is still read. -/
  left : Option Nat
  ordered : events.Pairwise fun a b => a.1 ≤ b.1
  left_last : ∀ c ∈ left, ∀ e ∈ events, e.1 ≤ c

namespace Inbound

/-- The inputs of a session that was opened at a time. -/
def inputs (i : Inbound) (start : Nat) : List (Nat × Session.Input) :=
  i.events.map (fun (t, e) => (start + t, .event e)) ++
    (i.left.map fun t => (start + t, .leave)).toList

end Inbound

end EndpointTree.Channel
