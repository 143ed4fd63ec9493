import EndpointTree.Channel.Fold
import EndpointTree.Channel.Frame
import EndpointTree.Channel.Observe
import EndpointTree.Serving.Routes

/-!
# Live connections

Connections live side by side over one store and one clock. What happens to one of
them is taken to its end before anything else happens; after that every
subscription reports the changes that were published in the meantime.

A direct connection is received by code, which may go on listening when the session
is over. A socket is received by a client at the other end: a request to close is
the last thing that reaches it, and it answers by leaving.

* `Live.openDirect`, `Live.openSocket`, `Live.arrive`, `Live.depart`, `Live.detach`
  and `Live.advance` are what can happen.
* `Live.settle` reports changes, and `Live.collect` hands over what was received.
-/

namespace EndpointTree.Serving

/-- How a connection is received. -/
inductive Transport where
  | direct | socket
  deriving DecidableEq, Repr

/-- How a connection ended, as its client sees it. -/
inductive Ending where
  | session (how : Channel.SessionEnd)
  | closed
  deriving DecidableEq, Repr

structure Connection where
  id : String
  transport : Transport
  session : Channel.Session
  /-- Subscriptions in the order in which they were made. -/
  watches : List Channel.Watch := []
  /-- Whether somebody receives what is sent. -/
  attached : Bool := true
  /-- Whether the writer of a socket still writes. -/
  writing : Bool := true
  /-- What was received and has not been collected. -/
  received : List Channel.Outbound := []
  /-- Whether its ending has been collected. -/
  reported : Bool := false

namespace Connection

/-- Hand what was sent to whoever receives it. -/
def deliver (c : Connection) (sent : List Channel.Outbound) : Connection :=
  match c.transport with
  | .direct => if c.attached then { c with received := c.received ++ sent } else c
  | .socket =>
    if !c.writing then c
    else
      let frames := Channel.written sent
      let closing := frames.contains .close
      { c with
        received := if c.attached then c.received ++ frames else c.received
        writing := !closing }

/-- Whether what is sent still has somewhere to go; subscriptions end where it has not. -/
def isReceiving (c : Connection) : Bool :=
  match c.transport with
  | .direct => c.attached
  | .socket => c.writing

/-- Keep subscriptions only where they have somewhere to report to. -/
def keepWatches (c : Connection) (watches : List Channel.Watch) : Connection :=
  { c with watches := if c.isReceiving then watches else [] }

/-- Take a step of the session, and do what it asks for. -/
def carryOn (c : Connection) (step : Channel.Session × List Channel.Action) (store : Store) :
    Connection × Store :=
  let effects := Channel.performAll store step.2
  let next := { c with session := step.1 }.deliver effects.sent
  (next.keepWatches (c.watches ++ effects.watches), effects.store)

/-- A client at the other end of a socket answers a request to close by leaving. -/
def answerClose (now : Nat) (c : Connection) (store : Store) : Connection × Store :=
  if c.transport = .socket && c.attached && !c.writing then
    c.carryOn (c.session.leave now) store
  else (c, store)

/-- Take a step of the session to its end. -/
def follow (now : Nat) (step : Channel.Session × List Channel.Action) (c : Connection)
    (store : Store) : Connection × Store :=
  let (c, store) := c.carryOn step store
  c.answerClose now store

/-- Whether the session still listens. -/
def isListening (c : Connection) : Bool := c.session.end?.isNone

/-- How the connection has ended, if its client can tell. -/
def ending? (c : Connection) : Option Ending :=
  match c.transport with
  | .direct => c.session.end?.map .session
  | .socket => if c.attached && !c.isListening then some .closed else none

end Connection

/-- Connections over a store, at a time in milliseconds. -/
structure Live where
  store : Store
  now : Nat := 0
  connections : List Connection := []

namespace Live

def find? (l : Live) (id : String) : Option Connection :=
  l.connections.find? fun c => c.id = id

/-- Change the connection under an id, and the store with it. -/
def update (l : Live) (id : String) (change : Connection → Store → Connection × Store) : Live :=
  match l.find? id with
  | none => l
  | some c =>
    let (next, store) := change c l.store
    { l with
      store
      connections := l.connections.map fun d => if d.id = id then next else d }

/-- Put a connection at the end; one of the same id gives way. -/
def add (l : Live) (c : Connection) : Live :=
  { l with connections := (l.connections.filter fun d => d.id ≠ c.id) ++ [c] }

/-! ## What can happen -/

def arrive (l : Live) (verifier : Verifier) (id : String) (e : Channel.Event) : Live :=
  l.update id fun c store => c.follow l.now (c.session.receive verifier l.now e) store

/-- Open a connection with events that are already on their way. -/
def openWith (l : Live) (app : Application) (table : Channel.Table) (transport : Transport)
    (id namespaceText : String) (query : Dict String) (queue : List Channel.Event) : Live :=
  let (session, actions) :=
    Channel.Session.start table app.settings.authTimeoutMs l.now namespaceText query
  let opened := l.add { id, transport, session }
  let started := opened.update id fun c store => c.follow l.now (session, actions) store
  let timed := started.update id fun c store => c.follow l.now (c.session.expire l.now) store
  queue.foldl (fun l e => l.arrive app.verifier id e) timed

/-- Open a connection that is received by code. -/
def openDirect (l : Live) (app : Application) (table : Channel.Table)
    (id namespaceText : String) (query : Dict String) (queue : List Channel.Event) : Live :=
  l.openWith app table .direct id namespaceText query queue

def openSocket (l : Live) (app : Application) (table : Channel.Table)
    (id namespaceText : String) (query : Dict String) : Live :=
  l.openWith app table .socket id namespaceText query []

/-- The client leaves; at a socket it takes its ears along. -/
def depart (l : Live) (id : String) : Live :=
  l.update id fun c store =>
    let c := if c.transport = .socket then { c with writing := false, watches := [] } else c
    c.carryOn (c.session.leave l.now) store

/-- Nobody receives any more. -/
def detach (l : Live) (id : String) : Live :=
  l.update id fun c store =>
    let c := { c with attached := false }
    (c.keepWatches c.watches, store)

/-- Time passes. -/
def advance (l : Live) (ms : Nat) : Live :=
  let now := l.now + ms
  (l.connections.map (·.id)).foldl
    (fun l id => l.update id fun c store => c.follow now (c.session.expire now) store)
    { l with now }

/-! ## Changes -/

/-- The most changes that a subscription can be behind. -/
def backlog : Nat := 256

/-- What a subscription reports of the changes since its position; of too many the oldest go. -/
def reports (changes : List Change) (w : Channel.Watch) : List Channel.Outbound :=
  let pending := changes.drop w.since
  ((pending.drop (pending.length - backlog)).filter w.accepts).map fun change =>
    .message (Channel.update change)

/-- Report changes to one connection, one subscription after another. -/
def notify (changes : List Change) (c : Connection) : Connection :=
  let moved := c.watches.map fun w => { w with since := changes.length }
  { c.deliver (c.watches.flatMap (reports changes)) with watches := moved }

/-- Report the changes that were published since the last time. -/
def settle (l : Live) : Live :=
  { l with connections := l.connections.map (notify l.store.changes) }

/-! ## What was received -/

/-- What clients received, in the order in which the connections were opened. -/
def received (l : Live) : List (String × List Channel.Outbound) :=
  (l.connections.filter fun c => !c.received.isEmpty).map fun c => (c.id, c.received)

/-- The endings that have not been reported. -/
def endings (l : Live) : List (String × Ending) :=
  l.connections.filterMap fun c =>
    if c.reported then none else c.ending?.map fun how => (c.id, how)

/-- Hand over what was received and which connections ended. -/
def collect (l : Live) : Live :=
  { l with
    connections := l.connections.map fun c =>
      { c with received := [], reported := c.reported || c.ending?.isSome } }

end Live

end EndpointTree.Serving
