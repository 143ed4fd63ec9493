import EndpointTree.Channel.Fold
import EndpointTree.Channel.Frame

/-!
# Sockets

Three work on a socket side by side. The reader turns what comes in into events and
leaves them for the session; the session takes them one at a time, does what they ask
for, and leaves what is to be sent for the writer; the writer puts out a frame for
each. Whoever has a hold of the connection may leave something for the writer too.
Nobody waits for another but where there is nothing to take, so it is open who moves
next: that is what a schedule says. A step of the session is one move, whatever its
handlers do to the store; what they send goes out one by one, with room for the moves of
others in between.

The reader stops at the first close or failure, the writer at the first request to
close. A session that has ended requests it as the last thing that it sends, and
nothing is read any more.

* `Socket.opened` is a socket at its opening.
* `Socket.move` is what one of them does, and `Socket.run` runs a schedule.
-/

namespace EndpointTree.Channel

/-- What a reader is given. -/
inductive Incoming where
  | frame (f : Frame)
  | close
  /-- An error, or nothing further. -/
  | failure

/-- The event in what a reader is given. -/
def Incoming.event? : Incoming → Option Event
  | .frame f => f.event?
  | .close | .failure => none

/-- Whether a reader reads on after it. -/
def Incoming.isFrame : Incoming → Bool
  | .frame _ => true
  | .close | .failure => false

/-- A frame to a client. -/
inductive Outgoing where
  | text (text : String)
  | close
  deriving DecidableEq

/-- The frame that a writer puts out. -/
def Outbound.frame : Outbound → Outgoing
  | .message m => .text m.toJson.text
  | .close => .close

/-- A socket, with a record of what has passed on it. -/
structure Socket where
  session : Session
  store : Store
  /-- Whether the reader reads on. -/
  reading : Bool := true
  /-- Events that were read and not taken yet. -/
  inbox : List Event := []
  /-- What the last step of the session has still to send. -/
  pending : List Outbound := []
  /-- What was sent and not written yet. -/
  outbox : List Outbound := []
  /-- Whether the writer writes on. -/
  writing : Bool := true
  /-- The inputs that the session took. -/
  taken : List (Nat × Session.Input) := []
  /-- What the session asked for, each time with the store at which it was done. -/
  asked : List (Store × List Action) := []
  /-- What the session sent. -/
  said : List Outbound := []
  /-- What was sent by the session and by others. -/
  sent : List Outbound := []
  /-- The frames that the writer put out. -/
  frames : List Outgoing := []

/-- What may happen next on a socket. -/
inductive Move where
  /-- The reader is given something. -/
  | reads (item : Incoming)
  /-- The session takes a step, if it is not in the midst of one. -/
  | steps
  /-- The session sends the next thing that it has to send. -/
  | sends
  /-- Somebody else sends something. -/
  | others (o : Outbound)
  /-- The writer writes what is next. -/
  | writes
  /-- The socket does not take what is next, and the writer gives up. -/
  | fails
  /-- The store is changed from elsewhere. -/
  | stores (store : Store)

namespace Socket

/-- Whether the session has ended and has nothing more to send. -/
def isOver (w : Socket) : Bool := w.session.end?.isSome && w.pending.isEmpty

/-- What the session finds when it looks: an event, or that none will come, or neither. -/
def input (w : Socket) : Session.Input :=
  match w.inbox with
  | e :: _ => .event e
  | [] => if w.reading then .pause else .leave

/-- Do what a step of the session asks for; what it sends is pending. -/
def perform (w : Socket) (step : Session × List Action) : Socket :=
  let effects := performAll w.store step.2
  { w with
    session := step.1
    store := effects.store
    pending := effects.sent ++ if step.1.end?.isSome then [.close] else []
    asked := w.asked ++ [(w.store, step.2)] }

/-- A socket that is opened at a time. -/
def opened (table : Table) (timeout now : Nat) (namespaceText : String) (query : Dict String)
    (store : Store) : Socket :=
  let start := Session.start table timeout now namespaceText query
  perform { session := start.1, store } start

/-- The reader is given something. -/
def read (w : Socket) (item : Incoming) : Socket :=
  if w.reading && !w.isOver then
    { w with inbox := w.inbox ++ item.event?.toList, reading := item.isFrame }
  else w

/-- The session takes a step. -/
def step (verifier : Verifier) (now : Nat) (w : Socket) : Socket :=
  if w.session.end?.isNone && w.pending.isEmpty then
    perform { w with inbox := w.inbox.tail, taken := w.taken ++ [(now, w.input)] }
      (w.session.step verifier now w.input)
  else w

/-- Leave something for the writer, if it still writes. -/
def leave (w : Socket) (o : Outbound) : Socket :=
  { w with
    sent := w.sent ++ [o]
    outbox := if w.writing then w.outbox ++ [o] else w.outbox }

/-- The session sends the next thing that it has to send. -/
def send (w : Socket) : Socket :=
  match w.pending with
  | [] => w
  | o :: rest => leave { w with pending := rest, said := w.said ++ [o] } o

/-- The writer stops, and what waits for it is lost. -/
def stop (w : Socket) : Socket := { w with outbox := [], writing := false }

/-- The writer writes what is next. -/
def write (w : Socket) : Socket :=
  match w.outbox with
  | [] => w
  | o :: rest =>
    let next := { w with outbox := rest, frames := w.frames ++ [o.frame] }
    if o = .close then next.stop else next

/-- The socket does not take what is next. -/
def fail (w : Socket) : Socket := if w.outbox.isEmpty then w else w.stop

/-- Make a move at a time. -/
def move (verifier : Verifier) (now : Nat) (w : Socket) : Move → Socket
  | .reads item => w.read item
  | .steps => w.step verifier now
  | .sends => w.send
  | .others o => w.leave o
  | .writes => w.write
  | .fails => w.fail
  | .stores store => { w with store }

/-- Make moves one after another. -/
def run (verifier : Verifier) (w : Socket) (schedule : List (Nat × Move)) : Socket :=
  schedule.foldl (fun w p => w.move verifier p.1 p.2) w

end Socket

end EndpointTree.Channel
