import EndpointTree.Channel.Event
import EndpointTree.Json.Record

/-!
# Frames of a socket

A socket carries events and messages as JSON in frames. A frame holds an event if
it is an object with a text under `event` and, perhaps, data under `data`, neither
twice and whatever else it holds, or a list of the name and, perhaps, the data.
Any other frame is dropped. What is sent ends with the first request to close.
-/

namespace EndpointTree.Channel

/-- A frame from a client. -/
inductive Frame where
  | text (text : String)
  | binary (bytes : List UInt8)
  | ping

/-- The one value under a key of members; absent where there is none. -/
def single? (key : String) (absent : Json) (members : List (String × Json)) : Option Json :=
  match members.filter fun m => m.1 = key with
  | [] => some absent
  | [(_, value)] => some value
  | _ => none

/-- The event that a document spells out; repeated keys are still in it. -/
def Event.ofJson? : Json → Option Event
  | .object members => do
    let name ← (← single? "event" .null members).string?
    return ⟨name, (← single? "data" .null members).settled⟩
  | .array [.string name] => some ⟨name, .null⟩
  | .array [.string name, data] => some ⟨name, data.settled⟩
  | _ => none

/-- The event of a frame's text. -/
def Event.ofText? (text : String) : Option Event :=
  (Json.parseRecord? ["event", "data"] text.toUTF8).bind Event.ofJson?

namespace Frame

/-- The text of a frame. -/
def text? : Frame → Option String
  | .text s => some s
  | .binary bytes => String.fromUTF8? ⟨bytes.toArray⟩
  | .ping => none

/-- The event of a frame; any other frame has none. -/
def event? (f : Frame) : Option Event := f.text?.bind Event.ofText?

end Frame

/-- What a writer puts out: everything up to and with the first request to close. -/
def written : List Outbound → List Outbound
  | [] => []
  | .close :: _ => [.close]
  | .message m :: rest => .message m :: written rest

end EndpointTree.Channel
