import EndpointTree.Channel.Socket
import Mathlib.Data.List.Infix
import Mathlib.Data.List.TakeWhile

/-!
# Frames of a socket

What comes in on a socket is read as far as the first close or failure, and of the frames
up to there those count that hold an event. What goes out is due as far as the first request
to close.

* `Frame.event?_eq_some_iff` says which frames hold an event.
* `decodings` are the events in what comes in, `due` the frames for what was sent;
  `due_eq_written` is the same on the writer's side of a live connection.
-/

namespace EndpointTree.Channel

/-! ## Frames that hold an event -/

/-- A document spells out an event: an object with one text under `event` and at most one
value under `data`, or a list of the name and perhaps the data. -/
inductive Spells : Json → Event → Prop
  | object {members : List (String × Json)} {name : String} {data : Json} :
    members.filter (·.1 = "event") = [("event", .string name)] →
    members.filter (·.1 = "data") = [("data", data)] →
    Spells (.object members) ⟨name, data.settled⟩
  | objectWithoutData {members : List (String × Json)} {name : String} :
    members.filter (·.1 = "event") = [("event", .string name)] →
    members.filter (·.1 = "data") = [] →
    Spells (.object members) ⟨name, .null⟩
  | list {name : String} {data : Json} : Spells (.array [.string name, data]) ⟨name, data.settled⟩
  | listWithoutData {name : String} : Spells (.array [.string name]) ⟨name, .null⟩

/-- What `single?` finds is the one value there, or stands for none. -/
theorem single?_eq_some_iff {key : String} {absent v : Json} {members : List (String × Json)} :
    single? key absent members = some v ↔
      members.filter (·.1 = key) = [] ∧ v = absent ∨
        members.filter (·.1 = key) = [(key, v)] := by
  rw [single?]
  split
  · next none =>
    rw [none]
    constructor
    · rintro ⟨⟩
      exact .inl ⟨rfl, rfl⟩
    · rintro (⟨-, rfl⟩ | impossible)
      · rfl
      · cases impossible
  · next k value one =>
    have named : (k, value) ∈ members.filter (·.1 = key) := one ▸ List.mem_singleton_self _
    obtain rfl : k = key := by simpa using (List.mem_filter.mp named).2
    simp only [one, reduceCtorEq, false_and, false_or, List.cons.injEq, Prod.mk.injEq, true_and,
      and_true, Option.some.injEq]
  · next none one =>
    refine ⟨nofun, fun found => ?_⟩
    rcases found with ⟨empty, -⟩ | single
    · exact absurd empty none
    · exact absurd single (one key v)

/-- An event is read from the documents that spell it. -/
theorem Event.ofJson?_eq_some_iff {document : Json} {e : Event} :
    Event.ofJson? document = some e ↔ Spells document e := by
  constructor
  · intro found
    unfold Event.ofJson? at found
    split at found
    · next members =>
      simp only [bind, Option.bind_eq_some_iff, pure, Option.some.injEq] at found
      obtain ⟨v, event, name, isText, d, data, rfl⟩ := found
      have text : v = .string name := by
        cases v <;> simp only [Json.string?, reduceCtorEq, Option.some.injEq] at isText
        rw [isText]
      subst text
      rcases single?_eq_some_iff.mp event with ⟨-, other⟩ | event
      · cases other
      rcases single?_eq_some_iff.mp data with ⟨absent, rfl⟩ | data
      · exact .objectWithoutData event absent
      · exact .object event data
    · cases found
      exact .listWithoutData
    · cases found
      exact .list
    · cases found
  · intro spells
    cases spells with
    | @object members name data event single =>
      have event : single? "event" .null members = some (.string name) :=
        single?_eq_some_iff.mpr (.inr event)
      have single : single? "data" .null members = some data :=
        single?_eq_some_iff.mpr (.inr single)
      simp only [Event.ofJson?, event, single]
      rfl
    | @objectWithoutData members name event none =>
      have event : single? "event" .null members = some (.string name) :=
        single?_eq_some_iff.mpr (.inr event)
      have none : single? "data" .null members = some .null :=
        single?_eq_some_iff.mpr (.inl ⟨none, rfl⟩)
      simp only [Event.ofJson?, event, none]
      rfl
    | list => rfl
    | listWithoutData => rfl

/-- A frame holds an event: its text, or the text of its bytes, is a document that spells
the event out. -/
def Frame.Holds (f : Frame) (e : Event) : Prop :=
  ∃ text document, (f = .text text ∨
      ∃ bytes, f = .binary bytes ∧ String.fromUTF8? ⟨bytes.toArray⟩ = some text) ∧
    Json.parseRecord? ["event", "data"] text.toUTF8 = some document ∧ Spells document e

/-- A frame brings an event where its text spells one. -/
theorem Frame.event?_eq_some_iff {f : Frame} {e : Event} : f.event? = some e ↔ f.Holds e := by
  have texts (text : String) : f.text? = some text ↔ f = .text text ∨
      ∃ bytes, f = .binary bytes ∧ String.fromUTF8? ⟨bytes.toArray⟩ = some text := by
    cases f with
    | text s =>
      simp only [Frame.text?, Option.some.injEq, Frame.text.injEq, reduceCtorEq, false_and,
        exists_false, or_false]
    | binary bytes =>
      simp only [Frame.text?, reduceCtorEq, false_or, Frame.binary.injEq, exists_eq_left']
    | ping => simp only [Frame.text?, reduceCtorEq, false_and, exists_false, or_false]
  simp only [Frame.event?, Event.ofText?, Option.bind_eq_some_iff, texts,
    Event.ofJson?_eq_some_iff, Frame.Holds, exists_and_left]

/-! ## What comes in -/

/-- The event that an input is. -/
def Session.Input.event? : Session.Input → Option Event
  | .event e => some e
  | .leave | .pause => none

/-- The events among inputs. -/
def Session.events (inputs : List (Nat × Session.Input)) : List Event :=
  inputs.filterMap (·.2.event?)

/-- The events in what comes in, up to the first close or failure. -/
def decodings (items : List Incoming) : List Event :=
  (items.takeWhile (·.isFrame)).filterMap (·.event?)

/-- Each frame brings its event behind those of the earlier ones. -/
theorem decodings_concat {items : List Incoming} (going : items.all (·.isFrame) = true)
    (item : Incoming) : decodings (items ++ [item]) = decodings items ++ item.event?.toList := by
  have all : ∀ i ∈ items, i.isFrame = true := List.all_eq_true.mp going
  unfold decodings
  rw [List.takeWhile_append_of_pos all, List.takeWhile_eq_self_iff.mpr all, List.filterMap_append]
  cases item <;> rfl

/-- Nothing is decoded once the peer has closed. -/
theorem decodings_append_of_closed {items : List Incoming}
    (closed : items.all (·.isFrame) = false) (further : List Incoming) :
    decodings (items ++ further) = decodings items := by
  have shorter : (items.takeWhile (·.isFrame)).length ≠ items.length := by
    intro same
    have whole := (List.takeWhile_prefix Incoming.isFrame).eq_of_length same
    have all := List.all_eq_true.mpr (List.takeWhile_eq_self_iff.mp whole)
    exact Bool.false_ne_true (closed.symm.trans all)
  unfold decodings
  rw [List.takeWhile_append, if_neg shorter]

/-- What comes in makes no event undone that came in before. -/
theorem decodings_grow (items : List Incoming) (item : Incoming) :
    decodings items <+: decodings (items ++ [item]) := by
  cases going : items.all (·.isFrame) with
  | true =>
    rw [decodings_concat going]
    exact List.prefix_append _ _
  | false => rw [decodings_append_of_closed going]

/-! ## What is due -/

/-- The frames that are due for what was sent: one for each message before the first request
to close, and one for that request. -/
def due (sent : List Outbound) : List Outgoing :=
  (sent.takeWhile (· ≠ .close)).map Outbound.frame ++ if .close ∈ sent then [.close] else []

/-- Before a close every message is due, in the order in which it was said. -/
theorem due_append {done : List Outbound} (going : .close ∉ done) (further : List Outbound) :
    due (done ++ further) = done.map Outbound.frame ++ due further := by
  have others : ∀ o ∈ done, decide (o ≠ .close) = true := by
    intro o member
    exact decide_eq_true fun same => going (same ▸ member)
  have closing : Outbound.close ∈ done ++ further ↔ .close ∈ further := by
    rw [List.mem_append, or_iff_right going]
  unfold due
  simp only [List.takeWhile_append_of_pos others, List.map_append, closing, List.append_assoc]

/-- Behind a close nothing is due. -/
theorem due_close (rest : List Outbound) : due (.close :: rest) = [.close] := by
  simp [due]

/-- Nothing is due for what is sent after a request to close. -/
theorem due_append_of_closed {sent : List Outbound} (closed : .close ∈ sent)
    (further : List Outbound) : due (sent ++ further) = due sent := by
  induction sent with
  | nil => cases closed
  | cons first rest ih =>
    cases first with
    | message m =>
      have going : .close ∉ [Outbound.message m] := by simp
      have closed : .close ∈ rest := (List.mem_cons.mp closed).resolve_left (by simp)
      have cut (rest : List Outbound) := due_append going rest
      exact (cut (rest ++ further)).trans ((congrArg _ (ih closed)).trans (cut rest).symm)
    | close => exact (due_close _).trans (due_close rest).symm

/-- What is due is what a writer puts out. -/
theorem due_eq_written (sent : List Outbound) : due sent = (written sent).map Outbound.frame := by
  induction sent with
  | nil => rfl
  | cons first rest ih =>
    cases first with
    | message m =>
      have going : .close ∉ [Outbound.message m] := by simp
      exact (due_append going rest).trans (congrArg ([Outbound.frame (.message m)] ++ ·) ih)
    | close => exact due_close rest

end EndpointTree.Channel
