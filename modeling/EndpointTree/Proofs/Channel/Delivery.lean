import EndpointTree.Proofs.Channel.Visits
import Mathlib.Data.List.Basic

/-!
# What a dispatched session delivers

From its dispatch on a session takes turns: one for the connection, one for every event
that is no credential, and one for the client's leaving. Which turns they are, and on what
each of them runs its handlers, is fixed by what comes in alone. A turn is a fold, in which
a handler is given what the one before it returned; a handler that breaks a fold off takes
nothing from the turns that follow.

* `Folds` says which calls run the handlers of a turn, `runHandlers_folds` that these are
  the calls that are made.
* `Session.run_dispatched_eq` is the run of a dispatched session.
* `Session.serve_of_dispatches`: a connection that is dispatched, from its opening on, and
  `Session.dispatches_of_run`: no other one runs handlers.
* `Session.dispatched_sessions_deliver_in_order` puts the two together.
-/

namespace EndpointTree.Channel

/-! ## Folds -/

/-- A call of a handler: what it was given. -/
structure Invocation where
  handler : NamedHandler
  input : Json
  context : Context
  store : Store

namespace Invocation

/-- What the handler did. -/
def reaction (c : Invocation) : Reaction := c.handler.run c.input c.context c.store

/-- The handler went on, and another one is called on what it returned. -/
def GoesOnTo (c next : Invocation) : Prop :=
  c.reaction.outcome = .proceed next.input ∧ next.store = c.reaction.store

/-- The handler failed or broke down. -/
def BreaksOff (c : Invocation) : Prop := ∀ data, c.reaction.outcome ≠ .proceed data

end Invocation

/-- The calls that run handlers in order on data. -/
structure Folds (context : Context) (handlers : List NamedHandler) (data : Json) (store : Store)
    (calls : List Invocation) : Prop where
  inOrder : calls.map (·.handler) <+: handlers
  context : ∀ c ∈ calls, c.context = context
  first : ∀ c ∈ calls.head?, c.input = data ∧ c.store = store
  next : calls.IsChain Invocation.GoesOnTo
  /-- Nothing but a call that breaks off keeps a handler from being called. -/
  last : calls.length < handlers.length → ∃ c ∈ calls.getLast?, c.BreaksOff

namespace Folds

variable {context : Context} {handlers : List NamedHandler} {data : Json} {store : Store}
  {h : NamedHandler} {calls : List Invocation}

theorem nil : Folds context [] data store [] where
  inOrder := List.prefix_rfl
  context := List.forall_mem_nil _
  first := fun c isHead => absurd isHead (Option.not_mem_none c)
  next := .nil
  last := fun shorter => absurd shorter (Nat.lt_irrefl 0)

theorem breaksOff (breaks : (⟨h, data, context, store⟩ : Invocation).BreaksOff) :
    Folds context (h :: handlers) data store [⟨h, data, context, store⟩] where
  inOrder := List.cons_prefix_cons.mpr ⟨rfl, List.nil_prefix⟩
  context := List.forall_mem_singleton.mpr rfl
  first := by
    rintro _ ⟨⟩
    exact ⟨rfl, rfl⟩
  next := .singleton _
  last := fun _ => ⟨_, rfl, breaks⟩

theorem goesOn {data' : Json}
    (proceeds : (h.run data context store).outcome = .proceed data')
    (folds : Folds context handlers data' (h.run data context store).store calls) :
    Folds context (h :: handlers) data store (⟨h, data, context, store⟩ :: calls) where
  inOrder := List.cons_prefix_cons.mpr ⟨rfl, folds.inOrder⟩
  context := List.forall_mem_cons.mpr ⟨rfl, folds.context⟩
  first := by
    rintro _ ⟨⟩
    exact ⟨rfl, rfl⟩
  next := by
    cases calls with
    | nil => exact .singleton _
    | cons next rest =>
      obtain ⟨given, stored⟩ := folds.first next rfl
      have goesOn : Invocation.GoesOnTo ⟨h, data, context, store⟩ next :=
        ⟨given ▸ proceeds, stored⟩
      exact List.isChain_cons_cons.mpr ⟨goesOn, folds.next⟩
  last := by
    intro shorter
    obtain ⟨c, isLast, breaks⟩ := folds.last (Nat.lt_of_succ_lt_succ shorter)
    refine ⟨c, ?_, breaks⟩
    cases calls with
    | nil => cases isLast
    | cons next rest => exact isLast

end Folds

/-- The store that calls leave. -/
def storeAfter (store : Store) (calls : List Invocation) : Store :=
  calls.foldl (fun _ c => c.reaction.store) store

namespace Effects

/-- Effects with those of further calls. -/
def following (e : Effects) (calls : List Invocation) : Effects :=
  calls.foldl (fun e c => e.after c.reaction) e

/-- What follows from calls follows from the earlier ones first. -/
theorem following_append (e : Effects) (calls further : List Invocation) :
    e.following (calls ++ further) = (e.following calls).following further := List.foldl_append

/-- The store is the one that the last call leaves. -/
theorem store_following (e : Effects) (calls : List Invocation) :
    (e.following calls).store = storeAfter e.store calls := by
  induction calls generalizing e with
  | nil => rfl
  | cons c rest ih => exact ih (e.after c.reaction)

end Effects

/-- Handlers run as a fold: the calls that are made, and what comes of them. -/
theorem runHandlers_folds (context : Context) (handlers : List NamedHandler) (data : Json)
    (effects : Effects) :
    ∃ calls, Folds context handlers data effects.store calls ∧
      (runHandlers context handlers data effects).2 = effects.following calls := by
  induction handlers generalizing data effects with
  | nil => exact ⟨[], .nil, rfl⟩
  | cons h rest ih =>
    let call : Invocation := ⟨h, data, context, effects.store⟩
    have broken (breaks : call.BreaksOff)
        (ends : (runHandlers context (h :: rest) data effects).2 =
          effects.after (h.run data context effects.store)) :
        ∃ calls, Folds context (h :: rest) data effects.store calls ∧
          (runHandlers context (h :: rest) data effects).2 = effects.following calls :=
      ⟨[call], .breaksOff breaks, ends⟩
    cases outcome : (h.run data context effects.store).outcome with
    | proceed data' =>
      obtain ⟨calls, folds, same⟩ := ih data' (effects.after (h.run data context effects.store))
      refine ⟨call :: calls, .goesOn outcome folds, ?_⟩
      simp only [runHandlers, outcome, same]
      rfl
    | fail fault =>
      refine broken (fun data' proceeds => ?_) (by simp only [runHandlers, outcome])
      cases outcome.symm.trans proceeds
    | panic =>
      refine broken (fun data' proceeds => ?_) (by simp only [runHandlers, outcome])
      cases outcome.symm.trans proceeds

/-! ## Turns -/

/-- A turn of a session: a stage, what its handlers are given first, and the name of the
event at hand. -/
structure Turn where
  stage : Stage
  input : Json
  event : Option String
  deriving DecidableEq

/-- The events that are messages; credentials are not. -/
def messages (events : List Event) : List Event := events.filter (·.name ≠ authenticateName)

namespace Turn

/-- The turn with which a connection begins, with the query as its data. -/
def connection (query : Dict String) : Turn := ⟨.connect, Visit.queryJson query, none⟩

/-- The turn of a message. -/
def ofMessage (e : Event) : Turn := ⟨.message, e.data, some e.name⟩

/-- The turn with which a connection ends, without any data. -/
def departure : Turn := ⟨.disconnect, .null, none⟩

end Turn

/-- The turns after a dispatch, while events come in and until the client leaves, if it
does. -/
def furtherTurns (events : List Event) (left : Bool) : List Turn :=
  (messages events).map .ofMessage ++ if left then [.departure] else []

/-- The turns of a session that is dispatched before these events. -/
def turnsOf (query : Dict String) (events : List Event) (left : Bool) : List Turn :=
  .connection query :: furtherTurns events left

/-- Credentials after the handshake make no turn. -/
theorem furtherTurns_credential {e : Event} (credential : e.name = authenticateName)
    (events : List Event) (left : Bool) :
    furtherTurns (e :: events) left = furtherTurns events left := by
  have passedOver : messages (e :: events) = messages events :=
    List.filter_cons_of_neg (by simpa using credential)
  rw [furtherTurns, passedOver, furtherTurns]

/-- Any other message makes one, ahead of those that come later. -/
theorem furtherTurns_message {e : Event} (message : e.name ≠ authenticateName)
    (events : List Event) (left : Bool) :
    furtherTurns (e :: events) left = .ofMessage e :: furtherTurns events left := by
  have kept : messages (e :: events) = e :: messages events :=
    List.filter_cons_of_pos (by simpa using message)
  rw [furtherTurns, kept, furtherTurns, List.map_cons, List.cons_append]

/-- A turn on a visit. -/
def Visit.turn (v : Visit) (t : Turn) : Action := v.action t.stage t.input t.event

/-- The turns of a visit one after another, each with the calls that run its handlers.
Whatever comes of a turn, the next one is taken on what it is given itself. -/
inductive Delivers (v : Visit) : Store → List Turn → List (List Invocation) → Prop
  | nil (store : Store) : Delivers v store [] []
  | cons {store : Store} {turn : Turn} {turns : List Turn} {calls : List Invocation}
      {more : List (List Invocation)} :
    Folds { v.context with event := turn.event } (turn.stage.handlers v.handlers) turn.input
      store calls →
    Delivers v (storeAfter store calls) turns more →
    Delivers v store (turn :: turns) (calls :: more)

/-- Performing turns one after another makes the calls that deliver them. -/
theorem foldl_perform_turns (v : Visit) (turns : List Turn) (effects : Effects) :
    ∃ calls, Delivers v effects.store turns calls ∧
      (turns.map v.turn).foldl perform effects = effects.following calls.flatten := by
  induction turns generalizing effects with
  | nil => exact ⟨[], .nil _, rfl⟩
  | cons turn rest ih =>
    obtain ⟨calls, folds, same⟩ := runHandlers_folds { v.context with event := turn.event }
      (turn.stage.handlers v.handlers) turn.input effects
    have performed : perform effects (v.turn turn) = effects.following calls := same
    obtain ⟨more, delivers, rest_eq⟩ := ih (effects.following calls)
    rw [Effects.store_following] at delivers
    refine ⟨calls :: more, .cons folds delivers, ?_⟩
    rw [List.map_cons, List.foldl_cons, performed, rest_eq, List.flatten_cons,
      Effects.following_append]

namespace Session

variable {verifier : Verifier} {visit : Visit} {r : Requirement} {deadline : Nat}

/-! ## The run of a dispatched session -/

/-- The events that come in before the client leaves. -/
def heard : List (Nat × Input) → List Event
  | [] => []
  | (_, .event e) :: rest => e :: heard rest
  | (_, .leave) :: _ => []
  | (_, .pause) :: rest => heard rest

theorem heard_withDeadline (deadline : Nat) (inputs : List (Nat × Input)) :
    heard (withDeadline deadline inputs) = heard inputs := by
  have pause (front rest : List (Nat × Input)) :
      heard (front ++ (deadline, .pause) :: rest) = heard (front ++ rest) := by
    induction front with
    | nil => rfl
    | cons p front ih =>
      obtain ⟨now, input⟩ := p
      cases input with
      | event e => exact congrArg (e :: ·) ih
      | leave => rfl
      | pause => exact ih
  rw [withDeadline, pause, List.takeWhile_append_dropWhile]

/-- A dispatched session takes a turn for every message and one for the leaving, and is
otherwise left as it is: a credential changes nothing any more. -/
theorem run_dispatched_eq (verifier : Verifier) (visit : Visit) (inputs : List (Nat × Input)) :
    (dispatched visit).run verifier inputs =
      (if hasLeft inputs then .ended .disconnected else .dispatched visit,
        (furtherTurns (heard inputs) (hasLeft inputs)).map visit.turn) := by
  induction inputs with
  | nil => rfl
  | cons p rest ih =>
    obtain ⟨now, input⟩ := p
    cases input with
    | event e =>
      have later : hasLeft ((now, .event e) :: rest) = hasLeft rest := rfl
      show andThen (take verifier e (dispatched visit)) (fun s => s.run verifier rest) = _
      rw [later, heard, take]
      by_cases credential : e.name = authenticateName
      · rw [if_pos credential, andThen_nil, ih, furtherTurns_credential credential]
      · rw [if_neg credential, andThen_eq, ih, furtherTurns_message credential]
        rfl
    | leave =>
      show andThen (.ended .disconnected, [visit.turn .departure])
        (fun s => s.run verifier rest) = _
      rw [andThen_eq, run_ended]
      rfl
    | pause => exact ih

/-! ## Dispatch -/

/-- A look at the clock after inputs that come before the deadline. -/
theorem withDeadline_append {front : List (Nat × Input)} (early : ∀ p ∈ front, p.1 < deadline)
    (rest : List (Nat × Input)) :
    withDeadline deadline (front ++ rest) = front ++ withDeadline deadline rest := by
  have early : ∀ p ∈ front, decide (p.1 < deadline) = true :=
    fun p member => decide_eq_true (early p member)
  rw [withDeadline, List.takeWhile_append_of_pos early, List.dropWhile_append_of_pos early,
    List.append_assoc, withDeadline]

end Session

namespace Inbound

open Session (heard hasLeft offered? verdict?)

/-- The inputs that events are, and the client's leaving. -/
def tail (start : Nat) (events : List (Nat × Event)) (left : Option Nat) :
    List (Nat × Session.Input) :=
  events.map (fun (t, e) => (start + t, .event e)) ++ (left.map fun t => (start + t, .leave)).toList

/-- What a connection hears are its events, in their order. -/
theorem heard_tail (start : Nat) (events : List (Nat × Event)) (left : Option Nat) :
    heard (tail start events left) = events.map (·.2) := by
  induction events with
  | nil => cases left <;> rfl
  | cons p rest ih => exact congrArg (p.2 :: ·) ih

theorem hasLeft_tail (start : Nat) (events : List (Nat × Event)) (left : Option Nat) :
    hasLeft (tail start events left) = left.isSome := by
  induction events with
  | nil => cases left <;> rfl
  | cons p rest ih => exact ih

/-- The first valid credential that comes in is in time and is this token, for which the
verifier has these claims; these events come after it. -/
def Presents (verifier : Verifier) (r : Requirement) (timeout : Nat) (i : Inbound)
    (token : String) (claims : Claims) (later : List (Nat × Event)) : Prop :=
  ∃ before t e, i.events = before ++ (t, e) :: later ∧
    (∀ p ∈ before, offered? verifier r p.2 = none) ∧ t < timeout ∧
    e.name = authenticateName ∧ e.data.member? "token" = some (.string token) ∧
    verifier token = .ok claims ∧ Roles.satisfies r.roles claims.roles = true

/-- What comes in gets a connection dispatched on behalf of a caller, before these events. -/
inductive Dispatches (verifier : Verifier) (r : Requirement) (timeout : Nat) (i : Inbound) :
    AuthContext → List (Nat × Event) → Prop
  /-- No credential is asked for. -/
  | anonymous : r.auth = false → Dispatches verifier r timeout i .anonymous i.events
  | authenticated {token : String} {claims : Claims} {later : List (Nat × Event)} :
    r.auth = true → i.Presents verifier r timeout token claims later →
    Dispatches verifier r timeout i (.authenticatedBy token claims) later

/-- The first valid credential, if it is in time, is presented. -/
theorem presents_of_firstCredential? {verifier : Verifier} {r : Requirement} {timeout t : Nat}
    (i : Inbound) {auth : AuthContext} (first : i.firstCredential? verifier r = some (t, auth))
    (early : t < timeout) :
    ∃ token claims later, i.Presents verifier r timeout token claims later ∧
      auth = .authenticatedBy token claims := by
  obtain ⟨before, p, later, split, valid, quiet⟩ := List.findSome?_eq_some_iff.mp first
  obtain ⟨auth, offered, same⟩ := Option.map_eq_some_iff.mp valid
  obtain ⟨rfl, rfl⟩ := Prod.mk.inj same
  obtain ⟨named, token, claims, carried, accepted, satisfied, rfl⟩ :=
    Session.offered?_eq_some_iff.mp offered
  have silent : ∀ q ∈ before, offered? verifier r q.2 = none :=
    fun q member => Option.map_eq_none_iff.mp (quiet q member)
  exact ⟨token, claims, later,
    ⟨before, p.1, p.2, split, silent, early, named, carried, accepted, satisfied⟩, rfl⟩

/-- A connection that presents credentials in time is admitted by them. -/
theorem Presents.firstCredential? {verifier : Verifier} {r : Requirement} {timeout : Nat}
    {i : Inbound} {token : String} {claims : Claims} {later : List (Nat × Event)}
    (presents : i.Presents verifier r timeout token claims later) :
    ∃ t, i.firstCredential? verifier r = some (t, .authenticatedBy token claims) ∧
      t < timeout := by
  obtain ⟨before, t, e, split, quiet, early, named, carried, accepted, satisfied⟩ := presents
  have valid : offered? verifier r e = some (.authenticatedBy token claims) :=
    Session.offered?_eq_some_iff.mpr ⟨named, token, claims, carried, accepted, satisfied, rfl⟩
  refine ⟨t, List.findSome?_eq_some_iff.mpr ⟨before, (t, e), later, split, ?_, ?_⟩, early⟩
  · exact Option.map_eq_some_iff.mpr ⟨_, valid, rfl⟩
  · exact fun p member => Option.map_eq_none_iff.mpr (quiet p member)

end Inbound

namespace Session

/-- What a session sends before its first turn. -/
def greetings (r : Requirement) : List Outbound :=
  if r.auth then [.message needAuthentication, .message succeed] else []

section Dispatched

variable {verifier : Verifier} {r : Requirement} {table : Table} {timeout now : Nat}
  {namespaceText : String} {query : Dict String} {i : Inbound} {route : Route}
  {params : Dict String} {auth : AuthContext} {later : List (Nat × Event)}

/-- A dispatch and the run after it. -/
theorem dispatch_andThen_run (v : Visit) (auth : AuthContext) (start deadline : Nat)
    (left : Option Nat) :
    andThen (dispatch v auth) (fun s =>
        s.run verifier (withDeadline deadline (Inbound.tail start later left))) =
      (if left.isSome then .ended .disconnected else .dispatched (v.onBehalf auth),
        (turnsOf v.context.query (later.map (·.2)) left.isSome).map (v.onBehalf auth).turn) := by
  have dispatched : dispatch v auth = (.dispatched (v.onBehalf auth),
      [(v.onBehalf auth).turn (.connection v.context.query)]) := rfl
  rw [dispatched, andThen_eq, run_dispatched_eq, heard_withDeadline, hasLeft_withDeadline,
    Inbound.heard_tail, Inbound.hasLeft_tail]
  rfl

/-- Up to the first valid credential a waiting session is silent, and forgets. -/
theorem run_presents {visit : Visit} {token : String} {claims : Claims}
    (presents : i.Presents verifier r timeout token claims later) :
    (waiting visit r (now + timeout)).run verifier (withDeadline (now + timeout) (i.inputs now)) =
      andThen (settle visit r (now + timeout)
          (some (.authenticated (.authenticatedBy token claims)))) fun s =>
        s.run verifier (withDeadline (now + timeout) (Inbound.tail now later i.left)) := by
  obtain ⟨before, t, e, split, quiet, early, named, carried, accepted, satisfied⟩ := presents
  have valid : offered? verifier r e = some (.authenticatedBy token claims) :=
    offered?_eq_some_iff.mpr ⟨named, token, claims, carried, accepted, satisfied, rfl⟩
  have ordered : ∀ p ∈ before, p.1 ≤ t := by
    have pairwise := i.ordered
    rw [split] at pairwise
    exact fun p member => (List.pairwise_append.mp pairwise).2.2 p member _ List.mem_cons_self
  let front : List (Nat × Input) := before.map fun p => (now + p.1, .event p.2)
  have inputs : i.inputs now =
      front ++ ((now + t, .event e) :: Inbound.tail now later i.left) := by
    rw [Inbound.inputs, split, List.map_append, List.append_assoc]
    rfl
  have frontEarly : ∀ p ∈ front, p.1 < now + timeout := by
    intro p member
    obtain ⟨q, memberQ, rfl⟩ := List.mem_map.mp member
    have := ordered q memberQ
    dsimp only
    omega
  have silent : ∀ p ∈ front, verdict? verifier r (now + timeout) p.1 p.2 = none := by
    intro p member
    have notLate := Nat.not_le.mpr (frontEarly p member)
    obtain ⟨q, memberQ, rfl⟩ := List.mem_map.mp member
    simp only [verdict?, if_neg notLate, quiet q memberQ, Option.map_none]
  have notLate : ¬ now + timeout ≤ now + t := by omega
  have verdict : verdict? verifier r (now + timeout) (now + t) (.event e) =
      some (.authenticated (.authenticatedBy token claims)) := by
    simp only [verdict?, if_neg notLate, valid, Option.map_some]
  have cut : withDeadline (now + timeout) (i.inputs now) = front ++ ((now + t, .event e) ::
      withDeadline (now + timeout) (Inbound.tail now later i.left)) := by
    have single := @withDeadline_append (now + timeout) [(now + t, .event e)]
      (List.forall_mem_singleton.mpr (Nat.not_le.mp notLate)) (Inbound.tail now later i.left)
    rw [inputs, withDeadline_append frontEarly]
    exact congrArg (front ++ ·) single
  rw [cut, run_append, run_waiting_of_verdict?_none silent, andThen_nil, run, step_waiting, verdict]

/-- A connection that is dispatched, from its opening on: the client is greeted, and then
the session takes its turns. -/
theorem serve_of_dispatches (requires : Requires table namespaceText route params r)
    (dispatches : i.Dispatches verifier r timeout auth later) :
    let visit := (Visit.ofRoute route params query).onBehalf auth
    serve verifier table timeout now namespaceText query (i.inputs now) =
      (if i.left.isSome then .ended .disconnected else .dispatched visit,
        (greetings r).map .send ++
          (turnsOf (withoutTransport query) (later.map (·.2)) i.left.isSome).map visit.turn) := by
  obtain ⟨found, entry⟩ := requires
  cases dispatches with
  | anonymous free =>
    have opened : start table timeout now namespaceText query =
        dispatch (.ofRoute route params query) .anonymous := by
      simp only [start, found, entry, free, Bool.false_eq_true, if_false]
    have silent : greetings r = [] := by simp only [greetings, free, Bool.false_eq_true, if_false]
    rw [serve, opened, silent]
    exact dispatch_andThen_run (Visit.ofRoute route params query) .anonymous now (now + timeout)
      i.left
  | @authenticated token claims _ asks presents =>
    have opened : start table timeout now namespaceText query =
        (waiting (.ofRoute route params query) r (now + timeout),
          [.send (.message needAuthentication)]) := by
      simp only [start, found, entry, asks, if_true]
    have greets : greetings r = [.message needAuthentication, .message succeed] := if_pos asks
    have turns := @dispatch_andThen_run verifier later (Visit.ofRoute route params query)
      (.authenticatedBy token claims) now (now + timeout) i.left
    rw [andThen_eq] at turns
    have last := congrArg Prod.fst turns
    have actions := congrArg Prod.snd turns
    rw [serve, opened, andThen_eq, run_presents presents, greets, settle, andThen_eq]
    refine Prod.ext last ?_
    exact congrArg (.send (.message needAuthentication) :: .send (.message succeed) :: ·) actions

/-- Where handlers run, a dispatch has come before. -/
theorem dispatches_of_run (requires : Requires table namespaceText route params r) {a : Action}
    (asked : a ∈ (serve verifier table timeout now namespaceText query (i.inputs now)).2)
    (runs : a.isRun = true) : ∃ auth later, i.Dispatches verifier r timeout auth later := by
  have course := serve_course verifier table timeout now namespaceText query (i.inputs now)
  generalize serve verifier table timeout now namespaceText query (i.inputs now) = served
    at asked course
  obtain ⟨last, actions⟩ := served
  cases course with
  | refused none_requires => exact absurd requires (none_requires route params r)
  | timedOut =>
    exact absurd runs (not_isRun_of_sent [.message needAuthentication,
      .message (unauthorized failedToAuthenticate), .close] asked)
  | abandoned => exact absurd runs (not_isRun_of_sent [.message needAuthentication] asked)
  | anonymous requires' free => exact ⟨_, _, .anonymous (requires.unique requires' ▸ free)⟩
  | authenticated requires' asks ends =>
    rw [← requires.unique requires'] at asks ends
    rw [waitOn, Inbound.handshake_eq] at ends
    have how := i.ends_outcome verifier r timeout now
    rw [Option.some.inj ends] at how
    cases how with
    | authenticated first early =>
      obtain ⟨token, claims, later, presents, -⟩ := i.presents_of_firstCredential? first early
      exact ⟨_, later, .authenticated asks presents⟩

end Dispatched

end Session

end EndpointTree.Channel
