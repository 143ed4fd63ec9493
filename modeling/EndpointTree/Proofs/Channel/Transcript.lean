import EndpointTree.Channel.Fold
import EndpointTree.Proofs.Channel.Handshake

/-!
# What a connection is told, and when its handlers run

Whatever comes in on a connection, it takes one of five courses
(`Session.Course`), and each of them fixes what the session itself sends, in which
order, and whether handlers run at all. Handlers are code from outside; a session
only asks for them to be run, so nothing that they do shows in its course.

* `Session.run_waiting` and `Session.run_dispatched` are the two halves of a run.
* `Session.serve_course`: every connection takes one of the courses.
-/

namespace EndpointTree.Channel

/-- Whether an action runs handlers. -/
def Action.isRun : Action → Bool
  | .run .. => true
  | .send _ => false

theorem not_isRun_of_sent (sent : List Outbound) {a : Action} (asked : a ∈ sent.map .send) :
    ¬ a.isRun = true := by
  obtain ⟨outbound, -, rfl⟩ := List.mem_map.mp asked
  exact Bool.false_ne_true

namespace Session

variable {verifier : Verifier} {visit : Visit} {r : Requirement} {deadline : Nat}

/-! ## Runs -/

theorem andThen_eq (step : Session × List Action) (next : Session → Session × List Action) :
    andThen step next = ((next step.1).1, step.2 ++ (next step.1).2) := rfl

theorem andThen_nil (s : Session) (next : Session → Session × List Action) :
    andThen (s, []) next = next s := rfl

/-- Inputs in two parts are taken one part after the other. -/
theorem run_append (s : Session) (inputs further : List (Nat × Input)) :
    s.run verifier (inputs ++ further) =
      andThen (s.run verifier inputs) fun s => s.run verifier further := by
  induction inputs generalizing s with
  | nil => rfl
  | cons p rest ih =>
    obtain ⟨now, input⟩ := p
    simp only [List.cons_append, run, andThen_eq, ih, List.append_assoc]

/-- A session that has ended takes no further input. -/
theorem run_ended (how : SessionEnd) (inputs : List (Nat × Input)) :
    (ended how).run verifier inputs = (ended how, []) := by
  induction inputs with
  | nil => rfl
  | cons p rest ih =>
    obtain ⟨now, input⟩ := p
    have still : (ended how).step verifier now input = (ended how, []) := by cases input <;> rfl
    rw [run, still, andThen_nil, ih]

/-- Inputs without a verdict leave a waiting session as it is. -/
theorem run_waiting_of_verdict?_none {inputs : List (Nat × Input)}
    (quiet : ∀ p ∈ inputs, verdict? verifier r deadline p.1 p.2 = none) :
    (waiting visit r deadline).run verifier inputs = (waiting visit r deadline, []) := by
  induction inputs with
  | nil => rfl
  | cons p rest ih =>
    obtain ⟨now, input⟩ := p
    rw [run, step_waiting, quiet (now, input) List.mem_cons_self]
    exact ih fun q member => quiet q (List.mem_cons_of_mem _ member)

/-- A run of a waiting session splits at the input that ends the wait: nothing is
done before it, and after it the run is that of what the session has become. -/
theorem run_waiting {inputs : List (Nat × Input)} {time : Nat} {how : Handshake}
    (ends : (waiting visit r deadline).handshake verifier inputs = some (time, how)) :
    ∃ before input after, inputs = before ++ (time, input) :: after ∧
      (∀ p ∈ before, verdict? verifier r deadline p.1 p.2 = none) ∧
      verdict? verifier r deadline time input = some how ∧
      (waiting visit r deadline).run verifier inputs =
        andThen (settle visit r deadline (some how)) fun s => s.run verifier after := by
  rw [handshake_waiting] at ends
  obtain ⟨before, p, after, rfl, found, quiet⟩ := List.findSome?_eq_some_iff.mp ends
  obtain ⟨how', verdict, same⟩ := Option.map_eq_some_iff.mp found
  obtain ⟨rfl, rfl⟩ := Prod.mk.inj same
  have nothing : ∀ q ∈ before, verdict? verifier r deadline q.1 q.2 = none := by
    intro q member
    exact Option.map_eq_none_iff.mp (quiet q member)
  refine ⟨before, p.2, after, rfl, nothing, verdict, ?_⟩
  rw [run_append, run_waiting_of_verdict?_none nothing, andThen_nil, run, step_waiting, verdict]

/-- Whether the client leaves among these inputs. -/
def hasLeft (inputs : List (Nat × Input)) : Bool :=
  inputs.any fun p => match p.2 with
    | .leave => true
    | .event _ | .pause => false

/-- As long as nothing decides the wait, the peer has not left. -/
theorem hasLeft_of_verdict?_none {inputs : List (Nat × Input)}
    (quiet : ∀ p ∈ inputs, verdict? verifier r deadline p.1 p.2 = none) :
    hasLeft inputs = false := by
  refine List.any_eq_false.mpr fun p member => ?_
  obtain ⟨now, input⟩ := p
  have verdict := quiet (now, input) member
  cases input with
  | event e => exact Bool.false_ne_true
  | leave =>
    simp only [verdict?] at verdict
    split at verdict <;> cases verdict
  | pause => exact Bool.false_ne_true

theorem hasLeft_append (inputs further : List (Nat × Input)) :
    hasLeft (inputs ++ further) = (hasLeft inputs || hasLeft further) := List.any_append

theorem hasLeft_withDeadline (deadline : Nat) (inputs : List (Nat × Input)) :
    hasLeft (withDeadline deadline inputs) = hasLeft inputs := by
  have pause (rest : List (Nat × Input)) : hasLeft ((deadline, .pause) :: rest) = hasLeft rest :=
    rfl
  rw [withDeadline, hasLeft_append, pause, ← hasLeft_append, List.takeWhile_append_dropWhile]

theorem mem_withDeadline {inputs : List (Nat × Input)} {p : Nat × Input} :
    p ∈ withDeadline deadline inputs ↔ p = (deadline, .pause) ∨ p ∈ inputs := by
  rw [withDeadline, List.mem_append, List.mem_cons, or_left_comm, ← List.mem_append,
    List.takeWhile_append_dropWhile]

/-- Where a session stands that was dispatched before these inputs. -/
def Serves (inputs : List (Nat × Input)) (last : Session) : Prop :=
  if hasLeft inputs then last = .ended .disconnected else ∃ visit, last = .dispatched visit

/-- From its dispatch on a session only runs handlers, until the client leaves. -/
theorem run_dispatched (verifier : Verifier) (visit : Visit) (inputs : List (Nat × Input)) :
    Serves inputs ((dispatched visit).run verifier inputs).1 ∧
      ∀ a ∈ ((dispatched visit).run verifier inputs).2, a.isRun = true := by
  induction inputs with
  | nil => exact ⟨⟨visit, rfl⟩, fun a member => absurd member List.not_mem_nil⟩
  | cons p rest ih =>
    obtain ⟨now, input⟩ := p
    cases input with
    | event e =>
      have taken : (dispatched visit).step verifier now (.event e) = (dispatched visit,
          if e.name = authenticateName then [] else
            [visit.action .message e.data (some e.name)]) := by
        show andThen (dispatched visit, []) (take verifier e) = _
        rw [andThen_nil, take]
        split <;> rfl
      rw [run, taken, andThen_eq]
      refine ⟨ih.1, fun a member => ?_⟩
      rcases List.mem_append.mp member with member | member
      · split at member
        · cases member
        · rw [List.mem_singleton.mp member]
          rfl
      · exact ih.2 a member
    | leave =>
      have gone : (dispatched visit).run verifier ((now, .leave) :: rest) =
          (.ended .disconnected, [visit.action .disconnect .null none]) := by
        show andThen (.ended .disconnected, [visit.action .disconnect .null none])
          (fun s => s.run verifier rest) = _
        rw [andThen_eq, run_ended]
        rfl
      rw [gone]
      refine ⟨rfl, fun a member => ?_⟩
      rw [List.mem_singleton.mp member]
      rfl
    | pause => exact ih

end Session

/-! ## The order of what is sent -/

namespace Effects

/-- Effects with something sent before them. -/
def behind (sent : List Outbound) (e : Effects) : Effects := { e with sent := sent ++ e.sent }

@[simp] theorem behind_store (sent : List Outbound) (e : Effects) :
    (e.behind sent).store = e.store := rfl

/-- What was sent earlier stays in front of what handlers send. -/
theorem runHandlers_behind (sent : List Outbound) (context : Context)
    (handlers : List NamedHandler) (data : Json) (e : Effects) :
    runHandlers context handlers data (e.behind sent) =
      ((runHandlers context handlers data e).1,
        (runHandlers context handlers data e).2.behind sent) := by
  induction handlers generalizing data e with
  | nil => rfl
  | cons h rest ih =>
    have next : (e.behind sent).after (h.run data context e.store) =
        (e.after (h.run data context e.store)).behind sent := by
      simp only [after, behind, List.append_assoc]
    simp only [runHandlers, behind_store, next]
    cases (h.run data context e.store).outcome with
    | proceed data => exact ih data _
    | fail fault => rfl
    | panic => rfl

/-- What was sent earlier stays in front of what an action sends. -/
theorem perform_behind (sent : List Outbound) (e : Effects) (a : Action) :
    perform (e.behind sent) a = (perform e a).behind sent := by
  cases a with
  | send outbound => simp only [perform, behind, List.append_assoc]
  | run stage handlers input context => exact congrArg Prod.snd (runHandlers_behind ..)

/-- Doing what a session asks for only adds to what was sent before. -/
theorem foldl_perform_behind (sent : List Outbound) (e : Effects) (actions : List Action) :
    actions.foldl perform (e.behind sent) = (actions.foldl perform e).behind sent := by
  induction actions generalizing e with
  | nil => rfl
  | cons a rest ih => rw [List.foldl_cons, List.foldl_cons, perform_behind, ih]

end Effects

/-- What a session sends first stands in front of all that its handlers send. -/
theorem performAll_sends (store : Store) (sent : List Outbound) (actions : List Action) :
    performAll store (sent.map .send ++ actions) = (performAll store actions).behind sent := by
  induction sent generalizing actions with
  | nil => rfl
  | cons o rest ih =>
    have first : performAll store (.send o :: (rest.map .send ++ actions)) =
        (performAll store (rest.map .send ++ actions)).behind [o] :=
      Effects.foldl_perform_behind [o] { store } _
    rw [List.map_cons, List.cons_append, first, ih]
    simp only [Effects.behind, List.cons_append, List.nil_append]

/-! ## Courses -/

namespace Session

/-- A route is found for a namespace, and its entry makes a requirement. -/
def Requires (table : Table) (namespaceText : String) (route : Route) (params : Dict String)
    (r : Requirement) : Prop :=
  route? table namespaceText = some (route, params) ∧ route.access = .required r

/-- How the wait for a credential ends on a connection to a route. -/
def waitOn (verifier : Verifier) (timeout now : Nat) (query : Dict String)
    (inputs : List (Nat × Input)) (route : Route) (params : Dict String) (r : Requirement) :
    Option (Nat × Handshake) :=
  (waiting (.ofRoute route params query) r (now + timeout)).handshake verifier
    (withDeadline (now + timeout) inputs)

section Courses

variable (verifier : Verifier) (table : Table) (timeout now : Nat) (namespaceText : String)
  (query : Dict String) (inputs : List (Nat × Input))

/-- The courses that a connection can take: where the session stands in the end,
and everything that it asked for, in order. -/
inductive Course : Session → List Action → Prop
  /-- No route, or one whose entry forbids it. -/
  | refused :
    (∀ route params r, ¬ Requires table namespaceText route params r) →
    Course (.ended .notAvailable)
      [.send (.message (unauthorized notAvailable)), .send .close]
  /-- No valid credential before the deadline, and the client is still there. -/
  | timedOut {route : Route} {params : Dict String} {r : Requirement} {time : Nat} :
    Requires table namespaceText route params r → r.auth = true →
    waitOn verifier timeout now query inputs route params r = some (time, .timedOut) →
    Course (.ended .timedOut)
      [.send (.message needAuthentication),
        .send (.message (unauthorized failedToAuthenticate)), .send .close]
  /-- The client leaves before it has presented a valid credential. -/
  | abandoned {route : Route} {params : Dict String} {r : Requirement} {time : Nat} :
    Requires table namespaceText route params r → r.auth = true →
    waitOn verifier timeout now query inputs route params r = some (time, .closed) →
    Course (.ended .abandoned) [.send (.message needAuthentication)]
  /-- A valid credential before the deadline. -/
  | authenticated {route : Route} {params : Dict String} {r : Requirement} {time : Nat}
      {auth : AuthContext} {last : Session} {runs : List Action} :
    Requires table namespaceText route params r → r.auth = true →
    waitOn verifier timeout now query inputs route params r = some (time, .authenticated auth) →
    Serves inputs last → (∀ a ∈ runs, a.isRun = true) →
    Course last
      (.send (.message needAuthentication) :: .send (.message succeed) :: runs)
  /-- A route that asks for none. -/
  | anonymous {route : Route} {params : Dict String} {r : Requirement} {last : Session}
      {runs : List Action} :
    Requires table namespaceText route params r → r.auth = false →
    Serves inputs last → (∀ a ∈ runs, a.isRun = true) → Course last runs

end Courses

/-- Only an event with a valid credential, and only before the deadline, authenticates. -/
theorem verdict?_eq_authenticated {now : Nat} {input : Input} {auth : AuthContext}
    (verdict : verdict? verifier r deadline now input = some (.authenticated auth)) :
    ∃ e, input = .event e ∧ now < deadline ∧ offered? verifier r e = some auth := by
  rcases Nat.lt_or_ge now deadline with early | late
  · have notLate : ¬ deadline ≤ now := Nat.not_le.mpr early
    cases input with
    | event e =>
      simp only [verdict?, if_neg notLate] at verdict
      obtain ⟨auth', valid, same⟩ := Option.map_eq_some_iff.mp verdict
      cases same
      exact ⟨e, rfl, early, valid⟩
    | leave =>
      simp only [verdict?, if_neg notLate] at verdict
      cases verdict
    | pause =>
      simp only [verdict?, if_neg notLate] at verdict
      cases verdict
  · rw [verdict?_of_deadline_le late] at verdict
    cases verdict

/-- What a run with a deadline comes to once a credential has ended the wait: the
session confirms it, and only runs handlers after that. -/
theorem run_authenticated {inputs : List (Nat × Input)} {time : Nat} {auth : AuthContext}
    (ends : (waiting visit r deadline).handshake verifier (withDeadline deadline inputs) =
      some (time, .authenticated auth)) :
    ∃ last runs, (waiting visit r deadline).run verifier (withDeadline deadline inputs) =
        (last, .send (.message succeed) :: runs) ∧
      Serves inputs last ∧ (∀ a ∈ runs, a.isRun = true) ∧
      ∃ e, (time, .event e) ∈ inputs ∧ time < deadline ∧ offered? verifier r e = some auth := by
  obtain ⟨before, input, after, split, quiet, verdict, runEq⟩ := run_waiting ends
  obtain ⟨e, rfl, early, valid⟩ := verdict?_eq_authenticated verdict
  obtain ⟨serves, allRuns⟩ := run_dispatched verifier
    { visit with context := { visit.context with auth } } after
  refine ⟨_, _, runEq, ?_, ?_, e, ?_, early, valid⟩
  · have sameLeft : hasLeft after = hasLeft inputs := by
      rw [← hasLeft_withDeadline deadline inputs, split, hasLeft_append,
        hasLeft_of_verdict?_none quiet]
      rfl
    rw [Serves, ← sameLeft]
    exact serves
  · intro a member
    rcases List.mem_append.mp member with member | member
    · rw [List.mem_singleton.mp member]
      rfl
    · exact allRuns a member
  · have member : (time, .event e) ∈ withDeadline deadline inputs := by
      rw [split]
      exact List.mem_append_right _ List.mem_cons_self
    rcases mem_withDeadline.mp member with absurdity | member
    · cases absurdity
    · exact member

section Courses

variable (verifier : Verifier) (table : Table) (timeout now : Nat) (namespaceText : String)
  (query : Dict String) (inputs : List (Nat × Input))

variable {table namespaceText} {route : Route} {params : Dict String} {r : Requirement}

/-- The courses that begin with a wait for a credential. -/
theorem course_of_waiting (requires : Requires table namespaceText route params r)
    (asks : r.auth = true) :
    Course verifier table timeout now namespaceText query inputs
      ((waiting (.ofRoute route params query) r (now + timeout)).run verifier
        (withDeadline (now + timeout) inputs)).1
      (.send (.message needAuthentication) ::
        ((waiting (.ofRoute route params query) r (now + timeout)).run verifier
          (withDeadline (now + timeout) inputs)).2) := by
  obtain ⟨⟨time, how⟩, ends⟩ : ∃ result,
      waitOn verifier timeout now query inputs route params r = some result :=
    ⟨_, handshake_withDeadline inputs⟩
  cases how with
  | authenticated auth =>
    obtain ⟨last, runs, runEq, serves, allRuns, -⟩ := run_authenticated ends
    rw [runEq]
    exact .authenticated requires asks ends serves allRuns
  | timedOut =>
    obtain ⟨_, _, after, _, _, _, runEq⟩ := run_waiting ends
    rw [runEq, settle, andThen_eq, run_ended]
    exact .timedOut requires asks ends
  | closed =>
    obtain ⟨_, _, after, _, _, _, runEq⟩ := run_waiting ends
    rw [runEq, settle, andThen_eq, run_ended]
    exact .abandoned requires asks ends

/-- The course that begins with a dispatch. -/
theorem course_of_dispatch (requires : Requires table namespaceText route params r)
    (free : r.auth = false) :
    Course verifier table timeout now namespaceText query inputs
      (andThen (dispatch (.ofRoute route params query) .anonymous) fun s =>
        s.run verifier (withDeadline (now + timeout) inputs)).1
      (andThen (dispatch (.ofRoute route params query) .anonymous) fun s =>
        s.run verifier (withDeadline (now + timeout) inputs)).2 := by
  obtain ⟨serves, allRuns⟩ := run_dispatched verifier
    { Visit.ofRoute route params query with
      context := { (Visit.ofRoute route params query).context with auth := .anonymous } }
    (withDeadline (now + timeout) inputs)
  rw [andThen_eq]
  refine .anonymous requires free ?_ fun a member => ?_
  · rw [Serves, ← hasLeft_withDeadline (now + timeout) inputs]
    exact serves
  · rcases List.mem_append.mp member with member | member
    · rw [List.mem_singleton.mp member]
      rfl
    · exact allRuns a member

variable (table namespaceText)

/-- Where no route has a requirement, a refusal is the whole course. -/
theorem course_of_refusal
    (none_requires : ∀ route params r, ¬ Requires table namespaceText route params r) :
    Course verifier table timeout now namespaceText query inputs
      (andThen refuse fun s => s.run verifier (withDeadline (now + timeout) inputs)).1
      (andThen refuse fun s => s.run verifier (withDeadline (now + timeout) inputs)).2 := by
  rw [andThen_eq, refuse, run_ended]
  exact .refused none_requires

/-- Every connection takes one of the courses. -/
theorem serve_course :
    Course verifier table timeout now namespaceText query inputs
      (serve verifier table timeout now namespaceText query inputs).1
      (serve verifier table timeout now namespaceText query inputs).2 := by
  rw [serve, start]
  split
  · next noRoute =>
    refine course_of_refusal _ _ _ _ _ _ _ fun route params r requires => ?_
    obtain ⟨found, -⟩ := requires
    rw [noRoute] at found
    cases found
  · next route params found =>
    split
    · next forbidden =>
      refine course_of_refusal _ _ _ _ _ _ _ fun route' params' r requires => ?_
      obtain ⟨found', entry⟩ := requires
      obtain ⟨rfl, rfl⟩ := Prod.mk.inj (Option.some.inj (found.symm.trans found'))
      rw [forbidden] at entry
      cases entry
    · next r entry =>
      dsimp only
      split
      · next asks => exact course_of_waiting _ _ _ _ _ ⟨found, entry⟩ asks
      · next free =>
        exact course_of_dispatch _ _ _ _ _ ⟨found, entry⟩ (Bool.eq_false_iff.mpr free)

variable {verifier table timeout now namespaceText query inputs}

/-- A connection stands before one requirement. -/
theorem Requires.unique {route route' : Route} {params params' : Dict String} {r r' : Requirement}
    (requires : Requires table namespaceText route params r)
    (requires' : Requires table namespaceText route' params' r') : r = r' := by
  obtain ⟨found, entry⟩ := requires
  obtain ⟨found', entry'⟩ := requires'
  obtain ⟨rfl, rfl⟩ := Prod.mk.inj (Option.some.inj (found.symm.trans found'))
  exact AuthEntry.required.inj (entry.symm.trans entry')

/-- On a course with handlers the route asks for no credential, or a valid one came in. -/
theorem Course.requires_of_run {last : Session} {actions : List Action} {a : Action}
    (course : Course verifier table timeout now namespaceText query inputs last actions)
    (asked : a ∈ actions) (runs : a.isRun = true) :
    ∃ route params r, Requires table namespaceText route params r ∧
      (r.auth = false ∨ r.auth = true ∧ ∃ time e auth, (time, .event e) ∈ inputs ∧
        time < now + timeout ∧ offered? verifier r e = some auth) := by
  cases course with
  | refused =>
    exact absurd runs (not_isRun_of_sent [.message (unauthorized notAvailable), .close] asked)
  | timedOut =>
    exact absurd runs (not_isRun_of_sent [.message needAuthentication,
      .message (unauthorized failedToAuthenticate), .close] asked)
  | abandoned => exact absurd runs (not_isRun_of_sent [.message needAuthentication] asked)
  | @anonymous route params r _ _ requires free =>
    exact ⟨route, params, r, requires, .inl free⟩
  | @authenticated route params r time auth _ _ requires asks ends serves allRuns =>
    obtain ⟨-, -, -, -, -, e, arrived, early, valid⟩ := run_authenticated ends
    exact ⟨route, params, r, requires, .inr ⟨asks, time, e, auth, arrived, early, valid⟩⟩

/-- On a course with handlers the client is asked for a credential, if the route asks
for one, and told of its success before any handler runs. -/
theorem Course.sends_first {last : Session} {actions : List Action} {a : Action} {route : Route}
    {params : Dict String} {r : Requirement}
    (course : Course verifier table timeout now namespaceText query inputs last actions)
    (asked : a ∈ actions) (runs : a.isRun = true)
    (requires : Requires table namespaceText route params r) (asks : r.auth = true) :
    ∃ runs, (∀ a ∈ runs, a.isRun = true) ∧
      actions = .send (.message needAuthentication) :: .send (.message succeed) :: runs := by
  cases course with
  | authenticated _ _ _ _ allRuns => exact ⟨_, allRuns, rfl⟩
  | anonymous requires' free =>
    rw [requires.unique requires', free] at asks
    cases asks
  | refused none_requires => exact absurd requires (none_requires route params r)
  | timedOut =>
    exact absurd runs (not_isRun_of_sent [.message needAuthentication,
      .message (unauthorized failedToAuthenticate), .close] asked)
  | abandoned => exact absurd runs (not_isRun_of_sent [.message needAuthentication] asked)

variable (verifier table timeout now namespaceText query inputs)

/-- Whatever comes in, a connection takes one of the courses. Where handlers run, the
first route that matches requires no credential, or a valid one came in before the
deadline; the client is then asked for it and told of its success before any handler
can send anything. -/
theorem serve_runs_only_for_admitted (store : Store) :
    let last := (serve verifier table timeout now namespaceText query inputs).1
    let actions := (serve verifier table timeout now namespaceText query inputs).2
    Course verifier table timeout now namespaceText query inputs last actions ∧
      ∀ stage handlers input context, Action.run stage handlers input context ∈ actions →
        ∃ route params r, Requires table namespaceText route params r ∧
          (r.auth = false ∨ r.auth = true ∧
            (∃ time e token claims, (time, .event e) ∈ inputs ∧ time < now + timeout ∧
              e.name = authenticateName ∧ e.data.member? "token" = some (.string token) ∧
              verifier token = .ok claims ∧ Roles.satisfies r.roles claims.roles = true) ∧
            ∃ runs, (∀ a ∈ runs, a.isRun = true) ∧
              actions = .send (.message needAuthentication) :: .send (.message succeed) :: runs ∧
              (performAll store actions).sent =
                .message needAuthentication :: .message succeed ::
                  (performAll store runs).sent) := by
  intro last actions
  have course : Course verifier table timeout now namespaceText query inputs last actions :=
    serve_course verifier table timeout now namespaceText query inputs
  refine ⟨course, fun stage handlers input context asked => ?_⟩
  obtain ⟨route, params, r, requires, free | ⟨asks, time, e, auth, arrived, early, valid⟩⟩ :=
    course.requires_of_run asked rfl
  · exact ⟨route, params, r, requires, .inl free⟩
  · obtain ⟨named, token, claims, carried, accepted, satisfied, -⟩ :=
      offered?_eq_some_iff.mp valid
    obtain ⟨runs, allRuns, actionsEq⟩ := course.sends_first asked rfl requires asks
    refine ⟨route, params, r, requires, .inr ⟨asks, ?_, runs, allRuns, actionsEq, ?_⟩⟩
    · exact ⟨time, e, token, claims, arrived, early, named, carried, accepted, satisfied⟩
    · rw [actionsEq]
      exact congrArg Effects.sent
        (performAll_sends store [.message needAuthentication, .message succeed] runs)

end Courses

end Session

end EndpointTree.Channel
