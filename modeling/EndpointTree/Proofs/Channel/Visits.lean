import EndpointTree.Proofs.Channel.Transcript

/-!
# What a session visits

A connection is opened for one visit: the route of its namespace, with the parameters
and the query that it asked for. Whatever comes in, all that its session asks for is made
for that visit: it sends notices of the protocol, and it runs the handlers of the route,
each list in its own stage, on the context of the visit, in which only the caller and the
name of the event at hand change.

* `Session.Visits` is the invariant, and `Session.AsksFor` says it of a step with what
  the step asks for.
* `Session.asksFor_start` and `Session.asksFor_step` are the steps of a session,
  `Session.asksFor_serve` is its whole life.
-/

namespace EndpointTree.Channel

/-- The visit on behalf of a caller. -/
def Visit.onBehalf (v : Visit) (auth : AuthContext) : Visit :=
  { v with context := { v.context with auth } }

/-- What a session sends of its own accord. -/
def notices : List Outbound :=
  [.message needAuthentication, .message succeed, .message (unauthorized notAvailable),
    .message (unauthorized failedToAuthenticate), .close]

/-- No notice passes for a report of a change: `update` is the name of those alone. -/
theorem name_ne_update_of_notice {m : Message} (notice : .message m ∈ notices) :
    m.name ≠ "update" := by
  simp only [notices, List.mem_cons, Outbound.message.injEq, List.not_mem_nil, or_false,
    reduceCtorEq] at notice
  rcases notice with rfl | rfl | rfl | rfl <;> decide

/-- An action is made for a visit. -/
def Action.MadeFor (v : Visit) : Action → Prop
  | .send outbound => outbound ∈ notices
  | .run stage handlers _ context =>
    handlers = stage.handlers v.handlers ∧
      ∃ auth event, context = { v.context with auth, event }

namespace Session

/-- A session serves a visit, if it serves any. -/
def Visits (v : Visit) : Session → Prop
  | .waiting visit _ _ => visit = v
  | .dispatched visit => ∃ auth, visit = v.onBehalf auth
  | .ended _ => True

/-- A session serves a visit, and so do the actions that it asks for. -/
def AsksFor (v : Visit) (result : Session × List Action) : Prop :=
  result.1.Visits v ∧ ∀ a ∈ result.2, a.MadeFor v

section Steps

variable {v : Visit} {s : Session}

theorem madeFor_send {o : Outbound} (notice : o ∈ notices) : (Action.send o).MadeFor v := notice

/-- An action of a dispatched visit is made for it. -/
theorem madeFor_action (auth : AuthContext) (stage : Stage) (input : Json)
    (event : Option String) : ((v.onBehalf auth).action stage input event).MadeFor v :=
  ⟨rfl, auth, event, rfl⟩

theorem asksFor_nil (visits : s.Visits v) : AsksFor v (s, []) :=
  ⟨visits, fun _ member => absurd member List.not_mem_nil⟩

/-- What two parts of a step ask for one after the other, the whole step asks for. -/
theorem asksFor_andThen {first : Session × List Action} {next : Session → Session × List Action}
    (asks : AsksFor v first) (further : ∀ s, s.Visits v → AsksFor v (next s)) :
    AsksFor v (andThen first next) := by
  obtain ⟨visits, made⟩ := asks
  obtain ⟨visits', made'⟩ := further _ visits
  rw [andThen_eq]
  exact ⟨visits', List.forall_mem_append.mpr ⟨made, made'⟩⟩

/-- A refusal sends its notice, closes, and runs no handler. -/
theorem asksFor_refuse : AsksFor v refuse := by
  refine ⟨trivial, List.forall_mem_cons.mpr ⟨madeFor_send (by decide), ?_⟩⟩
  exact List.forall_mem_singleton.mpr (madeFor_send (by decide))

/-- Dispatching runs the list of the first stage, on behalf of the caller. -/
theorem asksFor_dispatch (v : Visit) (auth : AuthContext) : AsksFor v (dispatch v auth) :=
  ⟨⟨auth, rfl⟩, List.forall_mem_singleton.mpr (madeFor_action auth _ _ _)⟩

/-- A deadline that has passed ends the wait, and never reaches a handler. -/
theorem asksFor_expire (now : Nat) (visits : s.Visits v) : AsksFor v (s.expire now) := by
  cases s with
  | waiting visit r deadline =>
    rw [expire]
    split
    · refine ⟨trivial, List.forall_mem_cons.mpr ⟨madeFor_send (by decide), ?_⟩⟩
      exact List.forall_mem_singleton.mpr (madeFor_send (by decide))
    · exact asksFor_nil visits
  | dispatched visit => exact asksFor_nil visits
  | ended how => exact asksFor_nil visits

/-- An event that ends the wait runs the first list, a later one the second. -/
theorem asksFor_take (verifier : Verifier) (e : Event) (visits : s.Visits v) :
    AsksFor v (take verifier e s) := by
  cases s with
  | waiting visit r deadline =>
    obtain rfl : visit = v := visits
    rw [take]
    split
    · split
      · next auth _ =>
        obtain ⟨visits, made⟩ := asksFor_dispatch visit auth
        exact ⟨visits, List.forall_mem_cons.mpr ⟨madeFor_send (by decide), made⟩⟩
      · exact asksFor_nil rfl
    · exact asksFor_nil rfl
  | dispatched visit =>
    obtain ⟨auth, rfl⟩ := visits
    rw [take]
    split
    · exact asksFor_nil ⟨auth, rfl⟩
    · exact ⟨⟨auth, rfl⟩, List.forall_mem_singleton.mpr (madeFor_action auth _ _ _)⟩
  | ended how => exact asksFor_nil trivial

theorem asksFor_depart (visits : s.Visits v) : AsksFor v s.depart := by
  cases s with
  | waiting visit r deadline => exact asksFor_nil trivial
  | dispatched visit =>
    obtain ⟨auth, rfl⟩ := visits
    exact ⟨trivial, List.forall_mem_singleton.mpr (madeFor_action auth _ _ _)⟩
  | ended how => exact asksFor_nil trivial

theorem asksFor_receive (verifier : Verifier) (now : Nat) (e : Event) (visits : s.Visits v) :
    AsksFor v (s.receive verifier now e) :=
  asksFor_andThen (asksFor_expire now visits) fun _ visits => asksFor_take verifier e visits

theorem asksFor_leave (now : Nat) (visits : s.Visits v) : AsksFor v (s.leave now) :=
  asksFor_andThen (asksFor_expire now visits) fun _ visits => asksFor_depart visits

/-- Each input keeps a session at its visit. -/
theorem asksFor_step (verifier : Verifier) (now : Nat) (input : Input) (visits : s.Visits v) :
    AsksFor v (s.step verifier now input) := by
  cases input with
  | event e => exact asksFor_receive verifier now e visits
  | leave => exact asksFor_leave now visits
  | pause => exact asksFor_expire now visits

/-- However many inputs come, and whenever, a session stays at its visit. -/
theorem asksFor_run (verifier : Verifier) (inputs : List (Nat × Input)) (visits : s.Visits v) :
    AsksFor v (s.run verifier inputs) := by
  induction inputs generalizing s with
  | nil => exact asksFor_nil visits
  | cons p rest ih =>
    exact asksFor_andThen (asksFor_step verifier p.1 p.2 visits) fun _ visits => ih visits

end Steps

section Serving

variable {table : Table} {namespaceText : String} {route : Route} {params : Dict String}

/-- What a connection asks for before anything has come in is made for the route found. -/
theorem asksFor_start (found : route? table namespaceText = some (route, params))
    (timeout now : Nat) (query : Dict String) :
    AsksFor (.ofRoute route params query) (start table timeout now namespaceText query) := by
  rw [start, found]
  dsimp only
  split
  · exact asksFor_refuse
  · split
    · exact ⟨rfl, List.forall_mem_singleton.mpr (madeFor_send (by decide))⟩
    · exact asksFor_dispatch _ _

/-- A connection asks for nothing but what its visit makes it ask for. -/
theorem asksFor_serve (found : route? table namespaceText = some (route, params))
    (verifier : Verifier) (timeout now : Nat) (query : Dict String)
    (inputs : List (Nat × Input)) :
    AsksFor (.ofRoute route params query)
      (serve verifier table timeout now namespaceText query inputs) :=
  asksFor_andThen (asksFor_start found timeout now query) fun _ visits =>
    asksFor_run verifier _ visits

end Serving

end Session

end EndpointTree.Channel
