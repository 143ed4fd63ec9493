import EndpointTree.Proofs.Channel.Delivery

/-!
# What a connection forgets

Two connections to one namespace may come to be dispatched in different ways: with other
failed attempts, other events in between, at other times, and with other keys of the
transport in their queries. Once they are dispatched for the same caller nothing of that is
left, and if the messages that follow are the same, they go the same way for good.

* `withoutTransport_eq_iff`: the keys of the transport are all that a query loses.
* `Session.serve_congr_of_dispatches` compares two connections from their opening on.
* `Session.handshakes_leave_no_trace` says of a handshake what the caller has to present.
-/

namespace EndpointTree.Channel

/-! ## Queries -/

theorem get?_foldl_erase (keys : List String) (query : Dict String) (key : String) :
    (keys.foldl Dict.erase query).get? key = if key ∈ keys then none else query.get? key := by
  induction keys generalizing query with
  | nil => rfl
  | cons k rest ih =>
    rw [List.foldl_cons, ih, Dict.get?_erase]
    by_cases here : key = k
    · simp [here]
    · simp [here]

theorem get?_withoutTransport (query : Dict String) (key : String) :
    (withoutTransport query).get? key =
      if key ∈ transportKeys then none else query.get? key :=
  get?_foldl_erase transportKeys query key

/-- Queries are the same to the handlers if they differ in keys of the transport only. -/
theorem withoutTransport_eq_iff {query query' : Dict String} :
    withoutTransport query = withoutTransport query' ↔
      ∀ key, key ∉ transportKeys → query.get? key = query'.get? key := by
  constructor
  · intro same key other
    have looked := congrArg (Dict.get? · key) same
    simpa only [get?_withoutTransport, if_neg other] using looked
  · intro alike
    refine Dict.ext_get? fun key => ?_
    rw [get?_withoutTransport, get?_withoutTransport]
    by_cases transports : key ∈ transportKeys
    · rw [if_pos transports, if_pos transports]
    · rw [if_neg transports, if_neg transports, alike key transports]

/-! ## Two connections -/

namespace Session

variable {verifier verifier' : Verifier} {r : Requirement} {table : Table}
  {timeout now now' : Nat} {namespaceText : String} {query query' : Dict String}
  {i i' : Inbound} {route : Route} {params : Dict String} {auth : AuthContext}
  {later later' : List (Nat × Event)}

/-- Connections that are dispatched for the same caller, before the same messages, go the
same way from their opening on. -/
theorem serve_congr_of_dispatches (requires : Requires table namespaceText route params r)
    (sameQuery : withoutTransport query = withoutTransport query')
    (dispatches : i.Dispatches verifier r timeout auth later)
    (dispatches' : i'.Dispatches verifier' r timeout auth later')
    (sameMessages : messages (later.map (·.2)) = messages (later'.map (·.2)))
    (sameEnd : i.left.isSome = i'.left.isSome) :
    serve verifier table timeout now namespaceText query (i.inputs now) =
      serve verifier' table timeout now' namespaceText query' (i'.inputs now') := by
  have sameVisit : Visit.ofRoute route params query = Visit.ofRoute route params query' := by
    rw [Visit.ofRoute, sameQuery, ← Visit.ofRoute]
  have sameTurns (left : Bool) : turnsOf (withoutTransport query) (later.map (·.2)) left =
      turnsOf (withoutTransport query') (later'.map (·.2)) left := by
    rw [turnsOf, turnsOf, furtherTurns, furtherTurns, sameQuery, sameMessages]
  rw [serve_of_dispatches requires dispatches, serve_of_dispatches requires dispatches', sameVisit,
    sameEnd, sameTurns]

/-- What a session does for everybody to see: how it ends, what it asks for in order, and
what comes of that over a store. -/
structure Alike (served served' : Session × List Action) : Prop where
  ending : served.1.end? = served'.1.end?
  /-- The messages of the session itself, and the runs of handlers with their data and
  contexts. -/
  actions : served.2 = served'.2
  effects : ∀ store, performAll store served.2 = performAll store served'.2

theorem Alike.of_eq {served served' : Session × List Action} (same : served = served') :
    Alike served served' := by
  subst same
  exact ⟨rfl, rfl, fun _ => rfl⟩

/-- Of the way to its dispatch a connection keeps the token and the claims that let it in,
and nothing else: neither failed attempts nor events in between, neither the time nor the
keys of the transport. Where no credential is asked for, credentials leave no trace at
all. -/
theorem handshakes_leave_no_trace (requires : Requires table namespaceText route params r)
    (sameQuery : ∀ key, key ∉ transportKeys → query.get? key = query'.get? key)
    (sameEnd : i.left.isSome = i'.left.isSome) (verifier verifier' : Verifier)
    (timeout now now' : Nat) :
    let served := serve verifier table timeout now namespaceText query (i.inputs now)
    let served' := serve verifier' table timeout now' namespaceText query' (i'.inputs now')
    (r.auth = true → ∀ token claims later later',
      i.Presents verifier r timeout token claims later →
      i'.Presents verifier' r timeout token claims later' →
      messages (later.map (·.2)) = messages (later'.map (·.2)) → Alike served served') ∧
    (r.auth = false → messages (i.events.map (·.2)) = messages (i'.events.map (·.2)) →
      Alike served served') := by
  intro served served'
  have sameQuery := withoutTransport_eq_iff.mpr sameQuery
  refine ⟨fun asks token claims later later' presents presents' sameMessages => ?asked,
    fun free sameMessages => ?free⟩
  case asked =>
    exact .of_eq (serve_congr_of_dispatches requires sameQuery (.authenticated asks presents)
      (.authenticated asks presents') sameMessages sameEnd)
  case free =>
    exact .of_eq (serve_congr_of_dispatches requires sameQuery (.anonymous free)
      (.anonymous free) sameMessages sameEnd)

/-- A caller who is let in at once goes the same way as one who comes over another
transport, talks too early and fails first. -/
theorem late_comer_goes_the_same_way :
    let verifier : Verifier := fun token =>
      if token = "key" then .ok { roles := ["user"] } else .error .notReadable
    let echo : NamedHandler := ⟨"echo", fun data _ store =>
      { outcome := .proceed data, sent := [.message ⟨"echo", some data⟩], store }⟩
    let r := Requirement.withPolicies true (some ["user"]) []
    let route : Route :=
      { path := "/feed", pattern := .ofPath "/feed", access := .required r
        handlers := { connect := [echo], message := [echo] }, collection := none }
    let offer (token : String) : Event := ⟨authenticateName, .object [("token", .string token)]⟩
    let say (text : String) : Event := ⟨"say", .string text⟩
    let i : Inbound :=
      { events := [(0, offer "key"), (1, say "a")], left := some 2
        ordered := by decide
        left_last := by decide }
    let i' : Inbound :=
      { events := [(7, say "early"), (8, offer "guess"), (8, ⟨authenticateName, .null⟩),
          (9, offer "key"), (9, offer "guess"), (4000, say "a")]
        left := some 9000
        ordered := by decide
        left_last := by decide }
    let query := Dict.ofList [("status", "open"), ("EIO", "4")]
    let query' := Dict.ofList [("status", "open"), ("transport", "websocket"), ("token", "x")]
    (∀ key, key ∉ transportKeys → query.get? key = query'.get? key) ∧
      i.Presents verifier r 5000 "key" { roles := ["user"] } [(1, say "a")] ∧
      i'.Presents verifier r 5000 "key" { roles := ["user"] }
        [(9, offer "guess"), (4000, say "a")] ∧
      Alike (serve verifier [route] 5000 0 "/feed" query (i.inputs 0))
        (serve verifier [route] 5000 60 "/feed" query' (i'.inputs 60)) := by
  intro verifier echo r route offer say i i' query query'
  have requires : Requires [route] "/feed" route .empty r := ⟨rfl, rfl⟩
  have handed : withoutTransport query = withoutTransport query' := rfl
  have sameQuery := withoutTransport_eq_iff.mp handed
  have presents : i.Presents verifier r 5000 "key" { roles := ["user"] } [(1, say "a")] :=
    ⟨[], 0, offer "key", rfl, List.forall_mem_nil _, by decide, rfl, rfl, rfl, by decide⟩
  have presents' : i'.Presents verifier r 5000 "key" { roles := ["user"] }
      [(9, offer "guess"), (4000, say "a")] := by
    let before := [(7, say "early"), (8, offer "guess"), (8, ⟨authenticateName, .null⟩)]
    have quiet : ∀ p ∈ before, offered? verifier r p.2 = none := by
      simp only [before, List.forall_mem_cons]
      exact ⟨rfl, rfl, rfl, List.forall_mem_nil _⟩
    exact ⟨before, 9, offer "key", rfl, quiet, by decide, rfl, rfl, rfl, by decide⟩
  obtain ⟨asked, -⟩ :=
    @handshakes_leave_no_trace r [route] "/feed" query query' i i' route .empty requires sameQuery
      rfl verifier verifier 5000 0 60
  exact ⟨sameQuery, presents, presents', asked rfl _ _ _ _ presents presents' rfl⟩

end Session

end EndpointTree.Channel
