import EndpointTree.Proofs.Channel.Subscribing
import EndpointTree.Proofs.Serving.Provenance
import Mathlib.Logic.Function.Basic

/-!
# How connections move on

Where all handlers and all writers work on the store by operations only, whatever happens lets
the store grow, and with it every connection moves on: what it does not receive any more it
never receives again, its subscriptions stay as long as it receives, and further ones come
behind them, each made by a call of its own visit.

* `Connection.Proceeds` is a move of one connection, and `Live.Proceeds` one of all of them,
  each for its own visit.
* `Live.orderly_happen`: whatever happens but the reporting of changes is such a move for
  every connection that is not opened by it.
* `Live.opens_openWith`: how a connection begins.
-/

namespace EndpointTree.Serving

open Channel (Visit Watch Outbound Made)
open Channel.Session (AsksFor)

/-! ## One connection -/

/-- A connection serves a visit, and has no subscriptions where nothing is received. -/
structure Connection.Serves (v : Visit) (c : Connection) : Prop where
  session : c.session.Visits v
  silent : c.isReceiving = false → c.watches = []

/-- The move of a connection from one state to another, and of the store below it. -/
structure Connection.Proceeds (v : Visit) (s : Store) (c : Connection) (s' : Store)
    (c' : Connection) : Prop where
  serves : c'.Serves v
  id : c'.id = c.id
  store : s.Grows s'
  receiving : c'.isReceiving = true → c.isReceiving = true
  watches : c'.isReceiving = true →
    ∃ further, c'.watches = c.watches ++ further ∧ ∀ w ∈ further, Made v s s' w

namespace Connection

variable {v : Visit} {s s' s'' : Store} {c c' c'' : Connection}
  {step : Channel.Session × List Channel.Action}

/-- A connection that is left alone proceeds while the store grows. -/
theorem Proceeds.of_grows (serves : c.Serves v) (grows : s.Grows s') : Proceeds v s c s' c where
  serves := serves
  id := rfl
  store := grows
  receiving := fun receiving => receiving
  watches := fun _ => ⟨[], (List.append_nil _).symm, nofun⟩

theorem Proceeds.trans (first : Proceeds v s c s' c') (then_ : Proceeds v s' c' s'' c'') :
    Proceeds v s c s'' c'' where
  serves := then_.serves
  id := then_.id.trans first.id
  store := first.store.trans then_.store
  receiving := fun receiving => first.receiving (then_.receiving receiving)
  watches := by
    intro receiving
    obtain ⟨made, same, sound⟩ := first.watches (then_.receiving receiving)
    obtain ⟨further, same', sound'⟩ := then_.watches receiving
    refine ⟨made ++ further, by rw [same', same, List.append_assoc], ?_⟩
    refine List.forall_mem_append.mpr ⟨fun w member => ?_, fun w member => ?_⟩
    · exact (sound w member).mono (.refl s) then_.store
    · exact (sound' w member).mono first.store (.refl s'')

/-- A subscription that a connection did not have before a move was made on the way. -/
theorem Proceeds.made (moved : Proceeds v s c s' c') {i : Nat} {w : Watch}
    (absent : c.watches[i]? = none) (held : c'.watches[i]? = some w) : Made v s s' w := by
  -- Where nothing is received there are no subscriptions, so the connection receives.
  have receiving : c'.isReceiving = true := by
    refine Bool.not_eq_false _ ▸ fun silent => ?_
    rw [moved.serves.silent silent] at held
    cases held
  obtain ⟨further, same, made⟩ := moved.watches receiving
  rw [same, List.getElem?_append_right (List.getElem?_eq_none_iff.mp absent)] at held
  exact made w (List.mem_of_getElem? held)

/-- What is sent makes nobody receive. -/
theorem isReceiving_of_deliver {sent : List Outbound}
    (receiving : (c.deliver sent).isReceiving = true) : c.isReceiving = true := by
  rw [deliver] at receiving
  split at receiving
  · split at receiving <;> exact receiving
  · next socket =>
    split at receiving
    · exact receiving
    · next writing =>
      rw [isReceiving, socket]
      simpa using writing

/-- Only a request to close ends the receiving. -/
theorem isReceiving_deliver_of_going {sent : List Outbound} (going : .close ∉ sent) :
    (c.deliver sent).isReceiving = c.isReceiving := by
  rw [deliver]
  split
  · split <;> rfl
  · next socket =>
    split
    · rfl
    · next writing =>
      have open_ : (Channel.written sent).contains .close = false := by
        rw [written_eq_self going]
        simpa using going
      simp only [isReceiving, socket, open_]
      simpa using writing

/-- Carrying out what a session asks for is progress. -/
theorem proceeds_carryOn (operates : v.Operates) (asks : AsksFor v step) (c : Connection)
    (s : Store) : Proceeds v s c (c.carryOn step s).2 (c.carryOn step s).1 := by
  obtain ⟨visits, made⟩ := asks
  have grown := Channel.Effects.grown_performAll operates s made
  obtain ⟨sameId, session, -⟩ :=
    deliver_frame { c with session := step.1 } (Channel.performAll s step.2).sent
  refine ⟨⟨?_, fun silent => ?_⟩, sameId, grown.store, fun receiving => ?_, fun receiving => ?_⟩
  · exact session.symm ▸ visits
  · exact if_neg (Bool.eq_false_iff.mp silent)
  · exact isReceiving_of_deliver (c := { c with session := step.1 }) receiving
  · exact ⟨_, if_pos receiving, grown.watches⟩

/-- Answering a close is progress. -/
theorem proceeds_answerClose (operates : v.Operates) (serves : c.Serves v) (now : Nat)
    (s : Store) : Proceeds v s c (c.answerClose now s).2 (c.answerClose now s).1 := by
  rw [answerClose]
  split
  · exact proceeds_carryOn operates (Channel.Session.asksFor_leave now serves.session) c s
  · exact .of_grows serves (.refl s)

/-- To follow a step of the session, and to answer its close, is progress. -/
theorem proceeds_follow (operates : v.Operates) (asks : AsksFor v step) (now : Nat)
    (c : Connection) (s : Store) :
    Proceeds v s c (follow now step c s).2 (follow now step c s).1 :=
  have carried := proceeds_carryOn operates asks c s
  carried.trans (proceeds_answerClose operates carried.serves now _)

/-- Leaving a socket, a client stops receiving before its departure is noticed. -/
theorem proceeds_silenced (serves : c.Serves v) (socket : c.transport = .socket) :
    Proceeds v s c s { c with writing := false, watches := [] } := by
  have silent : isReceiving { c with writing := false, watches := [] } ≠ true := by
    simp only [isReceiving, socket, ne_eq, Bool.false_eq_true, not_false_iff]
  exact ⟨⟨serves.session, fun _ => rfl⟩, rfl, .refl s, fun receiving => absurd receiving silent,
    fun receiving => absurd receiving silent⟩

theorem proceeds_detached (serves : c.Serves v) :
    Proceeds v s c s (keepWatches { c with attached := false } c.watches) := by
  refine ⟨⟨serves.session, fun silent => ?_⟩, rfl, .refl s, fun receiving => ?_,
    fun receiving => ⟨[], ?_, nofun⟩⟩
  · exact if_neg (Bool.eq_false_iff.mp silent)
  · simp only [keepWatches, isReceiving] at receiving ⊢
    split at receiving
    · cases receiving
    · exact receiving
  · rw [List.append_nil]
    exact if_pos receiving

end Connection

/-! ## All connections -/

namespace Live

/-- Every connection serves the visit of its id, whose handlers work by operations only. -/
def Orderly (visits : String → Visit) (l : Live) : Prop :=
  ∀ c ∈ l.connections, (visits c.id).Operates ∧ c.Serves (visits c.id)

/-- The store grows, and a connection under an id moves on. -/
structure Carries (id : String) (v : Visit) (l l' : Live) : Prop where
  store : l.store.Grows l'.store
  connection : ∀ c, l.find? id = some c →
    ∃ c', l'.find? id = some c' ∧ Connection.Proceeds v l.store c l'.store c'

/-- All connections move on, each for its own visit. -/
structure Proceeds (visits : String → Visit) (l l' : Live) : Prop where
  orderly : l'.Orderly visits
  carries : ∀ id, l.Carries id (visits id) l'

variable {visits : String → Visit} {l l' l'' : Live} {id : String} {v : Visit} {c : Connection}

theorem id_of_find? (found : l.find? id = some c) : c.id = id := by
  rw [find?] at found
  simpa using List.find?_some found

theorem mem_of_find? (found : l.find? id = some c) : c ∈ l.connections :=
  List.mem_of_find?_eq_some found

/-- Every connection found serves its visit. -/
theorem Orderly.of_find? (orderly : l.Orderly visits) (found : l.find? id = some c) :
    (visits id).Operates ∧ c.Serves (visits id) :=
  id_of_find? found ▸ orderly c (mem_of_find? found)

theorem find?_map (change : Connection → Connection) (same : ∀ c, (change c).id = c.id)
    (id : String) :
    find? { l with connections := l.connections.map change } id = (l.find? id).map change := by
  have named : (fun c : Connection => decide (c.id = id)) ∘ change = fun c => decide (c.id = id) :=
    funext fun c => by rw [Function.comp_apply, same c]
  rw [find?, find?, List.find?_map, named]

/-- A connection that was added is found under its own name, and hides an earlier one. -/
theorem find?_add (l : Live) (c : Connection) (id : String) :
    (l.add c).find? id = if c.id = id then some c else l.find? id := by
  rw [add, find?, find?, List.find?_append, List.find?_filter]
  by_cases own : c.id = id
  · have gone : l.connections.find?
        (fun d => decide (decide (d.id ≠ c.id) = true ∧ decide (d.id = id) = true)) = none := by
      rw [List.find?_eq_none]
      intro d _ both
      simp [own] at both
    rw [if_pos own, gone, Option.none_or]
    exact List.find?_cons_of_pos (decide_eq_true own)
  · have kept : (fun d : Connection =>
        decide (decide (d.id ≠ c.id) = true ∧ decide (d.id = id) = true)) =
        fun d => decide (d.id = id) := by
      funext d
      by_cases named : d.id = id
      · simp [named, Ne.symm own]
      · simp [named]
    rw [if_neg own, kept, List.find?_cons_of_neg (by simpa using own), List.find?_nil,
      Option.or_none]

theorem Carries.trans (first : l.Carries id v l') (then_ : l'.Carries id v l'') :
    l.Carries id v l'' := by
  refine ⟨first.store.trans then_.store, fun c found => ?_⟩
  obtain ⟨c', found', moved⟩ := first.connection c found
  obtain ⟨c'', found'', moved'⟩ := then_.connection c' found'
  exact ⟨c'', found'', moved.trans moved'⟩

theorem Proceeds.trans (first : l.Proceeds visits l') (then_ : l'.Proceeds visits l'') :
    l.Proceeds visits l'' :=
  ⟨then_.orderly, fun id => (first.carries id).trans (then_.carries id)⟩

/-- A write to the store is progress for all connections. -/
theorem proceeds_of_grows (orderly : l.Orderly visits) (same : l'.connections = l.connections)
    (grows : l.store.Grows l'.store) : l.Proceeds visits l' := by
  refine ⟨fun c member => orderly c (same ▸ member), fun id => ⟨grows, fun c found => ?_⟩⟩
  refine ⟨c, ?_, .of_grows (orderly.of_find? found).2 grows⟩
  rw [find?, same]
  exact found

theorem update_of_find? {other : String} {change : Connection → Store → Connection × Store}
    (found : l.find? other = some c) :
    l.update other change =
      { l with
        store := (change c l.store).2
        connections := l.connections.map fun d =>
          if d.id = other then (change c l.store).1 else d } := by
  rw [update, found]

/-- What is progress for one connection is progress for all. -/
theorem proceeds_update (orderly : l.Orderly visits) {other : String}
    {change : Connection → Store → Connection × Store}
    (lawful : ∀ c, (visits other).Operates → c.Serves (visits other) →
      Connection.Proceeds (visits other) l.store c (change c l.store).2 (change c l.store).1) :
    l.Proceeds visits (l.update other change) := by
  cases found : l.find? other with
  | none =>
    rw [update, found]
    exact proceeds_of_grows orderly rfl (.refl _)
  | some c =>
    obtain ⟨operates, serves⟩ := orderly.of_find? found
    have moved := lawful c operates serves
    have own : (change c l.store).1.id = other := moved.id.trans (id_of_find? found)
    rw [update_of_find? found]
    refine ⟨fun d member => ?_, fun id => ⟨moved.store, fun d foundD => ?_⟩⟩
    · obtain ⟨d', memberD, rfl⟩ := List.mem_map.mp member
      split
      · exact own.symm ▸ ⟨operates, moved.serves⟩
      · exact orderly d' memberD
    · have kept (d : Connection) :
          (if d.id = other then (change c l.store).1 else d).id = d.id := by
        split
        · next here => exact own.trans here.symm
        · rfl
      refine ⟨_, (find?_map _ kept id).trans (congrArg _ foundD), ?_⟩
      dsimp only
      by_cases here : d.id = other
      · obtain rfl : other = id := here.symm.trans (id_of_find? foundD)
        obtain rfl := Option.some.inj (found.symm.trans foundD)
        rw [if_pos here]
        exact moved
      · rw [if_neg here]
        exact .of_grows (orderly.of_find? foundD).2 moved.store

/-- An event that arrives is progress. -/
theorem proceeds_arrive (orderly : l.Orderly visits) (verifier : Verifier) (other : String)
    (e : Channel.Event) : l.Proceeds visits (l.arrive verifier other e) :=
  proceeds_update orderly fun c operates serves => Connection.proceeds_follow operates
    (Channel.Session.asksFor_receive verifier l.now e serves.session) l.now c l.store

/-- The end of a wait is progress. -/
theorem proceeds_expire (orderly : l.Orderly visits) (other : String) (now : Nat) :
    l.Proceeds visits
      (l.update other fun c store => c.follow now (c.session.expire now) store) :=
  proceeds_update orderly fun c operates serves => Connection.proceeds_follow operates
    (Channel.Session.asksFor_expire now serves.session) now c l.store

/-- The leaving of a client is progress. -/
theorem proceeds_depart (orderly : l.Orderly visits) (other : String) :
    l.Proceeds visits (l.depart other) := by
  refine proceeds_update orderly fun c operates serves => ?_
  have leaves := Channel.Session.asksFor_leave l.now serves.session
  by_cases socket : c.transport = .socket
  · simp only [if_pos socket]
    exact (Connection.proceeds_silenced serves socket).trans
      (Connection.proceeds_carryOn operates leaves _ l.store)
  · simp only [if_neg socket]
    exact Connection.proceeds_carryOn operates leaves c l.store

theorem proceeds_detach (orderly : l.Orderly visits) (other : String) :
    l.Proceeds visits (l.detach other) :=
  proceeds_update orderly fun _ _ serves => Connection.proceeds_detached serves

/-- One move after another is a move. -/
theorem proceeds_foldl {α : Type} {step : Live → α → Live}
    (moves : ∀ l a, Orderly visits l → l.Proceeds visits (step l a)) (orderly : l.Orderly visits)
    (items : List α) : l.Proceeds visits (items.foldl step l) := by
  induction items generalizing l with
  | nil => exact proceeds_of_grows orderly rfl (.refl _)
  | cons a rest ih =>
    have moved := moves l a orderly
    exact moved.trans (ih moved.orderly)

/-- The passing of time is progress. -/
theorem proceeds_advance (orderly : l.Orderly visits) (ms : Nat) :
    l.Proceeds visits (l.advance ms) := by
  have later : l.Proceeds visits { l with now := l.now + ms } :=
    proceeds_of_grows orderly rfl (.refl _)
  exact later.trans (proceeds_foldl (fun _ other orderly => proceeds_expire orderly other _)
    later.orderly _)

theorem proceeds_collect (orderly : l.Orderly visits) : l.Proceeds visits l.collect := by
  refine ⟨fun d member => ?_, fun id => ⟨.refl _, fun c found => ?_⟩⟩
  · obtain ⟨c, memberC, rfl⟩ := List.mem_map.mp member
    obtain ⟨operates, session, silent⟩ := orderly c memberC
    exact ⟨operates, session, silent⟩
  · obtain ⟨-, session, silent⟩ := orderly.of_find? found
    let handed := fun c : Connection =>
      { c with received := [], reported := c.reported || c.ending?.isSome }
    exact ⟨handed c, (find?_map handed (fun _ => rfl) id).trans (congrArg _ found),
      ⟨session, silent⟩, rfl, .refl _, fun receiving => receiving,
      fun _ => ⟨[], (List.append_nil _).symm, nofun⟩⟩

/-! ## Opening -/

/-- A connection that is opened begins without subscriptions and moves on from there, for its
own visit, and all others move on for theirs. -/
theorem opens_openWith {app : Application} {table : Channel.Table} {other : String}
    {namespaceText : String} {query : Dict String} (orderly : l.Orderly visits)
    (operates : v.Operates)
    (asks : AsksFor v (Channel.Session.start table app.settings.authTimeoutMs l.now namespaceText
      query))
    (transport : Transport) (queue : List Channel.Event) :
    let next := l.openWith app table transport other namespaceText query queue
    next.Orderly (Function.update visits other v) ∧ l.store.Grows next.store ∧
      (∀ id, other ≠ id → l.Carries id (visits id) next) ∧
      ∃ fresh c : Connection, fresh.watches = [] ∧ next.find? other = some c ∧
        Connection.Proceeds v l.store fresh next.store c := by
  rw [openWith]
  generalize Channel.Session.start table app.settings.authTimeoutMs l.now namespaceText query =
    step at asks ⊢
  intro next
  let fresh : Connection := { id := other, transport, session := step.1 }
  have serves : fresh.Serves v := ⟨asks.1, fun _ => rfl⟩
  -- A connection that had the id before is gone, so the id can be given to the new visit.
  have added : (l.add fresh).Orderly (Function.update visits other v) := by
    intro c member
    rcases List.mem_append.mp member with member | member
    · obtain ⟨member, elsewhere⟩ := List.mem_filter.mp member
      rw [Function.update_of_ne (of_decide_eq_true elsewhere)]
      exact orderly c member
    · obtain rfl := List.mem_singleton.mp member
      rw [show fresh.id = other from rfl, Function.update_self]
      exact ⟨operates, serves⟩
  have started : (l.add fresh).Proceeds (Function.update visits other v)
      ((l.add fresh).update other fun c store => c.follow l.now step store) := by
    refine proceeds_update added fun c operates serves => ?_
    rw [Function.update_self] at operates serves ⊢
    exact Connection.proceeds_follow operates asks l.now c _
  have timed := started.trans (proceeds_expire started.orderly other l.now)
  have moved : (l.add fresh).Proceeds (Function.update visits other v) next :=
    timed.trans (proceeds_foldl (fun _ e orderly => proceeds_arrive orderly app.verifier other e)
      timed.orderly queue)
  refine ⟨moved.orderly, (moved.carries other).store, fun id elsewhere => ?_, ?_⟩
  · have carries := moved.carries id
    rw [Function.update_of_ne (Ne.symm elsewhere)] at carries
    refine ⟨carries.store, fun c found => carries.connection c ?_⟩
    rw [find?_add, if_neg elsewhere]
    exact found
  · have carries := moved.carries other
    rw [Function.update_self] at carries
    obtain ⟨c, found, moved⟩ := carries.connection fresh (by rw [find?_add, if_pos rfl])
    exact ⟨fresh, c, rfl, found, moved⟩

end Live

/-! ## Whatever happens -/

/-- All channel handlers of the model work on the store by operations only. -/
def Application.Operates (app : Application) : Prop :=
  ∀ route ∈ Channel.tableOf app.model, ∀ stage : Channel.Stage,
    ∀ h ∈ stage.handlers route.handlers, h.Operates

namespace Application

variable {app : Application}

/-- Where all handlers operate on records, those of every visit do. -/
theorem Operates.visit (operates : app.Operates) {namespaceText : String} {route : Channel.Route}
    {params : Dict String}
    (found : Channel.route? (Channel.tableOf app.model) namespaceText = some (route, params))
    (query : Dict String) : (Visit.ofRoute route params query).Operates := by
  obtain ⟨route', member, fits⟩ := List.exists_of_findSome?_eq_some found
  obtain ⟨params', -, same⟩ := Option.map_eq_some_iff.mp fits
  obtain ⟨rfl, -⟩ := Prod.mk.inj same
  exact operates route' member

/-- Whatever a connection asks for, there is a visit that its session starts for. -/
theorem Operates.exists_asksFor_start (operates : app.Operates) (timeout now : Nat)
    (namespaceText : String) (query : Dict String) :
    ∃ v : Visit, v.Operates ∧ AsksFor v
      (Channel.Session.start (Channel.tableOf app.model) timeout now namespaceText query) := by
  cases found : Channel.route? (Channel.tableOf app.model) namespaceText with
  | none =>
    refine ⟨⟨⟨"", .empty, .empty, .anonymous, none, none⟩, {}⟩, fun stage h member => ?_, ?_⟩
    · cases stage <;> cases member
    · rw [Channel.Session.start, found]
      exact Channel.Session.asksFor_refuse
  | some found' =>
    obtain ⟨route, params⟩ := found'
    exact ⟨_, operates.visit found query, Channel.Session.asksFor_start found timeout now query⟩

end Application

namespace Live

variable {visits : String → Visit} {l : Live} {app : Application}

/-- A writer works on the store by operations only. -/
def Happening.Operates : Happening → Prop
  | .writes write => ∀ s : Store, s.Grows (write s)
  | _ => True

theorem isReceiving_notify (changes : List Change) (c : Connection) :
    (notify changes c).isReceiving = c.isReceiving :=
  Connection.isReceiving_deliver_of_going (Connection.close_not_mem_reports changes c.watches)

/-- Settling shows every connection the changes so far. -/
theorem find?_settle {id : String} {c : Connection} (found : l.find? id = some c) :
    l.settle.find? id = some (notify l.store.changes c) :=
  (find?_map (notify l.store.changes) (fun c => (c.deliver_frame _).1) id).trans
    (congrArg _ found)

/-- Settling leaves every connection at its visit. -/
theorem orderly_settle (orderly : l.Orderly visits) : l.settle.Orderly visits := by
  intro d member
  obtain ⟨c, memberC, rfl⟩ := List.mem_map.mp member
  obtain ⟨operates, serves⟩ := orderly c memberC
  obtain ⟨same, session, -⟩ := c.deliver_frame (c.watches.flatMap (reports l.store.changes))
  have own : (notify l.store.changes c).id = c.id := same
  refine own.symm ▸ ⟨operates, session ▸ serves.session, fun silent => ?_⟩
  rw [isReceiving_notify] at silent
  show c.watches.map _ = []
  rw [serves.silent silent, List.map_nil]

/-- Whatever happens, the store grows by operations, and connections go on serving their visits.
Anything but the reporting of changes is a move of every connection that it does not open. -/
theorem orderly_happen (operates : app.Operates) {h : Happening} (works : h.Operates)
    (orderly : l.Orderly visits) :
    ∃ visits', (l.happen app h).Orderly visits' ∧ l.store.Grows (l.happen app h).store ∧
      ∀ id, h.opened? ≠ some id → visits' id = visits id ∧
        (h ≠ .settles → l.Carries id (visits id) (l.happen app h)) := by
  have moved {l' : Live} (moved : l.Proceeds visits l') : ∃ visits', l'.Orderly visits' ∧
      l.store.Grows l'.store ∧ ∀ id, h.opened? ≠ some id → visits' id = visits id ∧
        (h ≠ .settles → l.Carries id (visits id) l') :=
    ⟨visits, moved.orderly, (moved.carries "").store, fun id _ => ⟨rfl, fun _ => moved.carries id⟩⟩
  cases h with
  | opens transport other namespaceText query queue =>
    obtain ⟨v, operates, asks⟩ := operates.exists_asksFor_start app.settings.authTimeoutMs l.now
      namespaceText query
    obtain ⟨orderly, grows, carries, -⟩ := opens_openWith orderly operates asks transport queue
    refine ⟨_, orderly, grows, fun id elsewhere => ?_⟩
    have elsewhere : other ≠ id := fun same => elsewhere (congrArg some same)
    exact ⟨Function.update_of_ne (Ne.symm elsewhere) v visits, fun _ => carries id elsewhere⟩
  | arrives other e => exact moved (proceeds_arrive orderly app.verifier other e)
  | departs other => exact moved (proceeds_depart orderly other)
  | detaches other => exact moved (proceeds_detach orderly other)
  | passes ms => exact moved (proceeds_advance orderly ms)
  | writes write => exact moved (proceeds_of_grows orderly rfl (works l.store))
  | settles =>
    exact ⟨visits, orderly_settle orderly, .refl _,
      fun id _ => ⟨rfl, fun other => absurd rfl other⟩⟩
  | collects => exact moved (proceeds_collect orderly)

/-- Along a run, a connection is there as long as it is not opened anew, and goes on serving its
visit. -/
theorem orderly_run (operates : app.Operates) {happenings : List Happening}
    (work : ∀ h ∈ happenings, h.Operates) (orderly : l.Orderly visits) :
    ∃ visits', (l.run app happenings).Orderly visits' ∧
      l.store.Grows (l.run app happenings).store ∧
      ∀ id, (∀ h ∈ happenings, h.opened? ≠ some id) → visits' id = visits id ∧
        ∀ c, l.find? id = some c → ∃ c', (l.run app happenings).find? id = some c' := by
  induction happenings generalizing l visits with
  | nil => exact ⟨visits, orderly, .refl _, fun id _ => ⟨rfl, fun c found => ⟨c, found⟩⟩⟩
  | cons h rest ih =>
    obtain ⟨works, work⟩ := List.forall_mem_cons.mp work
    obtain ⟨visits', orderly', grows, others⟩ := orderly_happen operates works orderly
    obtain ⟨visits'', orderly'', grows', others'⟩ := ih work orderly'
    refine ⟨visits'', orderly'', grows.trans grows', fun id kept => ?_⟩
    obtain ⟨here, kept⟩ := List.forall_mem_cons.mp kept
    obtain ⟨same, carries⟩ := others id here
    obtain ⟨same', stays⟩ := others' id kept
    refine ⟨same'.trans same, fun c found => ?_⟩
    by_cases settles : h = .settles
    · subst settles
      exact stays _ (find?_settle found)
    · obtain ⟨c', found', -⟩ := (carries settles).connection c found
      exact stays c' found'

end Live

end EndpointTree.Serving
