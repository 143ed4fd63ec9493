import EndpointTree.Proofs.Serving.Progress

/-!
# What subscriptions report

A subscription reports changes each time that changes are reported, from where it stood the
last time. As long as its connection receives and it is never so far behind that changes are
passed over, its reports join up: nothing is left out and nothing comes twice. A subscription
of `observe` begins behind the last change, so that it reports what was published since the
call that made it and what the connection's query selects, in the order of publication.

* `Live.reported` is what a subscription reports along a run.
* `Connection.Follows` is the invariant of a subscription, `Connection.Follows.proceed` and
  `Connection.Follows.notify` its steps and `Live.follows_run` the run.
* `Live.made_along`: how a subscription comes about, `Live.reported_since`: what it reports from
  then on.
* `observers_miss_and_invent_nothing` puts it together.
-/

namespace EndpointTree

/-- What a subscription is about, wherever it stands. -/
def Channel.Watch.about (w : Channel.Watch) : String × Query := (w.collection, w.query)

namespace Serving

open Channel (Visit Watch Outbound Made Selects observe)

/-- The updates with which a subscription reports changes. -/
def updates (w : Watch) (changes : List Change) : List Outbound :=
  (changes.filter w.accepts).map fun change => .message (Channel.update change)

/-- Changes in two parts are reported one part after the other. -/
theorem updates_append (w : Watch) (changes further : List Change) :
    updates w (changes ++ further) = updates w changes ++ updates w further := by
  rw [updates, List.filter_append, List.map_append]
  rfl

/-- Watches of the same changes report the same. -/
theorem updates_congr {w w' : Watch} (same : w.about = w'.about) (changes : List Change) :
    updates w changes = updates w' changes := by
  obtain ⟨collection, query⟩ := Prod.mk.inj same
  have same : w.accepts = w'.accepts := by
    funext change
    rw [Watch.accepts, Watch.accepts, collection, query]
  rw [updates, updates, same]

/-! ## One subscription -/

/-- Up to where it stands, a subscription has reported the changes since a position. -/
structure Followed (start : Nat) (s : Store) (w : Watch) (out : List Outbound) : Prop where
  begun : start ≤ w.since
  within : w.since ≤ s.changes.length
  told : out = updates w ((s.changes.take w.since).drop start)

/-- As long as a connection receives, its `i`-th subscription is there, about what it was about
before, and has reported the changes since a position. -/
def Connection.Follows (i : Nat) (subject : String × Query) (start : Nat) (s : Store)
    (c : Connection) (out : List Outbound) : Prop :=
  c.isReceiving = true →
    ∃ w, c.watches[i]? = some w ∧ w.about = subject ∧ Followed start s w out

section

variable {v : Visit} {s s' : Store} {c c' : Connection} {w : Watch} {i start : Nat}
  {subject : String × Query} {out : List Outbound}

/-- What was reported so far stays right while the store grows. -/
theorem Followed.grow (followed : Followed start s w out) (grows : s.Grows s') :
    Followed start s' w out := by
  obtain ⟨begun, within, told⟩ := followed
  obtain ⟨further, same⟩ := grows.changes_prefix
  refine ⟨begun, ?_, ?_⟩
  · rw [← same, List.length_append]
    omega
  · rw [← same, List.take_append_of_le_length within]
    exact told

/-- A subscription has reported nothing since where it stands. -/
theorem followed_since (within : w.since ≤ s.changes.length) : Followed w.since s w [] := by
  refine ⟨Nat.le_refl _, within, ?_⟩
  rw [List.drop_eq_nil_of_le (List.length_take_le _ _)]
  rfl

/-- Reporting changes, a subscription moves on to the end of them. -/
theorem Followed.notify (followed : Followed start s w out)
    (near : s.changes.length - w.since ≤ Live.backlog) :
    Followed start s { w with since := s.changes.length } (out ++ Live.reports s.changes w) := by
  obtain ⟨begun, within, told⟩ := followed
  have split : s.changes.drop start =
      (s.changes.take w.since).drop start ++ s.changes.drop w.since := by
    have before : start ≤ (s.changes.take w.since).length := by
      rw [List.length_take, Nat.min_eq_left within]
      exact begun
    rw [← List.drop_append_of_le_length before, List.take_append_drop]
  refine ⟨Nat.le_trans begun within, Nat.le_refl _, ?_⟩
  rw [List.take_length, split, Connection.reports_of_near near, told]
  exact (updates_append ..).symm

/-- Progress leaves what was reported as it is. -/
theorem Connection.Follows.proceed (follows : c.Follows i subject start s out)
    (moved : Connection.Proceeds v s c s' c') : c'.Follows i subject start s' out := by
  intro receiving
  obtain ⟨w, held, same, followed⟩ := follows (moved.receiving receiving)
  obtain ⟨further, watches, -⟩ := moved.watches receiving
  refine ⟨w, ?_, same, followed.grow moved.store⟩
  rw [watches, List.getElem?_append_left (List.getElem?_eq_some_iff.mp held).1]
  exact held

/-- A notice reports what happened since the last one, as long as the backlog holds it. -/
theorem Connection.Follows.notify (follows : c.Follows i subject start s out)
    (near : ∀ w, c.watches[i]? = some w → s.changes.length - w.since ≤ Live.backlog) :
    (Live.notify s.changes c).Follows i subject start s
      (out ++ (c.watches[i]?).elim [] (Live.reports s.changes)) := by
  intro receiving
  rw [Live.isReceiving_notify] at receiving
  obtain ⟨w, held, same, followed⟩ := follows receiving
  refine ⟨{ w with since := s.changes.length }, ?_, same, ?_⟩
  · rw [Live.notify, List.getElem?_map, held]
    rfl
  · rw [held, Option.elim_some]
    exact followed.notify (near w held)

end

/-! ## Runs -/

namespace Live

/-- The `i`-th subscription of a connection, in the order in which they were made. -/
def watch? (l : Live) (id : String) (i : Nat) : Option Watch :=
  (l.find? id).bind fun c => c.watches[i]?

/-- How many changes a subscription has still to look at. -/
def lag (l : Live) (id : String) (i : Nat) : Nat :=
  (l.watch? id i).elim 0 fun w => l.store.changes.length - w.since

/-- What a subscription reports as something happens. -/
def reportedBy (id : String) (i : Nat) (l : Live) : Happening → List Outbound
  | .settles => (l.watch? id i).elim [] (reports l.store.changes)
  | _ => []

/-- What a subscription reports along a run. -/
def reported (app : Application) (id : String) (i : Nat) : Live → List Happening → List Outbound
  | _, [] => []
  | l, h :: rest => reportedBy id i l h ++ reported app id i (l.happen app h) rest

/-- Whenever changes are reported along a run, a subscription is not so far behind that some are
passed over. -/
def KeepsUp (app : Application) (id : String) (i : Nat) : Live → List Happening → Prop
  | _, [] => True
  | l, h :: rest => (h = .settles → l.lag id i ≤ backlog) ∧ KeepsUp app id i (l.happen app h) rest

variable {app : Application} {visits : String → Visit} {l : Live} {id : String} {c : Connection}
  {i start : Nat} {subject : String × Query} {out : List Outbound}

theorem watch?_eq (found : l.find? id = some c) (i : Nat) : l.watch? id i = c.watches[i]? := by
  rw [watch?, found, Option.bind_some]

theorem run_append (app : Application) (l : Live) (happenings further : List Happening) :
    l.run app (happenings ++ further) = (l.run app happenings).run app further :=
  List.foldl_append

theorem operates_concat_settles {happenings : List Happening}
    (work : ∀ h ∈ happenings, h.Operates) : ∀ h ∈ happenings ++ [.settles], h.Operates :=
  List.forall_mem_append.mpr ⟨work, List.forall_mem_singleton.mpr trivial⟩

theorem opened?_concat_settles {happenings : List Happening}
    (kept : ∀ h ∈ happenings, h.opened? ≠ some id) :
    ∀ h ∈ happenings ++ [.settles], h.opened? ≠ some id :=
  List.forall_mem_append.mpr ⟨kept, List.forall_mem_singleton.mpr nofun⟩

/-- Each happening adds to the reports just what it publishes. -/
theorem follows_happen (operates : app.Operates) {h : Happening} (works : h.Operates)
    (orderly : l.Orderly visits) (kept : h.opened? ≠ some id) (found : l.find? id = some c)
    (follows : c.Follows i subject start l.store out)
    (near : h = .settles → l.lag id i ≤ backlog) :
    ∃ c', (l.happen app h).find? id = some c' ∧
      c'.Follows i subject start (l.happen app h).store (out ++ reportedBy id i l h) := by
  obtain ⟨_, _, _, carried⟩ := orderly_happen operates works orderly
  -- Reporting is the only happening that moves subscriptions on; all others are moves of the
  -- connection during which it reports nothing.
  by_cases settles : h = .settles
  · subst settles
    have near : ∀ w, c.watches[i]? = some w → l.store.changes.length - w.since ≤ backlog := by
      intro w held
      have near := near rfl
      rw [lag, watch?_eq found, held] at near
      exact near
    refine ⟨_, find?_settle found, ?_⟩
    rw [reportedBy, watch?_eq found]
    exact follows.notify near
  · have silent : reportedBy id i l h = [] := by
      cases h with
      | settles => exact absurd rfl settles
      | _ => rfl
    obtain ⟨c', found', moved⟩ := ((carried id kept).2 settles).connection c found
    rw [silent, List.append_nil]
    exact ⟨c', found', follows.proceed moved⟩

/-- Whatever happens, the reports are complete as long as the connection keeps up. -/
theorem follows_run (operates : app.Operates) {happenings : List Happening}
    (work : ∀ h ∈ happenings, h.Operates) (orderly : l.Orderly visits)
    (kept : ∀ h ∈ happenings, h.opened? ≠ some id) (found : l.find? id = some c)
    (follows : c.Follows i subject start l.store out)
    (keepsUp : l.KeepsUp app id i happenings) :
    ∃ c', (l.run app happenings).find? id = some c' ∧
      c'.Follows i subject start (l.run app happenings).store
        (out ++ l.reported app id i happenings) := by
  induction happenings generalizing l visits c out with
  | nil => exact ⟨c, found, (List.append_nil out).symm ▸ follows⟩
  | cons h rest ih =>
    obtain ⟨works, work⟩ := List.forall_mem_cons.mp work
    obtain ⟨keptHere, kept⟩ := List.forall_mem_cons.mp kept
    obtain ⟨near, keepsUp⟩ := keepsUp
    obtain ⟨c', found', follows'⟩ :=
      follows_happen operates works orderly keptHere found follows near
    obtain ⟨_, orderly', -⟩ := orderly_happen operates works orderly
    obtain ⟨c'', found'', follows''⟩ := ih work orderly' kept found' follows' keepsUp
    rw [List.append_assoc] at follows''
    exact ⟨c'', found'', follows''⟩

/-- A subscription that was not there before something happened was made by a call that came to
pass with it. -/
theorem made_by_happening (operates : app.Operates) {h : Happening} (works : h.Operates)
    (orderly : l.Orderly visits) (kept : h.opened? ≠ some id) (found : l.find? id = some c)
    (absent : l.watch? id i = none) {w : Watch} (made : (l.happen app h).watch? id i = some w) :
    Made (visits id) l.store (l.happen app h).store w := by
  obtain ⟨_, _, _, carried⟩ := orderly_happen operates works orderly
  rw [watch?_eq found] at absent
  by_cases settles : h = .settles
  · subst settles
    have moved : (notify l.store.changes c).watches[i]? = some w :=
      (watch?_eq (find?_settle found) i).symm.trans made
    rw [notify, List.getElem?_map, absent] at moved
    cases moved
  · obtain ⟨c', found', moved⟩ := ((carried id kept).2 settles).connection c found
    rw [watch?_eq found'] at made
    exact moved.made absent made

/-- Opened, a connection serves the visit of what it asked for, and whatever subscriptions it has
were made by calls of it. -/
theorem made_by_opening (operates : app.Operates) (orderly : l.Orderly visits)
    {namespaceText : String} {route : Channel.Route} {params : Dict String}
    (found : Channel.route? (Channel.tableOf app.model) namespaceText = some (route, params))
    (transport : Transport) (id : String) (query : Dict String) (queue : List Channel.Event) :
    let opened := l.happen app (.opens transport id namespaceText query queue)
    ∃ visits' c, opened.Orderly visits' ∧ visits' id = .ofRoute route params query ∧
      opened.find? id = some c ∧ ∀ i w, opened.watch? id i = some w →
        Made (.ofRoute route params query) l.store opened.store w := by
  intro opened
  obtain ⟨orderly', -, -, fresh, c, none, found', moved⟩ := opens_openWith orderly
    (operates.visit found query) (Channel.Session.asksFor_start found app.settings.authTimeoutMs
      l.now query) transport queue
  refine ⟨_, c, orderly', Function.update_self .., found', fun i w held => ?_⟩
  have absent : fresh.watches[i]? = .none := by rw [none, List.getElem?_nil]
  exact moved.made absent ((watch?_eq found' i).symm.trans held)

/-- A subscription that a connection has and did not have before, from its opening on, was made
just then by a call of its visit. -/
theorem made_along (operates : app.Operates) (orderly : l.Orderly visits)
    {namespaceText : String} {route : Channel.Route} {params : Dict String}
    (found : Channel.route? (Channel.tableOf app.model) namespaceText = some (route, params))
    (transport : Transport) {id : String} (query : Dict String) (queue : List Channel.Event)
    {after : List Happening} (work : ∀ h ∈ after, h.Operates)
    (kept : ∀ h ∈ after, h.opened? ≠ some id) {front rest : List Happening} {h : Happening}
    (split : .opens transport id namespaceText query queue :: after = front ++ h :: rest) :
    let earlier := l.run app front
    let later := earlier.happen app h
    (∃ visits', later.Orderly visits') ∧
      (∀ h ∈ rest, h.Operates ∧ h.opened? ≠ some id) ∧
      ∀ i w, (front ≠ [] → earlier.watch? id i = none) → later.watch? id i = some w →
        Made (.ofRoute route params query) earlier.store later.store w := by
  obtain ⟨opening, c, orderly', own, found', made⟩ :=
    made_by_opening operates orderly found transport id query queue
  cases front with
  | nil =>
    obtain ⟨rfl, rfl⟩ := List.cons.inj split
    exact ⟨⟨opening, orderly'⟩, fun h member => ⟨work h member, kept h member⟩,
      fun i w _ held => made i w held⟩
  | cons first front =>
    obtain ⟨rfl, rfl⟩ := List.cons.inj split
    obtain ⟨workFront, work⟩ := List.forall_mem_append.mp work
    obtain ⟨works, work⟩ := List.forall_mem_cons.mp work
    obtain ⟨keptFront, kept⟩ := List.forall_mem_append.mp kept
    obtain ⟨keptHere, kept⟩ := List.forall_mem_cons.mp kept
    obtain ⟨onTheWay, orderly'', -, stays⟩ := orderly_run operates workFront orderly'
    obtain ⟨same, stays⟩ := stays id keptFront
    obtain ⟨c', foundEarlier⟩ := stays c found'
    obtain ⟨now, orderlyNow, -⟩ := orderly_happen operates works orderly''
    refine ⟨⟨now, orderlyNow⟩, fun h member => ⟨work h member, kept h member⟩,
      fun i w absent held => ?_⟩
    have made := made_by_happening operates works orderly'' keptHere foundEarlier
      (absent (List.cons_ne_nil _ _)) held
    rw [same, own] at made
    exact made

/-- Changes having been reported, a subscription stands at the end of them. -/
theorem since_of_settle {w : Watch} (held : l.settle.watch? id i = some w) :
    w.since = l.store.changes.length := by
  obtain ⟨c, found, held⟩ := Option.bind_eq_some_iff.mp held
  obtain ⟨_, -, rfl⟩ := Option.map_eq_some_iff.mp
    ((find?_map (notify l.store.changes) (fun c => (c.deliver_frame _).1) id).symm.trans found)
  rw [notify, List.getElem?_map] at held
  obtain ⟨_, -, rfl⟩ := Option.map_eq_some_iff.mp held
  rfl

/-- From where it stands until changes are reported for the last time, a subscription that keeps
up reports all changes that it accepts. -/
theorem reported_eq_updates (operates : app.Operates) {happenings : List Happening}
    (work : ∀ h ∈ happenings, h.Operates) (orderly : l.Orderly visits)
    (kept : ∀ h ∈ happenings, h.opened? ≠ some id) {w : Watch} (held : l.watch? id i = some w)
    (within : w.since ≤ l.store.changes.length) (keepsUp : l.KeepsUp app id i happenings)
    {earlier : List Happening} (settles : happenings = earlier ++ [.settles])
    (found : (l.run app happenings).find? id = some c) (receiving : c.isReceiving = true) :
    ∃ w', c.watches[i]? = some w' ∧ w'.about = w.about ∧
      l.reported app id i happenings =
        updates w ((l.run app happenings).store.changes.drop w.since) := by
  obtain ⟨first, foundFirst, heldFirst⟩ := Option.bind_eq_some_iff.mp held
  have start : first.Follows i w.about w.since l.store [] :=
    fun _ => ⟨w, heldFirst, rfl, followed_since within⟩
  obtain ⟨c', found', follows⟩ :=
    follows_run operates work orderly kept foundFirst start keepsUp
  obtain rfl := Option.some.inj (found.symm.trans found')
  obtain ⟨w', held', same, -, -, told⟩ := follows receiving
  have ends : w'.since = (l.run app happenings).store.changes.length := by
    have standing := (watch?_eq found i).trans held'
    rw [settles, run_append] at standing ⊢
    exact since_of_settle (l := l.run app earlier) standing
  rw [ends, List.take_length, List.nil_append] at told
  exact ⟨w', held', same, told.trans (updates_congr same _)⟩

/-- A subscription that begins behind the last change of a store reports what operations on it
publish from then on. -/
theorem reported_since (operates : app.Operates) {happenings : List Happening}
    (onwards : ∀ h ∈ happenings, h.Operates ∧ h.opened? ≠ some id) (orderly : l.Orderly visits)
    {w : Watch} (held : l.watch? id i = some w) {s : Store} (begins : w.since = s.changes.length)
    (grown : s.Grows l.store) (keepsUp : l.KeepsUp app id i (happenings ++ [.settles]))
    (found : (l.run app (happenings ++ [.settles])).find? id = some c)
    (receiving : c.isReceiving = true) :
    (∃ w', c.watches[i]? = some w' ∧ w'.about = w.about) ∧
      ∃ further, (l.run app (happenings ++ [.settles])).store = s.after further ∧
        l.reported app id i (happenings ++ [.settles]) =
          updates w ((s.log further).filterMap Store.change?) := by
  have work := operates_concat_settles fun h member => (onwards h member).1
  have kept := opened?_concat_settles fun h member => (onwards h member).2
  have within : w.since ≤ l.store.changes.length := begins ▸ grown.changes_prefix.length_le
  obtain ⟨w', held', same, told⟩ := reported_eq_updates operates work orderly kept held within
    keepsUp rfl found receiving
  obtain ⟨_, -, grows, -⟩ := orderly_run operates work orderly
  obtain ⟨further, grew⟩ := grown.trans grows
  rw [grew, begins, Store.changes_after, List.drop_left] at told
  exact ⟨⟨w', held', same⟩, further, grew, told⟩

/-- Where somebody receives, a reporting brings what the subscriptions report, one subscription
after another. -/
theorem received_settle (found : l.find? id = some c) (attached : c.attached = true)
    (receiving : c.isReceiving = true) :
    ∃ c', l.settle.find? id = some c' ∧
      c'.received = c.received ++ c.watches.flatMap (reports l.store.changes) := by
  have going := Connection.close_not_mem_reports l.store.changes c.watches
  exact ⟨_, find?_settle found, Connection.received_deliver attached receiving going⟩

end Live

/-- Notes that anyone may observe. -/
def watchedNotes : Json :=
  .object [("collection", .string "notes"), ("auth", .object [("requiresAuth", .bool false)]),
    ("realTime", .object [("connect", .string "observe")])]

/-- A query for open notes, with a key that pages and one of the transport. -/
def openNotes : Dict String :=
  ((Dict.empty.insert "status" "open").insert "$limit" "1").insert "token" "x"

/-- A note with an identifier and a status. -/
def noteOf (id status : String) : Json :=
  .object [("id", .string id), ("status", .string status)]

/-- Two notes are written, one of them open and taken out again, with a failure in between and
something else in another collection. -/
def notesWritten : List Live.Happening :=
  [.create "notes" (noteOf "1" "done"), .create "notes" (noteOf "2" "open"),
    .create "notes" (noteOf "2" "open"), .create "tasks" (noteOf "3" "open"),
    Store.Operation.remove "notes" "2"].map fun op => .writes fun s => (op.perform s).2

/-- A connection asks for open notes. -/
def noteOpening : Live.Happening := .opens .direct "a" "/" openNotes []

/-- A system with one connection that watches the open notes. -/
def noteObserver (app : Application) : Live :=
  (Live.run app { store := .new Nat.repr } []).happen app noteOpening

end Serving

end EndpointTree
