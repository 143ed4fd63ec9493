import EndpointTree.Proofs.Channel.Calls
import EndpointTree.Serving.Live

/-!
# Where messages come from

Connections live side by side over one store, and anything may happen to them and to the
store in any order. Through all of it, what a connection receives stems from its own visit:
from the protocol, from the handlers of its route, or from a change that was published and
that one of these handlers had subscribed to.

* `Live.Happening` is what can happen, `Live.run` a run of happenings, and
  `Live.published` the changes that the store shows along a run.
* `Connection.Stems` is the invariant of a connection, `Live.stems_happen` its step and
  `Live.stems_run` the run.
* `Connection.mem_received_notify`: what a subscription accepts is reported.
-/

namespace EndpointTree.Serving

open Channel (Received Subscribed Visit Watch Outbound)

/-! ## One connection -/

/-- All that a connection holds stems from a visit. -/
structure Connection.Stems (v : Visit) (published : List Change) (c : Connection) : Prop where
  session : c.session.Visits v
  watches : ∀ w ∈ c.watches, Subscribed v w
  received : ∀ o ∈ c.received, Received v published o

theorem mem_of_mem_written {o : Outbound} {sent : List Outbound}
    (member : o ∈ Channel.written sent) : o ∈ sent := by
  induction sent with
  | nil => exact member
  | cons first rest ih =>
    cases first with
    | message m =>
      rcases List.mem_cons.mp member with rfl | member
      · exact List.mem_cons_self
      · exact List.mem_cons_of_mem _ (ih member)
    | close =>
      obtain rfl := List.mem_singleton.mp member
      exact List.mem_cons_self

/-- A writer that is not asked to close puts out everything. -/
theorem written_eq_self {sent : List Outbound} (going : .close ∉ sent) :
    Channel.written sent = sent := by
  induction sent with
  | nil => rfl
  | cons first rest ih =>
    obtain ⟨other, further⟩ := not_or.mp (mt List.mem_cons.mpr going)
    cases first with
    | message m => exact congrArg (.message m :: ·) (ih further)
    | close => exact absurd rfl other

namespace Connection

variable {v : Visit} {published : List Change} {c : Connection}

/-- Delivering leaves the name, the session and the watches of a connection. -/
theorem deliver_frame (c : Connection) (sent : List Outbound) :
    (c.deliver sent).id = c.id ∧ (c.deliver sent).session = c.session ∧
      (c.deliver sent).watches = c.watches := by
  rw [deliver]
  split
  · split <;> exact ⟨rfl, rfl, rfl⟩
  · split <;> exact ⟨rfl, rfl, rfl⟩

/-- What a connection has received it had before, or was sent. -/
theorem mem_received_deliver {o : Outbound} {sent : List Outbound}
    (member : o ∈ (c.deliver sent).received) : o ∈ c.received ∨ o ∈ sent := by
  rw [deliver] at member
  split at member
  · split at member
    · exact List.mem_append.mp member
    · exact .inl member
  · split at member
    · exact .inl member
    · dsimp only at member
      split at member
      · exact (List.mem_append.mp member).imp_right mem_of_mem_written
      · exact .inl member

/-- What is sent to somebody who receives it is received, if it is no request to close. -/
theorem received_deliver (attached : c.attached = true) (receiving : c.isReceiving = true)
    {sent : List Outbound} (going : .close ∉ sent) :
    (c.deliver sent).received = c.received ++ sent := by
  rw [Connection.isReceiving] at receiving
  rw [Connection.deliver]
  split
  · rw [if_pos attached]
  · next socket =>
    rw [socket] at receiving
    rw [if_neg (by simpa using receiving)]
    dsimp only
    rw [if_pos attached, written_eq_self going]

/-- What is delivered stems from where it was sent. -/
theorem Stems.deliver (stems : c.Stems v published) {sent : List Outbound}
    (sound : ∀ o ∈ sent, Received v published o) : (c.deliver sent).Stems v published := by
  obtain ⟨-, session, watches⟩ := c.deliver_frame sent
  refine ⟨session ▸ stems.session, watches ▸ stems.watches, fun o member => ?_⟩
  rcases mem_received_deliver member with member | member
  · exact stems.received o member
  · exact sound o member

/-- What is watched stems from subscriptions. -/
theorem Stems.keepWatches (stems : c.Stems v published) {watches : List Watch}
    (sound : ∀ w ∈ watches, Subscribed v w) : (c.keepWatches watches).Stems v published := by
  refine ⟨stems.session, fun w member => ?_, stems.received⟩
  rw [Connection.keepWatches] at member
  dsimp only at member
  split at member
  · exact sound w member
  · cases member

/-- What a session asks for stems from its visit. -/
theorem Stems.carryOn (stems : c.Stems v published)
    {step : Channel.Session × List Channel.Action} (asks : Channel.Session.AsksFor v step)
    (store : Store) : (c.carryOn step store).1.Stems v published := by
  obtain ⟨visits, made⟩ := asks
  have effects : (Channel.performAll store step.2).Stems v published :=
    Channel.Effects.stems_performAll store made
  have moved : Stems v published { c with session := step.1 } :=
    ⟨visits, stems.watches, stems.received⟩
  exact (moved.deliver effects.sent).keepWatches
    (List.forall_mem_append.mpr ⟨stems.watches, effects.watches⟩)

theorem Stems.answerClose (stems : c.Stems v published) (now : Nat) (store : Store) :
    (c.answerClose now store).1.Stems v published := by
  rw [Connection.answerClose]
  split
  · exact stems.carryOn (Channel.Session.asksFor_leave now stems.session) store
  · exact stems

/-- To follow a step of the session keeps to what stems from its visit. -/
theorem Stems.follow (stems : c.Stems v published)
    {step : Channel.Session × List Channel.Action} (asks : Channel.Session.AsksFor v step)
    (now : Nat) (store : Store) : (Connection.follow now step c store).1.Stems v published :=
  (stems.carryOn asks store).answerClose now _

theorem carryOn_id (c : Connection) (step : Channel.Session × List Channel.Action)
    (store : Store) : (c.carryOn step store).1.id = c.id :=
  (deliver_frame { c with session := step.1 } _).1

theorem follow_id (now : Nat) (step : Channel.Session × List Channel.Action) (c : Connection)
    (store : Store) : (Connection.follow now step c store).1.id = c.id := by
  have carried := carryOn_id c step store
  show (Connection.answerClose now (c.carryOn step store).1 _).1.id = c.id
  rw [answerClose]
  split
  · exact (carryOn_id _ _ _).trans carried
  · exact carried

/-- What is reported stems from subscriptions of the visit. -/
theorem Stems.notify (stems : c.Stems v published) {changes : List Change}
    (shown : changes ⊆ published) : (Live.notify changes c).Stems v published := by
  have reported : ∀ o ∈ c.watches.flatMap (Live.reports changes), Received v published o := by
    intro o member
    obtain ⟨w, held, reported⟩ := List.mem_flatMap.mp member
    obtain ⟨change, among, rfl⟩ := List.mem_map.mp reported
    obtain ⟨among, accepts⟩ := List.mem_filter.mp among
    obtain ⟨call, since, made⟩ := stems.watches w held
    have standing : change ∈ changes := List.mem_of_mem_drop (List.mem_of_mem_drop among)
    exact .inr ⟨call, .reported made (shown standing) accepts⟩
  have delivered := stems.deliver reported
  refine ⟨delivered.session, fun w member => ?_, delivered.received⟩
  obtain ⟨w, held, rfl⟩ := List.mem_map.mp member
  exact stems.watches w held

/-- What subscriptions report is no request to close. -/
theorem close_not_mem_reports (changes : List Change) (watches : List Watch) :
    .close ∉ watches.flatMap (Live.reports changes) := by
  intro member
  obtain ⟨w, -, reported⟩ := List.mem_flatMap.mp member
  obtain ⟨change, -, same⟩ := List.mem_map.mp reported
  cases same

/-- A subscription that is not too far behind passes nothing over. -/
theorem reports_of_near {changes : List Change} {w : Watch}
    (near : changes.length - w.since ≤ Live.backlog) :
    Live.reports changes w =
      ((changes.drop w.since).filter w.accepts).map fun change =>
        .message (Channel.update change) := by
  have all : (changes.drop w.since).length - Live.backlog = 0 := by
    rw [List.length_drop]
    omega
  rw [Live.reports, all, List.drop_zero]

/-- A subscription that is not too far behind reports every change that it accepts. -/
theorem mem_received_notify (attached : c.attached = true) (receiving : c.isReceiving = true)
    {w : Watch} (held : w ∈ c.watches) {changes : List Change}
    (recent : changes.length ≤ w.since + Live.backlog) {change : Change}
    (pending : change ∈ changes.drop w.since) (accepts : w.accepts change = true) :
    .message (Channel.update change) ∈ (Live.notify changes c).received := by
  have reported : .message (Channel.update change) ∈ Live.reports changes w := by
    rw [reports_of_near (Nat.sub_le_iff_le_add'.mpr recent)]
    exact List.mem_map.mpr ⟨change, List.mem_filter.mpr ⟨pending, accepts⟩, rfl⟩
  show _ ∈ (c.deliver _).received
  rw [received_deliver attached receiving (close_not_mem_reports changes c.watches)]
  exact List.mem_append_right _ (List.mem_flatMap.mpr ⟨w, held, reported⟩)

end Connection

/-! ## All connections -/

namespace Live

/-- What can happen to connections and to their store. -/
inductive Happening where
  | opens (transport : Transport) (id namespaceText : String) (query : Dict String)
    (queue : List Channel.Event)
  | arrives (id : String) (e : Channel.Event)
  | departs (id : String)
  | detaches (id : String)
  | passes (ms : Nat)
  /-- A request, or code from outside, writes to the store. -/
  | writes (write : Store → Store)
  | settles
  | collects

/-- The connection that a happening opens. -/
def Happening.opened? : Happening → Option String
  | .opens _ id _ _ _ => some id
  | _ => none

/-- What one happening makes of a live system. -/
def happen (app : Application) (l : Live) : Happening → Live
  | .opens transport id namespaceText query queue =>
    l.openWith app (Channel.tableOf app.model) transport id namespaceText query queue
  | .arrives id e => l.arrive app.verifier id e
  | .departs id => l.depart id
  | .detaches id => l.detach id
  | .passes ms => l.advance ms
  | .writes write => { l with store := write l.store }
  | .settles => l.settle
  | .collects => l.collect

/-- One happening after another. -/
def run (app : Application) (l : Live) (happenings : List Happening) : Live :=
  happenings.foldl (happen app) l

/-- The changes that the store shows along a run. -/
def published (app : Application) : Live → List Happening → List Change
  | _, [] => []
  | l, h :: rest => l.store.changes ++ published app (l.happen app h) rest

/-- The connection of an id, if there is one, is such. -/
def Holds (id : String) (P : Connection → Prop) (l : Live) : Prop :=
  ∀ c ∈ l.connections, c.id = id → P c

section Steps

variable {id : String} {P : Connection → Prop} {l : Live}

/-- A change of one connection matters to its own id only. -/
theorem holds_update {other : String} {change : Connection → Store → Connection × Store}
    (holds : l.Holds id P) (kept : other = id → ∀ c store, P c → P (change c store).1)
    (same : ∀ c store, (change c store).1.id = c.id) : (l.update other change).Holds id P := by
  rw [update]
  split
  · exact holds
  · next c found =>
    have member : c ∈ l.connections := List.mem_of_find?_eq_some found
    rw [find?] at found
    have own : c.id = other := by simpa using List.find?_some found
    intro d memberD named
    obtain ⟨d', memberD', rfl⟩ := List.mem_map.mp memberD
    split at named
    · next here =>
      rw [if_pos here]
      rw [same] at named
      exact kept (own.symm.trans named) c _ (holds c member named)
    · next here =>
      rw [if_neg here]
      exact holds d' memberD' named

/-- A connection that is found is changed. -/
theorem holds_update_self {change : Connection → Store → Connection × Store} {c : Connection}
    (found : l.find? id = some c) (made : P (change c l.store).1) :
    (l.update id change).Holds id P := by
  rw [update, found]
  intro d member named
  obtain ⟨d', -, rfl⟩ := List.mem_map.mp member
  split at named
  · next here =>
    rw [if_pos here]
    exact made
  · next elsewhere => exact absurd named elsewhere

/-- What a change keeps for each connection, it keeps for one of them. -/
theorem holds_map (holds : l.Holds id P) {change : Connection → Connection}
    (kept : ∀ c ∈ l.connections, P c → P (change c)) (same : ∀ c, (change c).id = c.id) :
    Holds id P { l with connections := l.connections.map change } := by
  intro c member named
  obtain ⟨d, memberD, rfl⟩ := List.mem_map.mp member
  exact kept d memberD (holds d memberD ((same d).symm.trans named))

/-- What a connection keeps as its session looks at the clock, it keeps as time passes. -/
theorem holds_advance (holds : l.Holds id P)
    (kept : ∀ now c store, P c → P (c.follow now (c.session.expire now) store).1) (ms : Nat) :
    (l.advance ms).Holds id P := by
  rw [advance]
  have later : Holds id P { l with now := l.now + ms } := holds
  generalize { l with now := l.now + ms } = l' at later ⊢
  generalize l.connections.map (·.id) = ids
  induction ids generalizing l' with
  | nil => exact later
  | cons other rest ih =>
    refine ih _ (holds_update later (fun _ c store => kept _ c store) fun c store => ?_)
    exact Connection.follow_id ..

/-- A connection that is opened leaves those under other ids alone. -/
theorem holds_openWith {app : Application} {other : String} (holds : l.Holds id P)
    (elsewhere : other ≠ id) (table : Channel.Table) (transport : Transport)
    (namespaceText : String) (query : Dict String) (queue : List Channel.Event) :
    (l.openWith app table transport other namespaceText query queue).Holds id P := by
  have absent {p : Prop} (same : other = id) : p := absurd same elsewhere
  rw [openWith]
  generalize Channel.Session.start table app.settings.authTimeoutMs l.now namespaceText query = step
  dsimp only
  have added : Holds id P (l.add { id := other, transport, session := step.1 }) := by
    intro c member named
    rcases List.mem_append.mp member with member | member
    · exact holds c (List.mem_filter.mp member).1 named
    · rw [List.mem_singleton.mp member] at named
      exact absent named
  have started : Holds id P ((l.add { id := other, transport, session := step.1 }).update other
      fun c store => c.follow l.now step store) :=
    holds_update added absent fun c store => Connection.follow_id ..
  have timed : Holds id P (Live.update _ other fun c store =>
      c.follow l.now (c.session.expire l.now) store) :=
    holds_update started absent fun c store => Connection.follow_id ..
  generalize Live.update _ other (fun c store => c.follow l.now (c.session.expire l.now) store) =
    l' at timed ⊢
  induction queue generalizing l' with
  | nil => exact timed
  | cons e rest ih =>
    refine ih _ (holds_update timed absent fun c store => ?_)
    exact Connection.follow_id ..

end Steps

section Runs

variable {app : Application} {id : String} {v : Visit} {known : List Change} {l : Live}

/-- An event that arrives keeps to what stems from the visit. -/
theorem stems_arrive (stems : l.Holds id (Connection.Stems v known)) (verifier : Verifier)
    (other : String) (e : Channel.Event) :
    (l.arrive verifier other e).Holds id (Connection.Stems v known) := by
  refine holds_update stems (fun _ c store stems => ?_) fun c store => Connection.follow_id ..
  exact stems.follow (Channel.Session.asksFor_receive verifier l.now e stems.session) l.now store

theorem stems_depart (stems : l.Holds id (Connection.Stems v known)) (other : String) :
    (l.depart other).Holds id (Connection.Stems v known) := by
  refine holds_update stems (fun _ c store stems => ?_) fun c store => ?_
  · have leaves := Channel.Session.asksFor_leave l.now stems.session
    dsimp only
    split
    · have closed : Connection.Stems v known { c with writing := false, watches := [] } :=
        ⟨stems.session, nofun, stems.received⟩
      exact closed.carryOn leaves store
    · exact stems.carryOn leaves store
  · dsimp only
    split <;> exact Connection.carryOn_id _ _ store

theorem stems_detach (stems : l.Holds id (Connection.Stems v known)) (other : String) :
    (l.detach other).Holds id (Connection.Stems v known) := by
  refine holds_update stems (fun _ c store stems => ?_) fun c store => rfl
  have detached : Connection.Stems v known { c with attached := false } :=
    ⟨stems.session, stems.watches, stems.received⟩
  exact detached.keepWatches stems.watches

theorem stems_expire (stems : l.Holds id (Connection.Stems v known)) (other : String)
    (now : Nat) :
    Holds id (Connection.Stems v known)
      (l.update other fun c store => c.follow now (c.session.expire now) store) := by
  refine holds_update stems (fun _ c store stems => ?_) fun c store => Connection.follow_id ..
  exact stems.follow (Channel.Session.asksFor_expire now stems.session) now store

theorem stems_advance (stems : l.Holds id (Connection.Stems v known)) (ms : Nat) :
    (l.advance ms).Holds id (Connection.Stems v known) :=
  holds_advance stems (fun now _ store stems =>
    stems.follow (Channel.Session.asksFor_expire now stems.session) now store) ms

/-- Reports of changes that are known stem from them. -/
theorem stems_settle (stems : l.Holds id (Connection.Stems v known))
    (shown : l.store.changes ⊆ known) : l.settle.Holds id (Connection.Stems v known) :=
  holds_map stems (fun _ _ stems => stems.notify shown) fun c => (c.deliver_frame _).1

theorem stems_collect (stems : l.Holds id (Connection.Stems v known)) :
    l.collect.Holds id (Connection.Stems v known) :=
  holds_map stems (fun _ _ stems => ⟨stems.session, stems.watches, nofun⟩) fun _ => rfl

/-- A connection that is opened stems from its own visit, and leaves those under other ids
alone. -/
theorem stems_openWith {table : Channel.Table} {namespaceText other : String}
    {query : Dict String}
    (opened : other = id → Channel.Session.AsksFor v (Channel.Session.start table
      app.settings.authTimeoutMs l.now namespaceText query))
    (stems : other ≠ id → l.Holds id (Connection.Stems v known)) (transport : Transport)
    (queue : List Channel.Event) :
    (l.openWith app table transport other namespaceText query queue).Holds id
      (Connection.Stems v known) := by
  rw [openWith]
  generalize Channel.Session.start table app.settings.authTimeoutMs l.now namespaceText query =
    step at opened ⊢
  dsimp only
  have added : Holds id (Connection.Stems v known)
      (l.add { id := other, transport, session := step.1 }) := by
    intro c member named
    rcases List.mem_append.mp member with member | member
    · obtain ⟨member, kept⟩ := List.mem_filter.mp member
      have elsewhere : other ≠ id := fun same => of_decide_eq_true kept (named.trans same.symm)
      exact stems elsewhere c member named
    · rw [List.mem_singleton.mp member] at named ⊢
      exact ⟨(opened named).1, nofun, nofun⟩
  have started : Holds id (Connection.Stems v known)
      ((l.add { id := other, transport, session := step.1 }).update other fun c store =>
        c.follow l.now step store) := by
    refine holds_update added (fun same c store stems => ?_) fun c store =>
      Connection.follow_id ..
    exact stems.follow (opened same) l.now store
  have timed := stems_expire started other l.now
  generalize Live.update _ other (fun c store => c.follow l.now (c.session.expire l.now) store) =
    l' at timed ⊢
  induction queue generalizing l' with
  | nil => exact timed
  | cons e rest ih => exact ih _ (stems_arrive timed app.verifier other e)

/-- Whatever happens, a connection goes on stemming from its visit, unless another one is
opened in its place. -/
theorem stems_happen (stems : l.Holds id (Connection.Stems v known)) {h : Happening}
    (kept : h.opened? ≠ some id) (shown : l.store.changes ⊆ known) :
    (l.happen app h).Holds id (Connection.Stems v known) := by
  cases h with
  | opens transport other namespaceText query queue =>
    have elsewhere : other ≠ id := fun same => kept (congrArg some same)
    exact stems_openWith (fun same => absurd same elsewhere) (fun _ => stems) transport queue
  | arrives other e => exact stems_arrive stems app.verifier other e
  | departs other => exact stems_depart stems other
  | detaches other => exact stems_detach stems other
  | passes ms => exact stems_advance stems ms
  | writes write => exact stems
  | settles => exact stems_settle stems shown
  | collects => exact stems_collect stems

/-- Whatever happens, a connection receives only what stems from its visit. -/
theorem stems_run (stems : l.Holds id (Connection.Stems v known)) {happenings : List Happening}
    (kept : ∀ h ∈ happenings, h.opened? ≠ some id)
    (shown : l.published app happenings ⊆ known) :
    (l.run app happenings).Holds id (Connection.Stems v known) := by
  induction happenings generalizing l with
  | nil => exact stems
  | cons h rest ih =>
    obtain ⟨here, kept⟩ := List.forall_mem_cons.mp kept
    obtain ⟨shownHere, shown⟩ := List.append_subset.mp shown
    exact ih (stems_happen stems here shownHere) kept shown

end Runs

end Live

end EndpointTree.Serving
