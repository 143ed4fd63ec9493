import EndpointTree.Proofs.Channel.Sockets
import EndpointTree.Proofs.Serving.Provenance

/-!
# Live sockets

A live connection takes whatever happens to its end at once: its reader, its session and its
writer take their turns until there is nothing left to do. That is one of the schedules of a
socket, so all that holds of every schedule holds of a live connection: what its client
receives is what the writer of a socket puts out.

* `Connection.Shows` relates a connection to a socket at rest.
* `Connection.Shows.follow`, `Connection.Shows.depart` and `Connection.Shows.notify` find the
  schedule behind what happens to one connection.
* `Live.shows_run` is the run.
* `Channel.Socket.frames_pass_in_order` puts together what holds of a socket and its frames.
-/

namespace EndpointTree.Channel.Socket

variable {verifier : Verifier} {w w' w'' : Socket}

/-! ## Turns taken to their end -/

/-- Some schedule leads from one state of a socket to another. -/
def Leads (verifier : Verifier) (w w' : Socket) : Prop :=
  ∃ schedule, w.run verifier schedule = w'

theorem Leads.refl (w : Socket) : Leads verifier w w := ⟨[], rfl⟩

theorem Leads.trans (first : Leads verifier w w') (then_ : Leads verifier w' w'') :
    Leads verifier w w'' := by
  obtain ⟨schedule, rfl⟩ := first
  obtain ⟨further, rfl⟩ := then_
  exact ⟨schedule ++ further, run_append ..⟩

theorem leads_move (now : Nat) (m : Move) (w : Socket) :
    Leads verifier w (w.move verifier now m) := ⟨[(now, m)], rfl⟩

/-- The session sends all that it has to send. -/
theorem leads_sends (verifier : Verifier) (w : Socket) :
    Leads verifier w
      { w with
        pending := []
        said := w.said ++ w.pending
        sent := w.sent ++ w.pending
        outbox := if w.writing then w.outbox ++ w.pending else w.outbox } :=
  ⟨_, run_sends_eq verifier 0 w⟩

/-- Others send one thing after another. -/
theorem leads_others (verifier : Verifier) (sent : List Outbound) (w : Socket) :
    Leads verifier w
      { w with
        sent := w.sent ++ sent
        outbox := if w.writing then w.outbox ++ sent else w.outbox } := by
  induction sent generalizing w with
  | nil =>
    refine ⟨[], ?_⟩
    simp only [run, List.foldl_nil, List.append_nil, ite_self]
  | cons o rest ih =>
    refine (leads_move 0 (.others o) w).trans ?_
    have further := ih (w.leave o)
    show Leads verifier (w.leave o) _
    cases writing : w.writing <;>
      simpa only [leave, writing, List.append_assoc, List.singleton_append, if_true,
        Bool.false_eq_true, if_false] using further

/-- The writer writes all that there is to write. -/
theorem leads_writes (w : Socket) :
    Leads verifier w
      { w with
        outbox := []
        writing := w.writing && !w.outbox.contains .close
        frames := w.frames ++ due w.outbox } := by
  generalize queue : w.outbox = left
  induction left generalizing w with
  | nil =>
    refine ⟨[], ?_⟩
    obtain ⟨⟩ := w
    obtain rfl := queue
    simp [run, due]
  | cons o rest ih =>
    refine (leads_move 0 .writes w).trans ?_
    show Leads verifier w.write _
    rw [write, queue]
    cases o with
    | close =>
      -- the writer stops, whatever else was to be written
      have stops : (!(Outbound.close :: rest).contains .close) = false := by simp
      rw [due_close, stops, Bool.and_false]
      exact Leads.refl _
    | message m =>
      have further := ih
        { w with outbox := rest, frames := w.frames ++ [(Outbound.message m).frame] } rfl
      have going : .close ∉ [Outbound.message m] := by simp
      have first : due (.message m :: rest) = [(Outbound.message m).frame] ++ due rest :=
        due_append going rest
      have closing : (Outbound.message m :: rest).contains .close = rest.contains .close := by simp
      rw [first, closing, ← List.append_assoc]
      exact further

end EndpointTree.Channel.Socket

namespace EndpointTree.Serving

open Channel (Session Action Socket Outbound Event performAll due due_eq_written)
open Channel.Socket (Leads)

namespace Connection

variable {verifier : Verifier} {c : Connection} {w : Socket} {store : Store} {now : Nat}

/-! ## One connection -/

/-- A connection tracks a socket on which all is sent and written. -/
structure Tracks (c : Connection) (w : Socket) : Prop where
  transport : c.transport = .socket
  attached : c.attached = true
  session : w.session = c.session
  pending : w.pending = []
  outbox : w.outbox = []
  writing : w.writing = c.writing
  /-- What was received last is what was put out last. -/
  frames : ∃ before, w.frames = before ++ c.received.map Outbound.frame

/-- A connection shows a socket at rest: as long as the session listens its writer writes, its
reader reads, and no event waits. -/
structure Shows (c : Connection) (w : Socket) : Prop extends c.Tracks w where
  isWriting : c.writing = c.session.end?.isNone
  isReading : c.session.end? = none → w.reading = true ∧ w.inbox = []

theorem deliver_of_writing (socket : c.transport = .socket) (attached : c.attached = true)
    (writing : c.writing = true) (sent : List Outbound) :
    c.deliver sent = { c with
      received := c.received ++ Channel.written sent
      writing := !(Channel.written sent).contains .close } := by
  unfold deliver
  rw [socket]
  simp only [writing, attached, Bool.not_true, Bool.false_eq_true, if_false, if_true]

theorem deliver_of_not_writing (socket : c.transport = .socket) (silent : c.writing = false)
    (sent : List Outbound) : c.deliver sent = c := by
  unfold deliver
  rw [socket]
  simp only [silent, Bool.not_false, if_true]

theorem contains_close_written (sent : List Outbound) :
    (Channel.written sent).contains .close = sent.contains .close := by
  induction sent with
  | nil => rfl
  | cons first rest ih =>
    cases first with
    | message m => simpa only [Channel.written, List.contains_cons] using congrArg _ ih
    | close => simp [Channel.written]

/-- What a connection is handed its writer writes. -/
theorem Tracks.deliver (t : c.Tracks w) (sent queue : List Outbound)
    (same : c.writing = true →
      due queue = due sent ∧ queue.contains .close = sent.contains .close) :
    (c.deliver sent).Tracks { w with
      writing := w.writing && !(if w.writing then queue else []).contains .close
      frames := w.frames ++ due (if w.writing then queue else []) } := by
  obtain ⟨before, frames⟩ := t.frames
  cases writing : c.writing with
  | true =>
    obtain ⟨dues, closes⟩ := same writing
    rw [deliver_of_writing t.transport t.attached writing]
    refine ⟨t.transport, t.attached, t.session, t.pending, t.outbox, ?_, before, ?_⟩
    · show (w.writing && _) = _
      rw [t.writing, writing, if_pos rfl, Bool.true_and, closes, contains_close_written]
    · show w.frames ++ _ = before ++ (c.received ++ Channel.written sent).map Outbound.frame
      rw [t.writing, writing, if_pos rfl, dues, due_eq_written, frames, List.map_append,
        List.append_assoc]
  | false =>
    rw [deliver_of_not_writing t.transport writing]
    have silent : w.writing = false := t.writing.trans writing
    refine ⟨t.transport, t.attached, t.session, t.pending, t.outbox, ?_, before, ?_⟩
    · show (w.writing && _) = c.writing
      rw [silent, writing, Bool.false_and]
    · show w.frames ++ _ = _
      rw [silent, if_neg Bool.false_ne_true]
      exact (List.append_nil _).trans frames

theorem Tracks.keepWatches (t : c.Tracks w) (watches : List Channel.Watch) :
    (c.keepWatches watches).Tracks w :=
  ⟨t.transport, t.attached, t.session, t.pending, t.outbox, t.writing, t.frames⟩

theorem carryOn_session (c : Connection) (step : Session × List Action) (store : Store) :
    (c.carryOn step store).1.session = step.1 :=
  (deliver_frame { c with session := step.1 } _).2.1

/-- A connection that carries on with a step does what a socket does that performs it. -/
theorem Tracks.carryOn (t : c.Tracks w) (verifier : Verifier) (step : Session × List Action)
    (closes : step.1.end?.isSome = true → c.writing = true →
      .close ∈ (performAll w.store step.2).sent) :
    ∃ w', Leads verifier (w.perform step) w' ∧ (c.carryOn step w.store).1.Tracks w' ∧
      w'.reading = w.reading ∧ w'.inbox = w.inbox ∧
      (step.1.end?.isSome = true → (c.carryOn step w.store).1.writing = false) := by
  let queue := (w.perform step).pending
  have sent := Channel.Socket.leads_sends verifier (w.perform step)
  have outbox : (if (w.perform step).writing then (w.perform step).outbox ++ queue
      else (w.perform step).outbox) = if w.writing then queue else [] := by
    have empty : (w.perform step).outbox = [] := t.outbox
    rw [empty]
    rfl
  rw [outbox] at sent
  refine ⟨_, sent.trans (Channel.Socket.leads_writes _), ?tracks, rfl, rfl, fun ends => ?ended⟩
  case tracks =>
    have moved : Tracks { c with session := step.1 }
        { w.perform step with
          pending := []
          said := (w.perform step).said ++ queue
          sent := (w.perform step).sent ++ queue
          outbox := [] } :=
      ⟨t.transport, t.attached, rfl, rfl, rfl, t.writing, t.frames⟩
    refine (moved.deliver _ queue fun writing => ?_).keepWatches _
    -- the request to close that follows an end comes after another one
    show due ((performAll w.store step.2).sent ++ _) = _ ∧
      ((performAll w.store step.2).sent ++ _).contains Outbound.close = _
    split
    · next ends =>
      have closed := closes ends writing
      refine ⟨Channel.due_append_of_closed closed _, ?_⟩
      simp [closed]
    · rw [List.append_nil]
      exact ⟨rfl, rfl⟩
  case ended =>
    let next : Connection := { c with session := step.1 }
    show (next.deliver (performAll w.store step.2).sent).writing = false
    rcases Bool.eq_false_or_eq_true c.writing with writing | silent
    · have closed := closes ends writing
      have stops := deliver_of_writing (c := next) t.transport t.attached writing
      rw [stops, contains_close_written]
      simp [closed]
    · rw [deliver_of_not_writing (c := next) t.transport silent]
      exact silent

theorem Shows.keepWatches (s : c.Shows w) (watches : List Channel.Watch) :
    (c.keepWatches watches).Shows w :=
  ⟨s.toTracks.keepWatches watches, s.isWriting, s.isReading⟩

/-- Nothing comes of a session that has ended. -/
theorem Shows.carryOn_ended (s : c.Shows w) (ended : c.session.end?.isSome = true)
    (store : Store) : (c.carryOn (c.session, []) store).1.Shows w := by
  have silent : c.writing = false := by
    rw [s.isWriting]
    simpa using ended
  have same : Connection.deliver { c with session := c.session } [] = c :=
    deliver_of_not_writing s.transport silent []
  show (Connection.keepWatches (Connection.deliver { c with session := c.session } []) _).Shows w
  rw [same]
  exact s.keepWatches _

/-- The reader of a socket that listens is given something. -/
theorem leads_read (verifier : Verifier) (session : w.session = c.session)
    (listening : c.session.end? = none) (reading : w.reading = true) (item : Channel.Incoming)
    (store : Store) :
    Leads verifier w
      { w with store, inbox := w.inbox ++ item.event?.toList, reading := item.isFrame } := by
  have finished : Socket.isOver { w with store } = false := by
    show (w.session.end?.isSome && _) = false
    rw [session, listening]
    rfl
  have read : Socket.read { w with store } item =
      { w with store, inbox := w.inbox ++ item.event?.toList, reading := item.isFrame } := by
    rw [Socket.read, if_pos (Bool.and_eq_true_iff.mpr ⟨reading, by rw [finished]; rfl⟩)]
  exact (Channel.Socket.leads_move 0 (.stores store) w).trans
    (read ▸ Channel.Socket.leads_move 0 (.reads item) _)

/-- The session of a socket takes what it finds. -/
theorem leads_perform (verifier : Verifier) (session : w.session = c.session)
    (listening : c.session.end? = none) (settled : w.pending = []) (now : Nat) :
    Leads verifier w (Socket.perform
      { w with inbox := w.inbox.tail, taken := w.taken ++ [(now, w.input)] }
      (c.session.step verifier now w.input)) := by
  rw [← session] at listening ⊢
  have steps : w.step verifier now = Socket.perform
      { w with inbox := w.inbox.tail, taken := w.taken ++ [(now, w.input)] }
      (w.session.step verifier now w.input) := by
    rw [Socket.step, if_pos (by simp [listening, settled])]
  exact steps ▸ Channel.Socket.leads_move now .steps w

/-- The client leaves a socket that listens, and its session takes notice. -/
theorem leads_leave (verifier : Verifier) (session : w.session = c.session)
    (listening : c.session.end? = none) (settled : w.pending = []) (reading : w.reading = true)
    (empty : w.inbox = []) (now : Nat) (store : Store) :
    Leads verifier w (Socket.perform
      { w with store, inbox := [], reading := false, taken := w.taken ++ [(now, .leave)] }
      (c.session.leave now)) := by
  have closes := leads_read verifier session listening reading .close store
  have nothing : w.inbox ++ (Channel.Incoming.close).event?.toList = [] := by rw [empty]; rfl
  rw [nothing] at closes
  exact closes.trans (leads_perform verifier (w := { w with store, inbox := [], reading := false })
    session listening settled now)

/-- A client that is asked to close leaves, and then the socket is at rest. -/
theorem Tracks.answerClose (t : c.Tracks w) (verifier : Verifier)
    (ends : c.session.end?.isSome = true → c.writing = false)
    (free : c.session.end? = none → w.reading = true ∧ w.inbox = []) (now : Nat)
    (store : Store) :
    ∃ w', Leads verifier w w' ∧ (c.answerClose now store).1.Shows w' := by
  unfold Connection.answerClose
  rcases Bool.eq_false_or_eq_true c.writing with writing | silent
  · have listening : c.session.end?.isNone = true := by
      cases listening : c.session.end? with
      | none => rfl
      | some how =>
        have silent := ends (by rw [listening]; rfl)
        rw [writing] at silent
        cases silent
    rw [if_neg (by simp [writing])]
    exact ⟨w, .refl w, t, writing.trans listening.symm, free⟩
  · rw [if_pos (by simp [t.transport, t.attached, silent])]
    cases listening : c.session.end? with
    | some how =>
      have ended : c.session.end?.isSome = true := by rw [listening]; rfl
      have shows : c.Shows w := by
        refine ⟨t, by rw [silent, listening]; rfl, fun none => ?_⟩
        rw [listening] at none
        cases none
      have step : c.session.leave now = (c.session, []) :=
        Session.step_of_ended verifier ended now .leave
      rw [step]
      exact ⟨w, .refl w, shows.carryOn_ended ended store⟩
    | none =>
      obtain ⟨reading, empty⟩ := free listening
      have leaves := leads_leave verifier t.session listening t.pending reading
        empty now store
      have tracks : c.Tracks { w with
          store, inbox := [], reading := false, taken := w.taken ++ [(now, .leave)] } :=
        ⟨t.transport, t.attached, t.session, t.pending, t.outbox, t.writing, t.frames⟩
      obtain ⟨w', leads, carried, -, -, silenced⟩ := tracks.carryOn verifier
        (c.session.leave now) fun _ writing => Bool.noConfusion (silent.symm.trans writing)
      have ended : (c.session.leave now).1.end?.isSome = true :=
        Session.end?_leave now c.session
      refine ⟨w', leaves.trans leads, carried, ?_, fun none => ?_⟩
      · rw [silenced ended, carryOn_session, ← Option.not_isSome, ended]
        rfl
      · rw [carryOn_session] at none
        rw [none] at ended
        cases ended

/-- A connection takes an event or looks at the clock, and comes to rest again. -/
theorem Shows.follow (s : c.Shows w) (verifier : Verifier) {input : Session.Input}
    (stays : input ≠ .leave)
    (finds : c.session.end? = none → ∃ w', Leads verifier w w' ∧ c.Tracks w' ∧
      w'.store = store ∧ w'.reading = true ∧ w'.inbox.tail = [] ∧ w'.input = input)
    (now : Nat) :
    ∃ w', Leads verifier w w' ∧
      (c.follow now (c.session.step verifier now input) store).1.Shows w' := by
  cases listening : c.session.end? with
  | some how =>
    have ended : c.session.end?.isSome = true := by rw [listening]; rfl
    have carried := s.carryOn_ended ended store
    rw [Session.step_of_ended verifier ended]
    refine carried.toTracks.answerClose verifier (fun still => ?_) carried.isReading now _
    rw [carried.isWriting, ← Option.not_isSome, still]
    rfl
  | none =>
    obtain ⟨w₀, leads, t, rfl, reading, last, rfl⟩ := finds listening
    have takes := leads_perform verifier t.session listening t.pending now
    have tracks : c.Tracks { w₀ with
        inbox := w₀.inbox.tail, taken := w₀.taken ++ [(now, w₀.input)] } :=
      ⟨t.transport, t.attached, t.session, t.pending, t.outbox, t.writing, t.frames⟩
    obtain ⟨w₁, performs, carried, reads, empty, silenced⟩ := tracks.carryOn verifier
      (c.session.step verifier now w₀.input) fun ends _ =>
        Channel.mem_sent_of_asked (Session.closes_of_step_ends listening stays ends) w₀.store
    obtain ⟨w₂, rests, shows⟩ := carried.answerClose verifier
      (fun ended => silenced (by rwa [carryOn_session] at ended))
      (fun _ => ⟨reads.trans reading, empty.trans last⟩) now
      (c.carryOn (c.session.step verifier now w₀.input) w₀.store).2
    exact ⟨w₂, ((leads.trans takes).trans performs).trans rests, shows⟩

/-- An event arrives in a frame. -/
theorem Shows.receive (s : c.Shows w) {f : Channel.Frame} {e : Event} (holds : f.event? = some e)
    (now : Nat) (store : Store) :
    ∃ w', Leads verifier w w' ∧
      (c.follow now (c.session.receive verifier now e) store).1.Shows w' := by
  have stays : Session.Input.event e ≠ .leave := nofun
  refine s.follow verifier stays (fun listening => ?_) now
  obtain ⟨reading, empty⟩ := s.isReading listening
  have item : (Channel.Incoming.frame f).event? = some e := holds
  have reads := leads_read verifier s.session listening reading (.frame f) store
  refine ⟨_, reads, ⟨s.transport, s.attached, s.session, s.pending, s.outbox, s.writing, s.frames⟩,
    rfl, rfl, ?_, ?_⟩
  · rw [empty, item]
    rfl
  · simp [Socket.input, empty, item]

/-- Time passes. -/
theorem Shows.expire (s : c.Shows w) (now : Nat) (store : Store) :
    ∃ w', Leads verifier w w' ∧ (c.follow now (c.session.expire now) store).1.Shows w' := by
  have stays : Session.Input.pause ≠ .leave := nofun
  refine s.follow verifier stays (fun listening => ?_) now
  obtain ⟨reading, empty⟩ := s.isReading listening
  refine ⟨_, Channel.Socket.leads_move 0 (.stores store) w,
    ⟨s.transport, s.attached, s.session, s.pending, s.outbox, s.writing, s.frames⟩,
    rfl, reading, ?_, ?_⟩
  · show w.inbox.tail = []
    rw [empty]
    rfl
  · show Socket.input { w with store } = .pause
    simp [Socket.input, empty, reading]

/-- The client leaves, and nothing that is sent to it from then on is taken by the socket. -/
theorem Shows.depart (s : c.Shows w) (now : Nat) (store : Store) :
    ∃ w', Leads verifier w w' ∧
      (Connection.carryOn { c with writing := false, watches := [] } (c.session.leave now)
        store).1.Shows w' := by
  let gone : Connection := { c with writing := false, watches := [] }
  show ∃ w', Leads verifier w w' ∧ (gone.carryOn (c.session.leave now) store).1.Shows w'
  cases listening : c.session.end? with
  | some how =>
    have ended : c.session.end?.isSome = true := by rw [listening]; rfl
    have silent : c.writing = false := by rw [s.isWriting, listening]; rfl
    have shows : gone.Shows w :=
      ⟨⟨s.transport, s.attached, s.session, s.pending, s.outbox, s.writing.trans silent, s.frames⟩,
        silent.symm.trans s.isWriting, s.isReading⟩
    have step : c.session.leave now = (gone.session, []) :=
      Session.step_of_ended verifier ended now .leave
    rw [step]
    exact ⟨w, .refl w, shows.carryOn_ended ended store⟩
  | none =>
    obtain ⟨reading, empty⟩ := s.isReading listening
    let left : Socket := Socket.perform
      { w with store, inbox := [], reading := false, taken := w.taken ++ [(now, .leave)] }
      (c.session.leave now)
    have leaves : Leads verifier w left :=
      leads_leave verifier s.session listening s.pending reading empty now store
    have ended : (c.session.leave now).1.end?.isSome = true := Session.end?_leave now c.session
    have writing : left.writing = true := by
      show w.writing = true
      rw [s.writing, s.isWriting, listening]
      rfl
    have sends := Channel.Socket.leads_sends verifier left
    rw [if_pos writing] at sends
    -- the request to close, at the latest, is what the socket does not take
    have pending : left.outbox ++ left.pending ≠ [] := by
      show left.outbox ++ (_ ++ if (c.session.leave now).1.end?.isSome then [.close] else []) ≠ []
      rw [if_pos ended]
      simp
    let spoken : Socket := { left with
      pending := []
      said := left.said ++ left.pending
      sent := left.sent ++ left.pending
      outbox := left.outbox ++ left.pending }
    have fails : spoken.fail = spoken.stop := by
      rw [Socket.fail, if_neg (by simpa only [List.isEmpty_iff] using pending)]
    have lost : Leads verifier spoken spoken.stop :=
      fails ▸ Channel.Socket.leads_move now .fails spoken
    let still : Connection := { gone with session := (c.session.leave now).1 }
    have silenced : still.deliver (performAll store (c.session.leave now).2).sent = still :=
      deliver_of_not_writing (c := still) s.transport rfl _
    have last : (gone.carryOn (c.session.leave now) store).1 = still.keepWatches _ :=
      congrArg (Connection.keepWatches · _) silenced
    rw [last]
    refine ⟨spoken.stop, (leaves.trans sends).trans lost,
      ⟨s.transport, s.attached, rfl, rfl, rfl, rfl, s.frames⟩, ?_, fun none => ?_⟩
    · show false = (c.session.leave now).1.end?.isNone
      rw [← Option.not_isSome, ended]
      rfl
    · rw [show (c.session.leave now).1.end? = Option.none from none] at ended
      cases ended

/-- Subscriptions report what they have to report. -/
theorem Shows.notify (s : c.Shows w) (changes : List Change) :
    ∃ w', Leads verifier w w' ∧ (Live.notify changes c).Shows w' := by
  let reports := c.watches.flatMap (Live.reports changes)
  have others := Channel.Socket.leads_others verifier reports w
  rw [s.outbox, List.nil_append] at others
  have base : c.Tracks { w with sent := w.sent ++ reports, outbox := [] } :=
    ⟨s.transport, s.attached, s.session, s.pending, rfl, s.writing, s.frames⟩
  have tracks := base.deliver reports reports fun _ => ⟨rfl, rfl⟩
  have session := (c.deliver_frame reports).2.1
  have writing : (c.deliver reports).writing = c.writing := by
    rcases Bool.eq_false_or_eq_true c.writing with writing | silent
    · have going := close_not_mem_reports changes c.watches
      rw [deliver_of_writing s.transport s.attached writing, contains_close_written, writing]
      simpa [reports] using going
    · rw [deliver_of_not_writing s.transport silent]
  refine ⟨_, others.trans (Channel.Socket.leads_writes _), ⟨tracks.transport, tracks.attached,
    tracks.session, tracks.pending, rfl, tracks.writing, tracks.frames⟩, ?_, ?_⟩
  · show (c.deliver reports).writing = (c.deliver reports).session.end?.isNone
    rw [writing, session, s.isWriting]
  · show (c.deliver reports).session.end? = none → _
    rw [session]
    exact s.isReading

/-- A connection that is opened on a socket. -/
theorem shows_opened (id : String) (table : Channel.Table) (timeout now : Nat)
    (namespaceText : String) (query : Dict String) (store : Store) :
    let start := Session.start table timeout now namespaceText query
    ∃ w', Leads verifier (Socket.opened table timeout now namespaceText query store) w' ∧
      (Connection.follow now start { id, transport := .socket, session := start.1 }
        store).1.Shows w' := by
  intro start
  have fresh : Tracks { id, transport := .socket, session := start.1 }
      ({ session := start.1, store } : Socket) := ⟨rfl, rfl, rfl, rfl, rfl, rfl, [], rfl⟩
  obtain ⟨w', performs, carried, reading, empty, silenced⟩ := fresh.carryOn verifier start
    fun ends _ => Channel.mem_sent_of_asked (Session.closes_of_start_ends ends) store
  obtain ⟨w'', rests, shows⟩ := carried.answerClose verifier
    (fun ended => silenced (by rwa [carryOn_session] at ended)) (fun _ => ⟨reading, empty⟩) now
    (Connection.carryOn { id, transport := .socket, session := start.1 } start store).2
  exact ⟨w'', performs.trans rests, shows⟩

end Connection

/-! ## All connections -/

namespace Live

/-- A connection shows what some schedule leads to. -/
def Shown (verifier : Verifier) (fresh : Socket) (c : Connection) : Prop :=
  ∃ w, Leads verifier fresh w ∧ c.Shows w

/-- What happens to a connection on a socket, with what arrives in frames. -/
def Happening.Passes (id : String) : Happening → Prop
  | .opens _ other _ _ _ => other ≠ id
  | .detaches other => other ≠ id
  | .arrives other e => other = id → ∃ f : Channel.Frame, f.event? = some e
  | _ => True

section Sockets

variable {app : Application} {fresh : Socket} {id : String} {l : Live}

theorem Shown.mono {c c' : Connection} (shown : Shown app.verifier fresh c)
    (moved : ∀ w, c.Shows w → ∃ w', Leads app.verifier w w' ∧ c'.Shows w') :
    Shown app.verifier fresh c' := by
  obtain ⟨w, leads, shows⟩ := shown
  obtain ⟨w', further, shows⟩ := moved w shows
  exact ⟨w', leads.trans further, shows⟩

/-- Whatever happens, a connection on a socket shows what some schedule of it leads to, as
long as it is neither detached nor replaced, and what arrives on it arrives in frames. -/
theorem shows_happen (shown : l.Holds id (Shown app.verifier fresh)) {h : Happening}
    (passes : h.Passes id) : (l.happen app h).Holds id (Shown app.verifier fresh) := by
  cases h with
  | opens transport other namespaceText query queue =>
    exact holds_openWith shown passes _ transport namespaceText query queue
  | arrives other e =>
    refine holds_update shown (fun own c store shown => ?_) fun c store => Connection.follow_id ..
    obtain ⟨f, holds⟩ := passes own
    exact shown.mono fun w shows => shows.receive holds l.now store
  | departs other =>
    refine holds_update shown (fun _ c store shown => shown.mono fun w shows => ?_)
      fun c store => ?_
    · dsimp only
      rw [if_pos shows.transport]
      exact shows.depart l.now store
    · dsimp only
      split <;> exact Connection.carryOn_id ..
  | detaches other =>
    exact holds_update shown (fun own => absurd own passes) fun c store => rfl
  | passes ms =>
    refine holds_advance shown (fun now c store shown => ?_) ms
    exact shown.mono fun w shows => shows.expire now store
  | writes write => exact shown
  | settles =>
    exact holds_map shown (fun _ _ shown => shown.mono fun w shows => shows.notify l.store.changes)
      fun c => (c.deliver_frame _).1
  | collects =>
    refine holds_map shown (fun c _ shown => shown.mono fun w shows => ?_) fun c => rfl
    have frames : w.frames = w.frames ++ [].map Outbound.frame := (List.append_nil _).symm
    exact ⟨w, .refl w, ⟨shows.transport, shows.attached, shows.session, shows.pending,
      shows.outbox, shows.writing, w.frames, frames⟩, shows.isWriting, shows.isReading⟩

theorem shows_run (shown : l.Holds id (Shown app.verifier fresh)) {happenings : List Happening}
    (passes : ∀ h ∈ happenings, h.Passes id) :
    (l.run app happenings).Holds id (Shown app.verifier fresh) := by
  induction happenings generalizing l with
  | nil => exact shown
  | cons h rest ih =>
    obtain ⟨here, later⟩ := List.forall_mem_cons.mp passes
    exact ih (shows_happen shown here) later

/-- A connection that is opened on a socket shows what some schedule of it leads to. -/
theorem shows_openSocket (l : Live) (app : Application) (table : Channel.Table)
    (id namespaceText : String) (query : Dict String) :
    (l.openSocket app table id namespaceText query).Holds id (Shown app.verifier
      (Socket.opened table app.settings.authTimeoutMs l.now namespaceText query l.store)) := by
  let start := Session.start table app.settings.authTimeoutMs l.now namespaceText query
  let first : Connection := { id, transport := .socket, session := start.1 }
  have found : (l.add first).find? id = some first := by
    have absent : (l.connections.filter fun d => d.id ≠ id).find? (fun c => c.id = id) = none :=
      List.find?_eq_none.mpr fun c member => by simpa using (List.mem_filter.mp member).2
    show ((l.connections.filter fun d => d.id ≠ id) ++ [first]).find? (fun c => c.id = id) = _
    rw [List.find?_append, absent]
    simp [first]
  have started : Holds id (Shown app.verifier
      (Socket.opened table app.settings.authTimeoutMs l.now namespaceText query l.store))
      ((l.add first).update id fun c store => c.follow l.now start store) :=
    holds_update_self found (Connection.shows_opened id table _ l.now namespaceText query l.store)
  show Holds id _ (Live.update _ id fun c store => c.follow l.now (c.session.expire l.now) store)
  refine holds_update started (fun _ c store shown => ?_) fun c store => Connection.follow_id ..
  exact shown.mono fun w shows => shows.expire l.now store

end Sockets

end Live

end EndpointTree.Serving

namespace EndpointTree.Channel.Socket

open Serving (Application Live)
open scoped List

/-! ## All of it -/

/-- A session runs over what it took of its box, and its box is given the events of the
frames in the order in which they came, up to the first close or failure: none is lost, and
none comes twice, as long as the session is not over, and a session that is let go on takes
all of them. Frames that hold no event leave no trace. What the session sends and what others
send meets in one queue, each in its order; a writer whose socket takes what it writes puts
out a frame for each message of the queue, in order, and one for the first request to close,
which a session that is over has made, and nothing after that. Where nobody but the session
requests to close, all that it sent stands in the queue before the request. A live connection
shows what one of the schedules leads to. -/
theorem frames_pass_in_order (verifier : Verifier) (table : Table) (timeout now : Nat)
    (namespaceText : String) (query : Dict String) (store : Store)
    (schedule : List (Nat × Move)) :
    let start := Session.start table timeout now namespaceText query
    let fresh := opened table timeout now namespaceText query store
    let w := fresh.run verifier schedule
    let given := decodings (arrivals schedule)
    (Session.andThen start (fun s => s.run verifier w.taken) =
        (w.session, w.asked.flatMap (·.2)) ∧
      Session.events w.taken ++ w.inbox <+: given ∧
      (w.isOver = false → Session.events w.taken ++ w.inbox = given) ∧
      (∀ later, ∃ further : List (Nat × Move),
        (∀ p ∈ further, p = (later, .sends) ∨ p = (later, .steps)) ∧
        ((w.run verifier further).isOver = true ∨
          Session.events (w.run verifier further).taken = given)) ∧
      (Session.hasLeft w.taken = true → (arrivals schedule).all (·.isFrame) = false ∧
        Session.events w.taken = given)) ∧
    ((∀ (f : Frame) (e : Event), f.event? = some e ↔ f.Holds e) ∧
      ∀ other, other.filter (!·.2.isIdle) = schedule.filter (!·.2.isIdle) →
        fresh.run verifier other = w) ∧
    (w.said ++ w.pending = w.asked.flatMap (fun p => (performAll p.1 p.2).sent) ++
        (if w.session.end?.isSome then [.close] else []) ∧
      w.said <+ w.sent ∧ foreign schedule <+ w.sent ∧ w.sent ~ w.said ++ foreign schedule ∧
      (w.isOver = true → .close ∈ w.sent) ∧
      ((∀ p ∈ schedule, p.2 ≠ .fails) → w.frames <+: due w.sent ∧
        ∀ later n, w.outbox.length ≤ n →
          (w.run verifier (List.replicate n (later, .writes))).frames = due w.sent)) ∧
    ((∀ p ∈ schedule, p.2 ≠ .others .close) →
      (∀ p ∈ w.asked, .close ∉ sentByHandlers p.1 p.2) →
        w.said.filter (· ≠ .close) <+ w.sent.takeWhile (· ≠ .close)) ∧
    ∀ (app : Application) (l : Live) (id : String) (happenings : List Live.Happening),
      (∀ h ∈ happenings, h.Passes id) →
        ((l.openSocket app table id namespaceText query).run app happenings).Holds id
          (Live.Shown app.verifier
            (opened table app.settings.authTimeoutMs l.now namespaceText query l.store)) := by
  intro start fresh w given
  have heard : Heard verifier start (arrivals schedule) w :=
    heard_run (heard_opened verifier table timeout now namespaceText query store) schedule
  have queued : Queued (foreign schedule) w :=
    queued_run ⟨List.Sublist.refl _, List.Sublist.refl _, .refl _⟩ schedule
  refine ⟨⟨heard.course, heard.inOrder, heard.complete, fun later => ?taken, fun left => ?left⟩,
    ⟨fun f e => Frame.event?_eq_some_iff, fun other same => ?idle⟩,
    ⟨heard.effects, queued.own, queued.foreign, queued.all, fun finished => ?finished,
      fun accepted => ?accepted⟩,
    fun others handlers => ?calm,
    fun app l id _ passes => Live.shows_run (Live.shows_openSocket l app table id _ _) passes⟩
  case taken =>
    obtain ⟨further, own, done⟩ := exists_emptied verifier later w
    have goesOn := heard.run_own own
    refine ⟨further, own, ?_⟩
    rcases done with finished | empty
    · exact .inl finished
    · cases finished : (w.run verifier further).isOver with
      | true => exact .inl rfl
      | false =>
        have complete := goesOn.complete finished
        rw [empty, List.append_nil] at complete
        exact .inr complete
  case left =>
    obtain ⟨-, shut, all⟩ := heard.left left
    exact ⟨heard.closed shut, all⟩
  case idle =>
    calc fresh.run verifier other
      _ = fresh.run verifier (other.filter (!·.2.isIdle)) := (run_filter_isIdle ..).symm
      _ = fresh.run verifier (schedule.filter (!·.2.isIdle)) := by rw [same]
      _ = w := run_filter_isIdle ..
  case finished =>
    obtain ⟨ended, settled⟩ := Bool.and_eq_true_iff.mp finished
    have effects := heard.effects
    rw [List.isEmpty_iff.mp settled, List.append_nil, if_pos ended] at effects
    have said : .close ∈ w.said := effects ▸ List.mem_append_right _ (List.mem_singleton_self _)
    exact queued.own.subset said
  case accepted =>
    have written : Written w :=
      written_run (.going [] rfl rfl List.not_mem_nil rfl) accepted
    exact ⟨written.frames_due, fun later n enough => frames_run_writes written later enough⟩
  case calm =>
    have first := (asked_prefix_run verifier fresh schedule).subset
    have orderly : Orderly fresh := orderly_opened fun p member => handlers p (first member)
    exact (orderly_run orderly others handlers).kept

/-- A channel that greets who comes, and answers whatever is said to it. -/
def greeter : Route :=
  let speaks (name : String) : NamedHandler := ⟨name, fun data _ store =>
    { outcome := .proceed data, sent := [.message ⟨name, none⟩], store }⟩
  { path := "/feed", pattern := .ofPath "/feed"
    access := .required (.withPolicies false none [])
    handlers := { connect := [speaks "hello"], message := [speaks "answer"], disconnect := [] }
    collection := none }

/-- Something is said to it. -/
def greeted : List Live.Happening := [.passes 1, .arrives "a" ⟨"say", .null⟩, .settles]

theorem passes_greeted : ∀ h ∈ greeted, h.Passes "a" := by
  have framed : ∃ f : Frame, f.event? = some ⟨"say", .null⟩ :=
    ⟨.text "[\"say\"]", by decide +kernel⟩
  simp [greeted, Live.Happening.Passes, framed]

theorem exists_received_of_greeted :
    ∃ app c, app.settings.authTimeoutMs = 5000 ∧
      c ∈ ((Live.openSocket { store := .new Nat.repr } app [greeter] "a" "/feed" .empty).run app
        greeted).connections ∧ c.id = "a" ∧
      c.received = [.message ⟨"hello", none⟩, .message ⟨"answer", none⟩] := by
  let document := Application.ofDocument (.ofLookup fun _ => none) .builtins
    (fun _ => .error .notReadable) (.object [])
  let last (app : Application) : Live :=
    (Live.openSocket { store := .new Nat.repr } app [greeter] "a" "/feed" .empty).run app greeted
  obtain ⟨app, loaded, timeout⟩ :
      ∃ app, document = .ok app ∧ app.settings.authTimeoutMs = 5000 := ⟨_, rfl, rfl⟩
  have shown : document.map (fun app => ((last app).find? "a").map (·.received)) =
      .ok (some [.message ⟨"hello", none⟩, .message ⟨"answer", none⟩]) := by decide +kernel
  rw [loaded] at shown
  obtain ⟨c, found, received⟩ := Option.map_eq_some_iff.mp (Except.ok.inj shown)
  have own : c.id = "a" := by simpa using List.find?_some found
  exact ⟨app, c, timeout, List.mem_of_find?_eq_some found, own, received⟩

/-- Frames that hold nothing come in between, a subscription reports a change, and the
client closes: the greeting, the answer and the report are put out, and then the close. A
live connection to which the same is said receives the greeting and the answer. -/
theorem answers_pass_between_empty_frames :
    let fresh := opened [greeter] 5000 0 "/feed" .empty (.new Nat.repr)
    let schedule : List (Nat × Move) :=
      [(1, .reads (.frame .ping)), (2, .reads (.frame (.text "[\"say\"]"))), (3, .sends),
        (3, .reads (.frame (.binary [0xff]))), (4, .steps),
        (5, .others (.message ⟨"update", none⟩)), (5, .sends), (6, .writes),
        (7, .reads .close), (8, .steps), (9, .sends)]
    let w := fresh.run (fun _ => .error .notReadable) schedule
    (∀ p ∈ schedule, p.2 ≠ .fails) ∧ (∀ p ∈ schedule, p.2 ≠ .others .close) ∧
      (∀ p ∈ w.asked, .close ∉ sentByHandlers p.1 p.2) ∧ w.isOver = true ∧
      Session.hasLeft w.taken = true ∧ Session.events w.taken = [⟨"say", .null⟩] ∧
      (w.run (fun _ => .error .notReadable) (List.replicate 3 (10, .writes))).frames =
        [.text "\x7b\"event\":\"hello\"\x7d", .text "\x7b\"event\":\"update\"\x7d",
          .text "\x7b\"event\":\"answer\"\x7d", .close] ∧
      [Outbound.message ⟨"hello", none⟩, .message ⟨"answer", none⟩] <+
        w.sent.takeWhile (· ≠ .close) ∧
      ∃ app c,
        c ∈ ((Live.openSocket { store := .new Nat.repr } app [greeter] "a" "/feed" .empty).run app
          greeted).connections ∧ c.id = "a" ∧
        c.received = [.message ⟨"hello", none⟩, .message ⟨"answer", none⟩] ∧
        Live.Shown app.verifier fresh c := by
  intro fresh schedule w
  obtain ⟨⟨-, -, -, -, left⟩, -, ⟨-, -, -, -, -, put⟩, kept, live⟩ :=
    frames_pass_in_order (fun _ => .error .notReadable) [greeter] 5000 0 "/feed" .empty
      (.new Nat.repr) schedule
  have accepted : ∀ p ∈ schedule, p.2 ≠ .fails := by simp [schedule]
  have others : ∀ p ∈ schedule, p.2 ≠ .others .close := by simp [schedule]
  have handlers : ∀ p ∈ w.asked, .close ∉ sentByHandlers p.1 p.2 := by decide +kernel
  have finished : w.isOver = true := by decide +kernel
  have gone : Session.hasLeft w.taken = true := by decide +kernel
  have given : decodings (arrivals schedule) = [⟨"say", .null⟩] := by decide +kernel
  have frames : due w.sent =
      [.text "\x7b\"event\":\"hello\"\x7d", .text "\x7b\"event\":\"update\"\x7d",
        .text "\x7b\"event\":\"answer\"\x7d", .close] := by decide +kernel
  have said : w.said.filter (· ≠ .close) =
      [.message ⟨"hello", none⟩, .message ⟨"answer", none⟩] := by decide +kernel
  obtain ⟨app, c, timeout, member, own, received⟩ := exists_received_of_greeted
  have shown := live app { store := .new Nat.repr } "a" greeted passes_greeted c member own
  rw [timeout] at shown
  refine ⟨accepted, others, handlers, finished, gone, (left gone).2.trans given, ?_, ?_,
    app, c, member, own, received, shown⟩
  · exact ((put accepted).2 10 3 (by decide +kernel)).trans frames
  · exact said ▸ kept others handlers

end EndpointTree.Channel.Socket
