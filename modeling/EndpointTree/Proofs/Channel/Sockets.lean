import EndpointTree.Proofs.Channel.Closing
import EndpointTree.Proofs.Channel.Frames
import Mathlib.Data.List.Induction

/-!
# What passes on a socket

Reader, session and writer move in any order, and others may send and change the store in
between. Whatever the schedule, nothing is lost between them, nothing passes twice, and
nothing overtakes: the session is given the events of the frames in the order in which they
came, up to the first close or failure, and the writer puts out what was sent in the order
in which it was sent, up to the first request to close. A frame without an event leaves no
trace at all.

* `Socket.Heard` is the invariant of the reader and the session, `Socket.Queued` that of the
  queue between those who send and the writer, `Socket.Written` that of the writer;
  `heard_run`, `queued_run` and `written_run` hold them along a schedule.
* `Socket.Orderly` is the invariant of a session that nobody else closes, and `orderly_run`
  its run.
* `Socket.run_filter_isIdle` leaves out the frames without an event.
-/

namespace EndpointTree.Channel

/-- A move that gives the reader a frame without an event. -/
def Move.isIdle : Move → Bool
  | .reads (.frame f) => f.event?.isNone
  | _ => false

namespace Socket

open scoped List

variable {verifier : Verifier} {start : Session × List Action} {items : List Incoming}
  {others : List Outbound} {w : Socket}

/-! ## Moves -/

/-- Reading touches the inbox and the state of the reader alone. -/
theorem exists_read_eq (w : Socket) (item : Incoming) :
    ∃ inbox reading, w.read item = { w with inbox, reading } := by
  unfold read
  split
  · exact ⟨_, _, rfl⟩
  · exact ⟨w.inbox, w.reading, rfl⟩

/-- A step is taken where the session listens and has sent all that it had to send. -/
theorem step_cases (verifier : Verifier) (now : Nat) (w : Socket) :
    w.step verifier now = w ∨ w.session.end? = none ∧ w.pending = [] ∧
      w.step verifier now =
        perform { w with inbox := w.inbox.tail, taken := w.taken ++ [(now, w.input)] }
          (w.session.step verifier now w.input) := by
  unfold step
  split
  · next free =>
    obtain ⟨listening, settled⟩ : w.session.end? = none ∧ w.pending = [] := by
      simpa only [Bool.and_eq_true, Option.isNone_iff_eq_none, List.isEmpty_iff] using free
    exact .inr ⟨listening, settled, rfl⟩
  · exact .inl rfl

/-- Sending takes the first action that is pending, if there is one. -/
theorem send_cases (w : Socket) :
    w.send = w ∨ ∃ o rest, w.pending = o :: rest ∧
      w.send = leave { w with pending := rest, said := w.said ++ [o] } o := by
  unfold send
  split
  · exact .inl rfl
  · next o rest pending => exact .inr ⟨o, rest, pending, rfl⟩

/-- Writing touches the outbox, the state of the writer and the frames alone. -/
theorem exists_write_eq (w : Socket) :
    ∃ outbox writing frames, w.write = { w with outbox, writing, frames } := by
  unfold write
  split
  · exact ⟨w.outbox, w.writing, w.frames, rfl⟩
  · dsimp only
    split <;> exact ⟨_, _, _, rfl⟩

theorem exists_fail_eq (w : Socket) : ∃ outbox writing, w.fail = { w with outbox, writing } := by
  unfold fail
  split
  · exact ⟨w.outbox, w.writing, rfl⟩
  · exact ⟨_, _, rfl⟩

/-- The last move of a schedule is made after all others. -/
theorem run_concat (verifier : Verifier) (w : Socket) (schedule : List (Nat × Move))
    (p : Nat × Move) :
    w.run verifier (schedule ++ [p]) = (w.run verifier schedule).move verifier p.1 p.2 := by
  rw [run, List.foldl_append]
  rfl

theorem run_append (verifier : Verifier) (w : Socket) (schedule further : List (Nat × Move)) :
    w.run verifier (schedule ++ further) = (w.run verifier schedule).run verifier further :=
  List.foldl_append

/-- The session sends all that it has to send. -/
theorem run_sends_eq (verifier : Verifier) (now : Nat) (w : Socket) :
    w.run verifier (List.replicate w.pending.length (now, .sends)) =
      { w with
        pending := []
        said := w.said ++ w.pending
        sent := w.sent ++ w.pending
        outbox := if w.writing then w.outbox ++ w.pending else w.outbox } := by
  generalize pending : w.pending = left
  induction left generalizing w with
  | nil =>
    obtain ⟨⟩ := w
    obtain rfl := pending
    simp only [List.length_nil, List.replicate_zero, run, List.foldl_nil, List.append_nil, ite_self]
  | cons o rest ih =>
    have first : w.send = leave { w with pending := rest, said := w.said ++ [o] } o := by
      rw [send, pending]
    have further := ih (leave { w with pending := rest, said := w.said ++ [o] } o) rfl
    show w.send.run verifier (List.replicate rest.length (now, .sends)) = _
    rw [first, further]
    cases w.writing <;>
      simp only [leave, List.append_assoc, List.singleton_append, if_true, Bool.false_eq_true,
        if_false]

/-- A session that is let send and step takes all that is in its box, unless it is over
before. -/
theorem exists_emptied (verifier : Verifier) (later : Nat) (w : Socket) :
    ∃ further : List (Nat × Move),
      (∀ p ∈ further, p = (later, .sends) ∨ p = (later, .steps)) ∧
      ((w.run verifier further).isOver = true ∨ (w.run verifier further).inbox = []) := by
  generalize inbox : w.inbox = waiting
  induction waiting generalizing w with
  | nil => exact ⟨[], List.forall_mem_nil _, .inr inbox⟩
  | cons e rest ih =>
    let sends : List (Nat × Move) := List.replicate w.pending.length (later, .sends)
    have own : ∀ p ∈ sends, p = (later, .sends) ∨ p = (later, .steps) :=
      fun p member => .inl (List.eq_of_mem_replicate member)
    have settled := run_sends_eq verifier later w
    cases ended : w.session.end? with
    | some how =>
      refine ⟨sends, own, .inl ?_⟩
      rw [settled, isOver, ended]
      rfl
    | none =>
      -- a session that listens takes the next event, and goes on with the rest
      have taken : ((w.run verifier sends).step verifier later).inbox = rest := by
        rw [settled, step, if_pos (by simp [ended])]
        show w.inbox.tail = rest
        rw [inbox, List.tail_cons]
      obtain ⟨further, steps, done⟩ := ih _ taken
      refine ⟨sends ++ (later, .steps) :: further, ?_, ?_⟩
      · exact List.forall_mem_append.mpr ⟨own, List.forall_mem_cons.mpr ⟨.inr rfl, steps⟩⟩
      · rw [run_append]
        exact done

/-! ## What the session is given -/

/-- What a schedule gives to the reader. -/
def arrivals (schedule : List (Nat × Move)) : List Incoming :=
  schedule.filterMap fun p => match p.2 with
    | .reads item => some item
    | _ => none

/-- What a session has been given of what came in, and what it made of it. -/
structure Heard (verifier : Verifier) (start : Session × List Action) (items : List Incoming)
    (w : Socket) : Prop where
  /-- The session is the run over what it took. -/
  course : Session.andThen start (fun s => s.run verifier w.taken) =
    (w.session, w.asked.flatMap (·.2))
  /-- What it asked for is done, and a request to close follows its end. -/
  effects : w.said ++ w.pending =
    w.asked.flatMap (fun p => (performAll p.1 p.2).sent) ++
      if w.session.end?.isSome then [.close] else []
  inOrder : Session.events w.taken ++ w.inbox <+: decodings items
  complete : w.isOver = false → Session.events w.taken ++ w.inbox = decodings items
  reading : w.isOver = false → w.reading = items.all (·.isFrame)
  closed : w.reading = false → items.all (·.isFrame) = false
  /-- The client's leaving is noticed last. -/
  left : Session.hasLeft w.taken = true → w.session.end?.isSome = true ∧ w.reading = false ∧
    Session.events w.taken = decodings items

/-- What the reader puts in the inbox is still to be heard. -/
theorem Heard.read (h : Heard verifier start items w) (item : Incoming) :
    Heard verifier start (items ++ [item]) (w.read item) := by
  unfold Socket.read
  split
  · next listening =>
    obtain ⟨reading, finished⟩ : w.reading = true ∧ w.isOver = false := by
      simpa only [Bool.and_eq_true, Bool.not_eq_true'] using listening
    have going : items.all (·.isFrame) = true := (h.reading finished).symm.trans reading
    have further : (items ++ [item]).all (·.isFrame) = item.isFrame := by
      rw [List.all_append, going, Bool.true_and, List.all_cons, List.all_nil, Bool.and_true]
    have same : Session.events w.taken ++ (w.inbox ++ item.event?.toList) =
        decodings (items ++ [item]) := by
      rw [decodings_concat going, ← h.complete finished, List.append_assoc]
    refine ⟨h.course, h.effects, same ▸ List.prefix_rfl, fun _ => same, fun _ => further.symm,
      fun closed => further.trans closed, fun left => ?_⟩
    -- a socket that still reads has not told its session that the client left
    exact absurd (reading.symm.trans (h.left left).2.1) Bool.noConfusion
  · next deaf =>
    have shut (stopped : w.reading = false) :
        decodings (items ++ [item]) = decodings items ∧
          (items ++ [item]).all (·.isFrame) = false := by
      have closed := h.closed stopped
      refine ⟨decodings_append_of_closed closed [item], ?_⟩
      rw [List.all_append, closed, Bool.false_and]
    have stopped (finished : w.isOver = false) : w.reading = false := by
      simpa only [finished, Bool.not_false, Bool.and_true, Bool.not_eq_true] using deaf
    refine ⟨h.course, h.effects, h.inOrder.trans (decodings_grow items item),
      fun finished => ?complete, fun finished => ?reading, fun closed => (shut closed).2,
      fun left => ?left⟩
    case complete => exact (h.complete finished).trans (shut (stopped finished)).1.symm
    case reading => exact (stopped finished).trans (shut (stopped finished)).2.symm
    case left =>
      obtain ⟨ended, closed, all⟩ := h.left left
      exact ⟨ended, closed, all.trans (shut closed).1.symm⟩

/-- What the session finds is the next event of the box, if there is one. -/
theorem events_input (now : Nat) (w : Socket) :
    Session.events (w.taken ++ [(now, w.input)]) ++ w.inbox.tail =
      Session.events w.taken ++ w.inbox := by
  rw [Session.events, List.filterMap_append, List.append_assoc]
  unfold input
  split
  · next e rest inbox =>
    rw [inbox]
    rfl
  · next inbox =>
    rw [inbox]
    split <;> rfl

/-- A session finds that its client has left where its box is empty and will stay so. -/
theorem leaves_of_hasLeft {now : Nat} (leaving : Session.hasLeft [(now, w.input)] = true) :
    w.input = .leave ∧ w.inbox = [] ∧ w.reading = false := by
  unfold input at leaving ⊢
  split at leaving
  · cases leaving
  · next inbox =>
    split at leaving
    · cases leaving
    · next shut =>
      rw [if_neg shut]
      exact ⟨rfl, inbox, Bool.eq_false_iff.mpr shut⟩

theorem andThen_run_concat (start : Session × List Action) (inputs : List (Nat × Session.Input))
    (now : Nat) (input : Session.Input) :
    Session.andThen start (fun s => s.run verifier (inputs ++ [(now, input)])) =
      Session.andThen (Session.andThen start fun s => s.run verifier inputs)
        fun s => s.step verifier now input := by
  have single (s : Session) : s.run verifier [(now, input)] = s.step verifier now input := by
    rw [Session.run, Session.andThen_eq, Session.run, List.append_nil]
  simp only [Session.andThen_eq, Session.run_append, single, List.append_assoc]

/-- A step takes one input, the next event of the box if there is one. -/
theorem Heard.step (h : Heard verifier start items w) (now : Nat) :
    Heard verifier start items (w.step verifier now) := by
  rcases w.step_cases verifier now with same | ⟨listening, settled, same⟩
  · exact same.symm ▸ h
  · rw [same]
    have finished : w.isOver = false := by rw [isOver, listening]; rfl
    have complete := h.complete finished
    have effects := h.effects
    simp only [settled, listening, Option.isSome_none, Bool.false_eq_true, if_false,
      List.append_nil] at effects
    have next := (events_input now w).trans complete
    refine ⟨?course, ?effects, next ▸ List.prefix_rfl, fun _ => next, fun _ => h.reading finished,
      h.closed, fun left => ?left⟩
    case course =>
      refine (andThen_run_concat start w.taken now w.input).trans ?_
      show _ = ((w.session.step verifier now w.input).1,
        (w.asked ++ [(w.store, (w.session.step verifier now w.input).2)]).flatMap (·.2))
      rw [h.course, Session.andThen_eq, List.flatMap_append, List.flatMap_singleton]
    case effects =>
      show w.said ++ ((performAll w.store _).sent ++ _) =
        (w.asked ++ [(w.store, _)]).flatMap (fun (p : Store × List Action) =>
          (performAll p.1 p.2).sent) ++ _
      rw [effects, List.flatMap_append, List.flatMap_singleton, List.append_assoc]
      rfl
    case left =>
      have first : Session.hasLeft w.taken = false := by
        refine Bool.eq_false_iff.mpr fun left => ?_
        have ended := (h.left left).1
        rw [listening] at ended
        cases ended
      replace left : Session.hasLeft (w.taken ++ [(now, w.input)]) = true := left
      rw [Session.hasLeft_append, first, Bool.false_or] at left
      obtain ⟨leaves, empty, shut⟩ := leaves_of_hasLeft left
      refine ⟨?_, shut, ?_⟩
      · show (w.session.step verifier now w.input).1.end?.isSome = true
        rw [leaves]
        exact Session.end?_leave now w.session
      · rw [← next, empty, List.tail_nil, List.append_nil]
        rfl

theorem Heard.send (h : Heard verifier start items w) : Heard verifier start items w.send := by
  rcases w.send_cases with same | ⟨o, rest, pending, same⟩
  · exact same.symm ▸ h
  · rw [same]
    have going : w.isOver = false := by
      rw [isOver, pending, List.isEmpty_cons, Bool.and_false]
    have moved : (w.said ++ [o]) ++ rest = w.said ++ w.pending := by
      rw [pending, List.append_assoc, List.singleton_append]
    exact ⟨h.course, moved.trans h.effects, h.inOrder, fun _ => h.complete going,
      fun _ => h.reading going, h.closed, h.left⟩

/-- A socket that was just opened has heard nothing. -/
theorem heard_opened (verifier : Verifier) (table : Table) (timeout now : Nat)
    (namespaceText : String) (query : Dict String) (store : Store) :
    Heard verifier (Session.start table timeout now namespaceText query) []
      (opened table timeout now namespaceText query store) where
  course := by
    show Session.andThen _ (fun s => (s, [])) = (_, [(store, _)].flatMap (·.2))
    rw [List.flatMap_singleton, Session.andThen_eq, List.append_nil]
    rfl
  effects := by
    show (performAll store _).sent ++ _ =
      [(store, _)].flatMap (fun (p : Store × List Action) => (performAll p.1 p.2).sent) ++ _
    rw [List.flatMap_singleton]
    rfl
  inOrder := List.prefix_rfl
  complete := fun _ => rfl
  reading := fun _ => rfl
  closed := nofun
  left := nofun

/-- What the session is given is the business of its reader. -/
theorem Heard.elsewhere (h : Heard verifier start items w) (store : Store)
    (outbox : List Outbound) (writing : Bool) (sent : List Outbound) (frames : List Outgoing) :
    Heard verifier start items { w with store, outbox, writing, sent, frames } :=
  ⟨h.course, h.effects, h.inOrder, h.complete, h.reading, h.closed, h.left⟩

/-- Along a schedule a session is given what came in. -/
theorem heard_run (h : Heard verifier start [] w) (schedule : List (Nat × Move)) :
    Heard verifier start (arrivals schedule) (w.run verifier schedule) := by
  induction schedule using List.reverseRecOn with
  | nil => exact h
  | append_singleton schedule p ih =>
    obtain ⟨now, m⟩ := p
    rw [run_concat, arrivals, List.filterMap_append]
    generalize w.run verifier schedule = w at ih ⊢
    have silent : arrivals schedule ++ [] = arrivals schedule := List.append_nil _
    cases m with
    | reads item => exact ih.read item
    | steps => exact silent.symm ▸ ih.step now
    | sends => exact silent.symm ▸ ih.send
    | others o => exact silent.symm ▸ ih.elsewhere w.store _ w.writing _ w.frames
    | writes =>
      obtain ⟨outbox, writing, frames, same⟩ := w.exists_write_eq
      show Heard verifier start (arrivals schedule ++ []) w.write
      rw [silent, same]
      exact ih.elsewhere w.store outbox writing w.sent frames
    | fails =>
      obtain ⟨outbox, writing, same⟩ := w.exists_fail_eq
      show Heard verifier start (arrivals schedule ++ []) w.fail
      rw [silent, same]
      exact ih.elsewhere w.store outbox writing w.sent w.frames
    | stores store => exact silent.symm ▸ ih.elsewhere store w.outbox w.writing w.sent w.frames

/-- What the session sends and the steps that it takes bring nothing in. -/
theorem Heard.run_own (h : Heard verifier start items w) {later : Nat}
    {further : List (Nat × Move)}
    (own : ∀ p ∈ further, p = (later, .sends) ∨ p = (later, .steps)) :
    Heard verifier start items (w.run verifier further) := by
  induction further generalizing w with
  | nil => exact h
  | cons p rest ih =>
    obtain ⟨here, behind⟩ := List.forall_mem_cons.mp own
    rcases here with rfl | rfl
    · exact ih h.send behind
    · exact ih (h.step later) behind

/-! ## What is sent -/

/-- What others send along a schedule. -/
def foreign (schedule : List (Nat × Move)) : List Outbound :=
  schedule.filterMap fun p => match p.2 with
    | .others o => some o
    | _ => none

/-- What the session sends and what others send, each in its order, and nothing else. -/
structure Queued (others : List Outbound) (w : Socket) : Prop where
  own : w.said.Sublist w.sent
  foreign : others.Sublist w.sent
  all : w.sent.Perm (w.said ++ others)

theorem Queued.of_same {w' : Socket} (h : Queued others w) (said : w'.said = w.said)
    (sent : w'.sent = w.sent) : Queued others w' := by
  refine ⟨?own, ?foreign, ?all⟩
  case own =>
    rw [said, sent]
    exact h.own
  case foreign =>
    rw [sent]
    exact h.foreign
  case all =>
    rw [said, sent]
    exact h.all

/-- Whatever the schedule, what the session says and what others send is sent, each in its order. -/
theorem queued_run (h : Queued [] w) (schedule : List (Nat × Move)) :
    Queued (foreign schedule) (w.run verifier schedule) := by
  induction schedule using List.reverseRecOn with
  | nil => exact h
  | append_singleton schedule p ih =>
    obtain ⟨now, m⟩ := p
    rw [run_concat, foreign, List.filterMap_append]
    generalize w.run verifier schedule = w at ih ⊢
    have silent : foreign schedule ++ [] = foreign schedule := List.append_nil _
    cases m with
    | reads item =>
      obtain ⟨inbox, reading, same⟩ := w.exists_read_eq item
      show Queued (foreign schedule ++ []) (w.read item)
      rw [silent, same]
      exact ih.of_same rfl rfl
    | steps =>
      show Queued (foreign schedule ++ []) (w.step verifier now)
      rcases w.step_cases verifier now with same | ⟨-, -, same⟩ <;> rw [silent, same]
      · exact ih
      · exact ih.of_same rfl rfl
    | sends =>
      show Queued (foreign schedule ++ []) w.send
      rcases w.send_cases with same | ⟨o, rest, -, same⟩ <;> rw [silent, same]
      · exact ih
      · refine ⟨ih.own.append (List.Sublist.refl _),
          ih.foreign.trans (List.sublist_append_left _ _), ?_⟩
        calc w.sent ++ [o]
          _ ~ (w.said ++ foreign schedule) ++ [o] := ih.all.append_right [o]
          _ = w.said ++ (foreign schedule ++ [o]) := List.append_assoc ..
          _ ~ w.said ++ ([o] ++ foreign schedule) := List.perm_append_comm.append_left w.said
          _ = (w.said ++ [o]) ++ foreign schedule := (List.append_assoc ..).symm
    | others o =>
      refine ⟨ih.own.trans (List.sublist_append_left _ _),
        ih.foreign.append (List.Sublist.refl _), ?_⟩
      calc w.sent ++ [o]
        _ ~ (w.said ++ foreign schedule) ++ [o] := ih.all.append_right [o]
        _ = w.said ++ (foreign schedule ++ [o]) := List.append_assoc ..
    | writes =>
      obtain ⟨outbox, writing, frames, same⟩ := w.exists_write_eq
      show Queued (foreign schedule ++ []) w.write
      rw [silent, same]
      exact ih.of_same rfl rfl
    | fails =>
      obtain ⟨outbox, writing, same⟩ := w.exists_fail_eq
      show Queued (foreign schedule ++ []) w.fail
      rw [silent, same]
      exact ih.of_same rfl rfl
    | stores store => exact silent.symm ▸ ih.of_same rfl rfl

/-! ## What is put out -/

/-- What the writer has put out of what was sent. -/
inductive Written (w : Socket) : Prop
  | going (done : List Outbound) : w.writing = true → w.sent = done ++ w.outbox →
    .close ∉ done → w.frames = done.map Outbound.frame → Written w
  | stopped (done rest : List Outbound) : w.writing = false → w.outbox = [] →
    w.sent = done ++ .close :: rest → .close ∉ done →
    w.frames = done.map Outbound.frame ++ [.close] → Written w

/-- What is put out is the business of the writer. -/
theorem Written.of_same {w' : Socket} (h : Written w) (writing : w'.writing = w.writing)
    (outbox : w'.outbox = w.outbox) (sent : w'.sent = w.sent) (frames : w'.frames = w.frames) :
    Written w' := by
  cases h with
  | going done writes queue going put =>
    refine .going done (writing.trans writes) ?_ going (frames.trans put)
    rw [sent, outbox]
    exact queue
  | stopped done rest stops empty queue going put =>
    exact .stopped done rest (writing.trans stops) (outbox.trans empty) (sent.trans queue) going
      (frames.trans put)

theorem Written.leave (h : Written w) (o : Outbound) : Written (w.leave o) := by
  cases h with
  | going done writing sent going frames =>
    refine .going done writing ?_ going frames
    show w.sent ++ [o] = done ++ if w.writing then w.outbox ++ [o] else w.outbox
    rw [writing, if_pos rfl, sent, List.append_assoc]
  | stopped done rest writing outbox sent going frames =>
    refine .stopped done (rest ++ [o]) writing ?_ ?_ going frames
    · show (if w.writing then w.outbox ++ [o] else w.outbox) = []
      rw [writing, if_neg Bool.false_ne_true, outbox]
    · show w.sent ++ [o] = done ++ .close :: (rest ++ [o])
      rw [sent, List.append_assoc, List.cons_append]

theorem Written.write (h : Written w) : Written w.write := by
  unfold Socket.write
  split
  · exact h
  · next o rest outbox =>
    cases h with
    | going done writing sent going frames =>
      rw [outbox] at sent
      dsimp only
      split
      · next close =>
        subst close
        refine .stopped done rest rfl rfl sent going ?_
        show w.frames ++ [.close] = _
        rw [frames]
      · next message =>
        refine .going (done ++ [o]) writing ?_ ?_ ?_
        · rw [List.append_assoc]
          exact sent
        · rw [List.mem_append, List.mem_singleton]
          exact not_or.mpr ⟨going, fun same => message same.symm⟩
        · show w.frames ++ [o.frame] = _
          rw [frames, List.map_append, List.map_singleton]
    | stopped done rest' writing none sent going frames =>
      rw [outbox] at none
      cases none

/-- Sending keeps to the frames that are due. -/
theorem Written.send (h : Written w) : Written w.send := by
  rcases w.send_cases with same | ⟨o, rest, -, same⟩
  · exact same.symm ▸ h
  · have moved : Written { w with pending := rest, said := w.said ++ [o] } :=
      h.of_same rfl rfl rfl rfl
    exact same.symm ▸ moved.leave o

/-- Along a schedule on which the socket takes what is written, all is put out in order. -/
theorem written_run (h : Written w) {schedule : List (Nat × Move)}
    (accepted : ∀ p ∈ schedule, p.2 ≠ .fails) : Written (w.run verifier schedule) := by
  induction schedule generalizing w with
  | nil => exact h
  | cons p rest ih =>
    obtain ⟨now, m⟩ := p
    obtain ⟨here, later⟩ := List.forall_mem_cons.mp accepted
    refine ih (w := w.move verifier now m) ?_ later
    cases m with
    | reads item =>
      show Written (w.read item)
      obtain ⟨inbox, reading, same⟩ := w.exists_read_eq item
      rw [same]
      exact h.of_same rfl rfl rfl rfl
    | steps =>
      show Written (w.step verifier now)
      rcases w.step_cases verifier now with same | ⟨-, -, same⟩ <;> rw [same]
      · exact h
      · exact h.of_same rfl rfl rfl rfl
    | sends => exact h.send
    | others o => exact h.leave o
    | writes => exact h.write
    | fails => exact absurd rfl here
    | stores store => exact h.of_same rfl rfl rfl rfl

/-- At any time the writer has put out a part of what is due. -/
theorem Written.frames_due (h : Written w) : w.frames <+: due w.sent := by
  cases h with
  | going done writing sent going frames =>
    rw [sent, due_append going, frames]
    exact List.prefix_append _ _
  | stopped done rest writing outbox sent going frames =>
    rw [sent, due_append going, frames, due_close]

/-- A writer that has nothing to write has put out all that is due. -/
theorem Written.frames_of_idle (h : Written w) (idle : w.outbox = []) : w.frames = due w.sent := by
  cases h with
  | going done writing sent going frames =>
    have nothing : due [] = [] := rfl
    rw [sent, due_append going, frames, idle, nothing, List.append_nil]
  | stopped done rest writing outbox sent going frames =>
    rw [sent, due_append going, frames, due_close]

theorem write_frame (w : Socket) :
    w.write.sent = w.sent ∧ w.write.outbox.length ≤ w.outbox.length - 1 := by
  unfold write
  split
  · next empty => exact ⟨rfl, Nat.le_of_eq (by rw [empty]; rfl)⟩
  · next o rest outbox =>
    rw [outbox]
    dsimp only
    split
    · exact ⟨rfl, Nat.zero_le _⟩
    · exact ⟨rfl, Nat.le_refl _⟩

/-- A writer that is let write puts out all that is due. -/
theorem frames_run_writes (h : Written w) (now : Nat) {n : Nat} (enough : w.outbox.length ≤ n) :
    (w.run verifier (List.replicate n (now, .writes))).frames = due w.sent := by
  induction n generalizing w with
  | zero => exact h.frames_of_idle (List.eq_nil_of_length_eq_zero (Nat.le_zero.mp enough))
  | succ n ih =>
    obtain ⟨sent, shorter⟩ := w.write_frame
    have enough : w.write.outbox.length ≤ n := by omega
    exact (ih h.write enough).trans (congrArg due sent)

/-! ## Sessions that nobody else closes -/

/-- Where neither handlers nor others request to close, the session does at its end, behind
all that it has to send. -/
structure Orderly (w : Socket) : Prop where
  pending : ∃ front back, w.pending = front ++ back ∧ .close ∉ front ∧ ∀ o ∈ back, o = .close
  ended : .close ∈ w.sent ++ w.pending → w.session.end?.isSome = true
  closed : .close ∈ w.sent → ∀ o ∈ w.pending, o = .close
  kept : (w.said.filter (· ≠ .close)).Sublist (w.sent.takeWhile (· ≠ .close))

theorem orderly_unsent {w : Socket} (settled : w.pending = []) (unsaid : w.said = [])
    (unsent : w.sent = []) : Orderly w where
  pending := ⟨[], [], settled, List.not_mem_nil, List.forall_mem_nil _⟩
  ended := fun closing => by rw [unsent, settled] at closing; cases closing
  closed := fun closing => by rw [unsent] at closing; cases closing
  kept := by rw [unsaid, unsent]; exact List.Sublist.refl _

/-- Further messages add nothing in front of a close that was sent. -/
theorem takeWhile_sublist_append (sent : List Outbound) (further : List Outbound) :
    (sent.takeWhile (· ≠ .close)).Sublist ((sent ++ further).takeWhile (· ≠ .close)) := by
  rw [List.takeWhile_append]
  split
  · exact (List.takeWhile_sublist _).trans (List.sublist_append_left _ _)
  · exact List.Sublist.refl _

/-- What a session asks for is performed in order, unless a handler closes by itself. -/
theorem Orderly.perform (h : Orderly w) (quiet : .close ∉ w.sent)
    {step : Session × List Action} (closesLast : Session.ClosesLast step)
    (calm : .close ∉ sentByHandlers w.store step.2) : Orderly (w.perform step) := by
  obtain ⟨front, going, asks⟩ := closesLast
  have silent (calm : .close ∉ sentByHandlers w.store front) :
      .close ∉ (performAll w.store front).sent :=
    fun member => (mem_sent_performAll member).elim going calm
  rcases asks with asks | ⟨ended, asks⟩
  · rw [asks] at calm
    have pending : (w.perform step).pending =
        (performAll w.store front).sent ++ if step.1.end?.isSome then [.close] else [] :=
      asks ▸ rfl
    refine ⟨⟨_, _, pending, silent calm, ?_⟩, fun closing => ?_,
      fun closing => absurd closing quiet, h.kept⟩
    · intro o member
      split at member
      · exact List.mem_singleton.mp member
      · cases member
    · show step.1.end?.isSome = true
      rcases List.mem_append.mp closing with before | closing
      · exact absurd before quiet
      · rw [pending] at closing
        rcases List.mem_append.mp closing with sent | last
        · exact absurd sent (silent calm)
        · split at last
          · assumption
          · cases last
  · have calm : .close ∉ sentByHandlers w.store front := by
      have same :
          (front ++ [Action.send .close]).filter Action.isRun = front.filter Action.isRun := by
        rw [List.filter_append]
        exact List.append_nil _
      rw [asks] at calm
      unfold sentByHandlers at calm ⊢
      rwa [same] at calm
    have pending : (w.perform step).pending =
        (performAll w.store front).sent ++ [.close, .close] := by
      show (performAll w.store step.2).sent ++ (if step.1.end?.isSome then [.close] else []) = _
      rw [asks, if_pos ended, performAll, List.foldl_append]
      exact List.append_assoc _ _ _
    refine ⟨⟨_, _, pending, silent calm, fun o member => ?_⟩, fun _ => ended,
      fun closing => absurd closing quiet, h.kept⟩
    simpa only [List.mem_cons, List.not_mem_nil, or_false, or_self] using member

/-- A step keeps order, unless a handler of its own closes. -/
theorem Orderly.step (h : Orderly w) (now : Nat)
    (calm : ∀ p ∈ (w.step verifier now).asked, .close ∉ sentByHandlers p.1 p.2) :
    Orderly (w.step verifier now) := by
  rcases w.step_cases verifier now with same | ⟨listening, -, same⟩ <;> rw [same] at calm ⊢
  · exact h
  · have quiet : .close ∉ w.sent := by
      intro closing
      have ended := h.ended (List.mem_append_left _ closing)
      rw [listening] at ended
      cases ended
    have moved : Orderly { w with inbox := w.inbox.tail, taken := w.taken ++ [(now, w.input)] } :=
      ⟨h.pending, h.ended, h.closed, h.kept⟩
    exact moved.perform quiet (Session.step_closesLast verifier now w.input w.session)
      (calm _ (List.mem_append_right _ (List.mem_singleton_self _)))

theorem Orderly.leave (h : Orderly w) {o : Outbound} (message : o ≠ .close) :
    Orderly (w.leave o) := by
  have same : .close ∈ w.sent ++ [o] ↔ .close ∈ w.sent := by
    rw [List.mem_append, List.mem_singleton, or_iff_left message.symm]
  refine ⟨h.pending, fun closing => h.ended ?_, fun closing => h.closed (same.mp closing),
    h.kept.trans (takeWhile_sublist_append _ _)⟩
  exact List.mem_append.mpr ((List.mem_append.mp closing).imp_left same.mp)

theorem Orderly.send (h : Orderly w) : Orderly w.send := by
  rcases w.send_cases with same | ⟨o, rest, pending, same⟩ <;> rw [same]
  · exact h
  · have among : w.sent ++ w.pending = (w.sent ++ [o]) ++ rest := by
      rw [pending, List.append_assoc, List.singleton_append]
    have ended : .close ∈ (w.sent ++ [o]) ++ rest → w.session.end?.isSome = true :=
      among ▸ h.ended
    obtain ⟨front, back, split, going, closes⟩ := h.pending
    rw [pending] at split
    cases front with
    | nil =>
      obtain rfl : o :: rest = back := split
      obtain ⟨rfl, further⟩ := List.forall_mem_cons.mp closes
      refine ⟨⟨[], rest, rfl, List.not_mem_nil, further⟩, ended, fun _ => further, ?_⟩
      have passed : (w.said ++ [Outbound.close]).filter (· ≠ .close) =
          w.said.filter (· ≠ .close) := by
        rw [List.filter_append]
        exact List.append_nil _
      exact passed ▸ h.kept.trans (takeWhile_sublist_append _ _)
    | cons first front =>
      obtain ⟨rfl, rfl⟩ := List.cons.inj split
      have message : o ≠ .close := fun same => going (same ▸ List.mem_cons_self)
      -- a message is pending, so nothing has requested to close before it
      have quiet : .close ∉ w.sent := by
        intro closing
        exact message (h.closed closing o (pending ▸ List.mem_cons_self))
      have still : .close ∉ w.sent ++ [o] := by
        rw [List.mem_append, List.mem_singleton]
        exact not_or.mpr ⟨quiet, message.symm⟩
      refine ⟨⟨front, back, rfl, fun member => going (List.mem_cons_of_mem _ member), closes⟩,
        ended, fun closing => absurd closing still, ?_⟩
      show ((w.said ++ [o]).filter (· ≠ .close)).Sublist ((w.sent ++ [o]).takeWhile (· ≠ .close))
      have whole : (w.sent ++ [o]).takeWhile (· ≠ .close) = w.sent ++ [o] :=
        List.takeWhile_eq_self_iff.mpr fun o' member =>
          decide_eq_true fun same => still (same ▸ member)
      rw [whole, List.filter_append]
      exact (h.kept.trans (List.takeWhile_sublist _)).append List.filter_sublist

theorem asked_prefix_move (verifier : Verifier) (now : Nat) (w : Socket) (m : Move) :
    w.asked <+: (w.move verifier now m).asked := by
  cases m with
  | reads item =>
    obtain ⟨inbox, reading, same⟩ := w.exists_read_eq item
    show w.asked <+: (w.read item).asked
    rw [same]
  | steps =>
    show w.asked <+: (w.step verifier now).asked
    rcases w.step_cases verifier now with same | ⟨-, -, same⟩ <;> rw [same]
    exact List.prefix_append _ _
  | sends =>
    show w.asked <+: w.send.asked
    rcases w.send_cases with same | ⟨o, rest, -, same⟩ <;> rw [same]
    exact List.prefix_rfl
  | others o => exact List.prefix_rfl
  | writes =>
    obtain ⟨outbox, writing, frames, same⟩ := w.exists_write_eq
    show w.asked <+: w.write.asked
    rw [same]
  | fails =>
    obtain ⟨outbox, writing, same⟩ := w.exists_fail_eq
    show w.asked <+: w.fail.asked
    rw [same]
  | stores store => exact List.prefix_rfl

/-- What was asked of a socket stays asked. -/
theorem asked_prefix_run (verifier : Verifier) (w : Socket) (schedule : List (Nat × Move)) :
    w.asked <+: (w.run verifier schedule).asked := by
  induction schedule generalizing w with
  | nil => exact List.prefix_rfl
  | cons p rest ih => exact (asked_prefix_move verifier p.1 w p.2).trans (ih _)

/-- A socket that was just opened is in order. -/
theorem orderly_opened {table : Table} {timeout now : Nat} {namespaceText : String}
    {query : Dict String} {store : Store}
    (handlers : ∀ p ∈ (opened table timeout now namespaceText query store).asked,
      .close ∉ sentByHandlers p.1 p.2) :
    Orderly (opened table timeout now namespaceText query store) :=
  (orderly_unsent rfl rfl rfl).perform List.not_mem_nil
    (Session.closesLast_start table timeout now namespaceText query)
    (handlers _ (List.mem_singleton_self _))

/-- Along a schedule on which nobody else requests to close, the session does so last. -/
theorem orderly_run (h : Orderly w) {schedule : List (Nat × Move)}
    (others : ∀ p ∈ schedule, p.2 ≠ .others .close)
    (handlers : ∀ p ∈ (w.run verifier schedule).asked, .close ∉ sentByHandlers p.1 p.2) :
    Orderly (w.run verifier schedule) := by
  induction schedule generalizing w with
  | nil => exact h
  | cons p rest ih =>
    obtain ⟨now, m⟩ := p
    obtain ⟨here, later⟩ := List.forall_mem_cons.mp others
    have calm : ∀ p ∈ (w.move verifier now m).asked, .close ∉ sentByHandlers p.1 p.2 :=
      fun p member => handlers p ((asked_prefix_run verifier _ rest).subset member)
    refine ih (w := w.move verifier now m) ?_ later handlers
    cases m with
    | reads item =>
      obtain ⟨inbox, reading, same⟩ := w.exists_read_eq item
      show Orderly (w.read item)
      rw [same]
      exact ⟨h.pending, h.ended, h.closed, h.kept⟩
    | steps => exact h.step now calm
    | sends => exact h.send
    | others o => exact h.leave fun same => here (same ▸ rfl)
    | writes =>
      obtain ⟨outbox, writing, frames, same⟩ := w.exists_write_eq
      show Orderly w.write
      rw [same]
      exact ⟨h.pending, h.ended, h.closed, h.kept⟩
    | fails =>
      obtain ⟨outbox, writing, same⟩ := w.exists_fail_eq
      show Orderly w.fail
      rw [same]
      exact ⟨h.pending, h.ended, h.closed, h.kept⟩
    | stores store => exact ⟨h.pending, h.ended, h.closed, h.kept⟩

/-! ## Frames that hold nothing -/

/-- An idle move changes nothing. -/
theorem move_of_isIdle {m : Move} (idle : m.isIdle = true) (now : Nat) (w : Socket) :
    w.move verifier now m = w := by
  unfold Move.isIdle at idle
  split at idle
  · next f =>
    have empty : (Incoming.frame f).event? = none := Option.isNone_iff_eq_none.mp idle
    show w.read (.frame f) = w
    unfold read
    split
    · next listening =>
      have reading : w.reading = true := (Bool.and_eq_true_iff.mp listening).1
      rw [empty, Option.toList_none, List.append_nil, Incoming.isFrame, ← reading]
    · rfl
  · cases idle

/-- Frames without an event leave no trace, wherever they come in. -/
theorem run_filter_isIdle (verifier : Verifier) (w : Socket) (schedule : List (Nat × Move)) :
    w.run verifier (schedule.filter (!·.2.isIdle)) = w.run verifier schedule := by
  induction schedule generalizing w with
  | nil => rfl
  | cons p rest ih =>
    cases idle : p.2.isIdle with
    | true =>
      have still : w.run verifier (p :: rest) = w.run verifier rest :=
        congrArg (run verifier · rest) (move_of_isIdle idle p.1 w)
      rw [List.filter_cons_of_neg (by simp [idle]), still, ih]
    | false =>
      rw [List.filter_cons_of_pos (by simp [idle])]
      exact ih _

end Socket

end EndpointTree.Channel
