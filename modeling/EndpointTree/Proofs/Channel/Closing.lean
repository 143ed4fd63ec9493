import EndpointTree.Proofs.Channel.Transcript

/-!
# Requests to close

A session requests to close where it refuses a connection and where the client has run out
of time, and then it ends. Handlers may request it at any time.

* `Session.step_closesLast`: the request is the last thing that a step asks for, and
  `Session.closes_of_step_ends`: an end that the client did not bring about comes with it.
* `mem_sent_performAll`: what is sent is sent by the session or by one of its handlers.
-/

namespace EndpointTree.Channel

namespace Session

/-- A step requests to close as the last thing if at all, and only where the session ends. -/
def ClosesLast (step : Session × List Action) : Prop :=
  ∃ front, .send .close ∉ front ∧
    (step.2 = front ∨ step.1.end?.isSome = true ∧ step.2 = front ++ [.send .close])

section ClosesLast

variable {verifier : Verifier}

theorem closesLast_refuse : ClosesLast refuse :=
  ⟨[.send (.message (unauthorized notAvailable))], by simp, .inr ⟨rfl, rfl⟩⟩

theorem closesLast_dispatch (visit : Visit) (auth : AuthContext) :
    ClosesLast (dispatch visit auth) :=
  ⟨_, by simp [dispatch, Visit.action], .inl rfl⟩

theorem closesLast_start (table : Table) (timeout now : Nat) (namespaceText : String)
    (query : Dict String) : ClosesLast (start table timeout now namespaceText query) := by
  unfold start
  split
  · exact closesLast_refuse
  · split
    · exact closesLast_refuse
    · dsimp only
      split
      · exact ⟨_, by simp, .inl rfl⟩
      · exact closesLast_dispatch _ .anonymous

theorem closesLast_settle (visit : Visit) (r : Requirement) (deadline : Nat)
    (how : Option Handshake) : ClosesLast (settle visit r deadline how) := by
  cases how with
  | none => exact ⟨[], List.not_mem_nil, .inl rfl⟩
  | some how =>
    cases how with
    | authenticated auth => exact ⟨_, by simp [settle, dispatch, Visit.action], .inl rfl⟩
    | timedOut =>
      exact ⟨[.send (.message (unauthorized failedToAuthenticate))], by simp, .inr ⟨rfl, rfl⟩⟩
    | closed => exact ⟨[], List.not_mem_nil, .inl rfl⟩

theorem step_closesLast (verifier : Verifier) (now : Nat) (input : Input) (s : Session) :
    ClosesLast (s.step verifier now input) := by
  have silent (s : Session) : ClosesLast (s, []) := ⟨[], List.not_mem_nil, .inl rfl⟩
  cases s with
  | waiting visit r deadline =>
    rw [step_waiting]
    exact closesLast_settle visit r deadline _
  | dispatched visit =>
    cases input with
    | event e =>
      show ClosesLast (take verifier e (dispatched visit))
      rw [take]
      split
      · exact silent _
      · exact ⟨_, by simp [Visit.action], .inl rfl⟩
    | leave => exact ⟨[visit.action .disconnect .null none], by simp [Visit.action], .inl rfl⟩
    | pause => exact silent _
  | ended how => cases input <;> exact silent _

/-- A session that has ended takes no further step. -/
theorem step_of_ended (verifier : Verifier) {s : Session} (ended : s.end?.isSome = true)
    (now : Nat) (input : Input) : s.step verifier now input = (s, []) := by
  cases s with
  | waiting visit r deadline => cases ended
  | dispatched visit => cases ended
  | ended how => cases input <;> rfl

/-- A client that leaves ends the session. -/
theorem end?_leave (now : Nat) (s : Session) : (s.leave now).1.end?.isSome = true := by
  cases s with
  | waiting visit r deadline =>
    rw [leave, expire]
    split <;> rfl
  | dispatched visit => rfl
  | ended how => rfl

/-- A session that refuses a connection requests to close. -/
theorem closes_of_start_ends {table : Table} {timeout now : Nat} {namespaceText : String}
    {query : Dict String}
    (ends : (start table timeout now namespaceText query).1.end?.isSome = true) :
    .send .close ∈ (start table timeout now namespaceText query).2 := by
  have refused : .send .close ∈ refuse.2 := List.mem_cons_of_mem _ (List.mem_singleton_self _)
  unfold start at ends ⊢
  split
  · exact refused
  · next found =>
    rw [found] at ends
    dsimp only at ends ⊢
    split
    · exact refused
    · next access =>
      rw [access] at ends
      dsimp only at ends
      split at ends <;> cases ends

/-- A session that ends before its client has left requests to close. -/
theorem closes_of_step_ends {now : Nat} {input : Input} {s : Session} (listening : s.end? = none)
    (stays : input ≠ .leave) (ends : (s.step verifier now input).1.end?.isSome = true) :
    .send .close ∈ (s.step verifier now input).2 := by
  cases s with
  | waiting visit r deadline =>
    rw [step_waiting] at ends ⊢
    rcases Nat.lt_or_ge now deadline with early | late
    · have notLate := Nat.not_le.mpr early
      cases input with
      | event e =>
        simp only [verdict?, if_neg notLate] at ends
        cases valid : offered? verifier r e <;> rw [valid] at ends <;> cases ends
      | leave => exact absurd rfl stays
      | pause =>
        simp only [verdict?, if_neg notLate] at ends
        cases ends
    · rw [verdict?_of_deadline_le late]
      exact List.mem_cons_of_mem _ (List.mem_singleton_self _)
  | dispatched visit =>
    cases input with
    | event e =>
      have goesOn : ((dispatched visit).step verifier now (.event e)).1 = .dispatched visit := by
        show (take verifier e (dispatched visit)).1 = _
        rw [take]
        split <;> rfl
      rw [goesOn] at ends
      cases ends
    | leave => exact absurd rfl stays
    | pause => cases ends
  | ended how => cases listening

end ClosesLast

end Session

/-- What the handlers among actions send, when the actions are done at a store. -/
def sentByHandlers (store : Store) (actions : List Action) : List Outbound :=
  (performAll store (actions.filter (·.isRun))).sent

theorem sent_foldl_perform (actions : List Action) (e : Effects) :
    (actions.foldl perform e).sent =
      e.sent ++ (actions.foldl perform { e with sent := [] }).sent := by
  have silent : e = Effects.behind e.sent { e with sent := [] } := by
    simp only [Effects.behind, List.append_nil]
  have same := congrArg Effects.sent
    (Effects.foldl_perform_behind e.sent { e with sent := [] } actions)
  rwa [← silent] at same

/-- What a session asks to be sent is sent. -/
theorem mem_sent_of_asked {o : Outbound} {actions : List Action} (asked : .send o ∈ actions)
    (store : Store) : o ∈ (performAll store actions).sent := by
  obtain ⟨front, back, rfl⟩ := List.append_of_mem asked
  rw [performAll, List.foldl_append, List.foldl_cons, sent_foldl_perform]
  exact List.mem_append_left _ (List.mem_append_right _ (List.mem_singleton_self o))

/-- What is sent is sent by the session itself or by a handler. -/
theorem mem_sent_performAll {o : Outbound} {store : Store} {actions : List Action}
    (member : o ∈ (performAll store actions).sent) :
    .send o ∈ actions ∨ o ∈ sentByHandlers store actions := by
  unfold sentByHandlers performAll at *
  generalize ({ store } : Effects) = e at member ⊢
  induction actions generalizing e with
  | nil => exact .inr member
  | cons a rest ih =>
    cases a with
    | run stage handlers input context =>
      rcases ih _ member with asked | sent
      · exact .inl (List.mem_cons_of_mem _ asked)
      · exact .inr sent
    | send first =>
      -- what was sent before does not bear on what the rest sends
      have kept : (Action.send first :: rest).filter (·.isRun) = rest.filter (·.isRun) := rfl
      rw [List.foldl_cons, sent_foldl_perform] at member
      rw [kept, sent_foldl_perform]
      rcases List.mem_append.mp member with before | further
      · rcases List.mem_append.mp before with before | here
        · exact .inr (List.mem_append_left _ before)
        · obtain rfl := List.mem_singleton.mp here
          exact .inl List.mem_cons_self
      · rcases ih { e with sent := [] } further with asked | sent
        · exact .inl (List.mem_cons_of_mem _ asked)
        · exact .inr (List.mem_append_right _ sent)

end EndpointTree.Channel
