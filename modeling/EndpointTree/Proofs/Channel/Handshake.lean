import EndpointTree.Channel.Session

/-!
# How a handshake ends

A session that waits for a credential keeps nothing of what it ignores: an input
either ends the wait or leaves the very same session behind. So the wait is a
search for the first input that ends it (`Session.handshake_waiting`), and a
failed attempt can neither move the deadline nor spoil a later one.

* `Session.step_waiting` is one step, `Session.run_waiting` a whole run.
* `Inbound.handshake_eq` names the end of every handshake by three things only:
  the first valid credential, the time at which the client leaves, the deadline.
-/

namespace EndpointTree.Channel

namespace Session

/-- The caller's context that an event makes, if it carries a valid credential. -/
def offered? (verifier : Verifier) (r : Requirement) (e : Event) : Option AuthContext :=
  if e.name = authenticateName then credential? verifier r e.data else none

/-- How one input ends the wait for a credential, if it does. -/
def verdict? (verifier : Verifier) (r : Requirement) (deadline now : Nat) :
    Input → Option Handshake
  | .event e => if deadline ≤ now then some .timedOut else (offered? verifier r e).map .authenticated
  | .leave => if deadline ≤ now then some .timedOut else some .closed
  | .pause => if deadline ≤ now then some .timedOut else none

/-- What becomes of a waiting session. -/
def settle (visit : Visit) (r : Requirement) (deadline : Nat) :
    Option Handshake → Session × List Action
  | none => (.waiting visit r deadline, [])
  | some .timedOut =>
    (.ended .timedOut, [.send (.message (unauthorized failedToAuthenticate)), .send .close])
  | some .closed => (.ended .abandoned, [])
  | some (.authenticated auth) =>
    ((dispatch visit auth).1, .send (.message succeed) :: (dispatch visit auth).2)

theorem offered?_eq_some_iff {verifier : Verifier} {r : Requirement} {e : Event}
    {auth : AuthContext} :
    offered? verifier r e = some auth ↔
      e.name = authenticateName ∧ ∃ token claims,
        e.data.member? "token" = some (.string token) ∧ verifier token = .ok claims ∧
          Roles.satisfies r.roles claims.roles = true ∧
          auth = .authenticatedBy token claims := by
  rw [offered?]
  by_cases named : e.name = authenticateName
  · rw [if_pos named, and_iff_right named, credential?]
    constructor
    · intro valid
      split at valid
      · cases valid
      · next token tokenEq =>
        obtain ⟨data, dataEq, textEq⟩ := Option.bind_eq_some_iff.mp tokenEq
        cases data <;> cases textEq
        split at valid
        · cases valid
        · next claims accepted =>
          split at valid
          · next satisfied =>
            exact ⟨token, claims, dataEq, accepted, satisfied, (Option.some.inj valid).symm⟩
          · cases valid
    · intro holds
      rcases holds with ⟨token, claims, dataEq, accepted, satisfied, rfl⟩
      have tokenEq : (e.data.member? "token").bind Json.string? = some token := by
        rw [dataEq]
        rfl
      simp only [tokenEq, accepted, satisfied, if_true]
  · rw [if_neg named]
    constructor
    · intro absurdity
      cases absurdity
    · intro holds
      rcases holds with ⟨named', -⟩
      exact absurd named' named

section Waiting

variable {verifier : Verifier} {visit : Visit} {r : Requirement} {deadline : Nat}

theorem verdict?_of_deadline_le {now : Nat} (late : deadline ≤ now) (input : Input) :
    verdict? verifier r deadline now input = some .timedOut := by
  cases input <;> exact if_pos late

theorem expire_waiting_of_deadline_le {now : Nat} (late : deadline ≤ now) :
    (waiting visit r deadline).expire now = settle visit r deadline (some .timedOut) :=
  if_pos late

theorem expire_waiting_of_lt {now : Nat} (early : now < deadline) :
    (waiting visit r deadline).expire now = (waiting visit r deadline, []) :=
  if_neg (Nat.not_le.mpr early)

/-- One step of a waiting session: the verdict on the input is all that counts. -/
theorem step_waiting (now : Nat) (input : Input) :
    (waiting visit r deadline).step verifier now input =
      settle visit r deadline (verdict? verifier r deadline now input) := by
  rcases Nat.lt_or_ge now deadline with early | late
  · have notLate : ¬ deadline ≤ now := Nat.not_le.mpr early
    cases input with
    | event e =>
      show andThen ((waiting visit r deadline).expire now) (take verifier e) = _
      rw [expire_waiting_of_lt early]
      simp only [verdict?, if_neg notLate, offered?, andThen, take]
      split
      · cases credential? verifier r e.data <;> rfl
      · rfl
    | leave =>
      show andThen ((waiting visit r deadline).expire now) depart = _
      rw [expire_waiting_of_lt early]
      simp only [verdict?, if_neg notLate]
      rfl
    | pause =>
      show (waiting visit r deadline).expire now = _
      rw [expire_waiting_of_lt early]
      simp only [verdict?, if_neg notLate]
      rfl
  · rw [verdict?_of_deadline_le late]
    cases input with
    | event e =>
      show andThen ((waiting visit r deadline).expire now) (take verifier e) = _
      rw [expire_waiting_of_deadline_le late]
      rfl
    | leave =>
      show andThen ((waiting visit r deadline).expire now) depart = _
      rw [expire_waiting_of_deadline_le late]
      rfl
    | pause => exact expire_waiting_of_deadline_le late

theorem handshake?_settle (how : Option Handshake) :
    (settle visit r deadline how).1.handshake? = how := by
  cases how with
  | none => rfl
  | some how => cases how <;> rfl

/-- A handshake is a search: what comes before the first verdict leaves no trace. -/
theorem handshake_waiting (inputs : List (Nat × Input)) :
    (waiting visit r deadline).handshake verifier inputs =
      inputs.findSome? fun p => (verdict? verifier r deadline p.1 p.2).map (p.1, ·) := by
  induction inputs with
  | nil => rfl
  | cons p rest ih =>
    obtain ⟨now, input⟩ := p
    simp only [handshake, step_waiting, handshake?_settle, List.findSome?_cons]
    cases verdict? verifier r deadline now input with
    | none => exact ih
    | some how => rfl

/-- A look at the clock at the deadline ends every handshake that is still on. -/
theorem handshake_withDeadline (inputs : List (Nat × Input)) :
    (waiting visit r deadline).handshake verifier (withDeadline deadline inputs) =
      some (((inputs.takeWhile (·.1 < deadline)).findSome? fun p =>
        (verdict? verifier r deadline p.1 p.2).map (p.1, ·)).getD (deadline, .timedOut)) := by
  rw [handshake_waiting, withDeadline, List.findSome?_append, List.findSome?_cons,
    verdict?_of_deadline_le (Nat.le_refl deadline)]
  cases (inputs.takeWhile (·.1 < deadline)).findSome? fun p =>
    (verdict? verifier r deadline p.1 p.2).map (p.1, ·) <;> rfl

end Waiting

/-- Where times do not fall, what comes before a deadline is what stands in front of it. -/
theorem takeWhile_eq_filter_of_ordered {deadline : Nat} {inputs : List (Nat × Input)}
    (ordered : inputs.Pairwise fun a b => a.1 ≤ b.1) :
    inputs.takeWhile (·.1 < deadline) = inputs.filter (·.1 < deadline) := by
  induction inputs with
  | nil => rfl
  | cons p rest ih =>
    obtain ⟨below, ordered⟩ := List.pairwise_cons.mp ordered
    by_cases early : p.1 < deadline
    · rw [List.takeWhile_cons_of_pos (by simpa using early),
        List.filter_cons_of_pos (by simpa using early), ih ordered]
    · rw [List.takeWhile_cons_of_neg (by simpa using early),
        List.filter_cons_of_neg (by simpa using early), eq_comm, List.filter_eq_nil_iff]
      intro q member
      have := below q member
      simp only [decide_eq_true_eq]
      omega

end Session

namespace Inbound

open Session (Handshake offered? verdict? handshake withDeadline)

variable {verifier : Verifier} {r : Requirement} {timeout start : Nat}

/-- The first valid credential: when it arrives, and the context that it makes. -/
def firstCredential? (verifier : Verifier) (r : Requirement) (i : Inbound) :
    Option (Nat × AuthContext) :=
  i.events.findSome? fun p => (offered? verifier r p.2).map (p.1, ·)

/-- How a handshake ends by what comes in, and at what time. -/
inductive Ends (verifier : Verifier) (r : Requirement) (timeout start : Nat) (i : Inbound) :
    Nat → Handshake → Prop
  /-- The first valid credential is in time, and its own context is the caller's. -/
  | authenticated {t : Nat} {auth : AuthContext} :
    i.firstCredential? verifier r = some (t, auth) → t < timeout →
    Ends verifier r timeout start i (start + t) (.authenticated auth)
  /-- None is, and the client leaves before the deadline. -/
  | closed {c : Nat} :
    (∀ t auth, i.firstCredential? verifier r = some (t, auth) → timeout ≤ t) →
    i.left = some c → c < timeout → Ends verifier r timeout start i (start + c) .closed
  /-- None is, and the client is still there at the deadline. -/
  | timedOut :
    (∀ t auth, i.firstCredential? verifier r = some (t, auth) → timeout ≤ t) →
    (∀ c, i.left = some c → timeout ≤ c) →
    Ends verifier r timeout start i (start + timeout) .timedOut

/-- The end of a handshake, computed from what comes in. -/
def outcome (verifier : Verifier) (r : Requirement) (timeout start : Nat) (i : Inbound) :
    Nat × Handshake :=
  match (i.firstCredential? verifier r).filter (·.1 < timeout), i.left.filter (· < timeout) with
  | some (t, auth), _ => (start + t, .authenticated auth)
  | none, some t => (start + t, .closed)
  | none, none => (start + timeout, .timedOut)

theorem inputs_ordered (i : Inbound) (start : Nat) :
    (i.inputs start).Pairwise fun a b => a.1 ≤ b.1 := by
  refine List.pairwise_append.mpr ⟨?_, ?_, ?_⟩
  · refine List.pairwise_map.mpr (i.ordered.imp fun {a b} le => ?_)
    exact Nat.add_le_add_left le start
  · cases i.left with
    | none => exact List.Pairwise.nil
    | some t => exact List.pairwise_singleton _ _
  · intro a memberA b memberB
    obtain ⟨e, memberE, rfl⟩ := List.mem_map.mp memberA
    obtain ⟨t, leaves, rfl⟩ := Option.map_eq_some_iff.mp (Option.mem_toList.mp memberB)
    exact Nat.add_le_add_left (i.left_last t leaves e memberE) start

/-- Of events in order, the first verdict before the deadline is on the first
valid credential, if that is in time. -/
theorem findSome?_verdict?_events {events : List (Nat × Event)}
    (ordered : events.Pairwise fun a b => a.1 ≤ b.1) :
    ((events.map fun p => (start + p.1, Session.Input.event p.2)).filter
        (·.1 < start + timeout)).findSome?
      (fun p => (verdict? verifier r (start + timeout) p.1 p.2).map (p.1, ·)) =
    ((events.findSome? fun p => (offered? verifier r p.2).map (p.1, ·)).filter
        (·.1 < timeout)).map fun p => (start + p.1, .authenticated p.2) := by
  induction events with
  | nil => rfl
  | cons p rest ih =>
    obtain ⟨t, e⟩ := p
    obtain ⟨below, tail⟩ := List.pairwise_cons.mp ordered
    by_cases early : t < timeout
    · have notLate : ¬ start + timeout ≤ start + t := by omega
      rw [List.map_cons, List.filter_cons_of_pos (by simpa using early),
        List.findSome?_cons, List.findSome?_cons, ih tail]
      simp only [verdict?, if_neg notLate]
      cases offered? verifier r e with
      | none => rfl
      | some auth => simp [Option.filter, early]
    · -- everything from here on arrives too late, so neither side finds anything
      have allLate : ∀ q ∈ (t, e) :: rest, timeout ≤ q.1 := by
        intro q member
        rcases List.mem_cons.mp member with rfl | member
        · exact Nat.not_lt.mp early
        · exact Nat.le_trans (Nat.not_lt.mp early) (below q member)
      have none_left : (((t, e) :: rest).map fun p =>
          (start + p.1, Session.Input.event p.2)).filter (·.1 < start + timeout) = [] := by
        rw [List.filter_eq_nil_iff]
        intro q member
        obtain ⟨p, memberP, rfl⟩ := List.mem_map.mp member
        have := allLate p memberP
        simp only [decide_eq_true_eq]
        omega
      rw [none_left, List.findSome?_nil, eq_comm, Option.map_eq_none_iff,
        Option.filter_eq_none_iff]
      intro found foundEq
      obtain ⟨q, memberQ, foundQ⟩ := List.exists_of_findSome?_eq_some foundEq
      obtain ⟨auth, -, rfl⟩ := Option.map_eq_some_iff.mp foundQ
      have := allLate q memberQ
      simp only [decide_eq_true_eq]
      omega

/-- The news that the client has left is a verdict if it comes before the deadline. -/
theorem findSome?_verdict?_left (left : Option Nat) :
    ((left.map fun t => (start + t, Session.Input.leave)).toList.filter
        (·.1 < start + timeout)).findSome?
      (fun p => (verdict? verifier r (start + timeout) p.1 p.2).map (p.1, ·)) =
    (left.filter (· < timeout)).map fun t => (start + t, .closed) := by
  cases left with
  | none => rfl
  | some t =>
    by_cases early : t < timeout
    · have notLate : ¬ start + timeout ≤ start + t := by omega
      simp [Option.filter, early, verdict?]
    · simp [Option.filter, early]

/-- The end of a handshake and its time are those that the inbound sequence has. -/
theorem handshake_eq (visit : Visit) (i : Inbound) :
    (Session.waiting visit r (start + timeout)).handshake verifier
        (withDeadline (start + timeout) (i.inputs start)) =
      some (i.outcome verifier r timeout start) := by
  rw [Session.handshake_withDeadline,
    Session.takeWhile_eq_filter_of_ordered (i.inputs_ordered start), inputs,
    List.filter_append, List.findSome?_append, findSome?_verdict?_events i.ordered,
    findSome?_verdict?_left, outcome, firstCredential?]
  cases (i.events.findSome? fun p => (offered? verifier r p.2).map (p.1, ·)).filter
    (·.1 < timeout) with
  | some found => rfl
  | none => cases i.left.filter (· < timeout) <;> rfl

theorem ends_outcome (verifier : Verifier) (r : Requirement) (timeout start : Nat)
    (i : Inbound) :
    Ends verifier r timeout start i (i.outcome verifier r timeout start).1
      (i.outcome verifier r timeout start).2 := by
  rw [outcome]
  cases timely : (i.firstCredential? verifier r).filter (·.1 < timeout) with
  | some found =>
    obtain ⟨first, early⟩ := Option.filter_eq_some_iff.mp timely
    exact .authenticated first (of_decide_eq_true early)
  | none =>
    have late : ∀ t auth, i.firstCredential? verifier r = some (t, auth) → timeout ≤ t := by
      intro t auth first
      have := Option.filter_eq_none_iff.mp timely (t, auth) first
      simpa using this
    cases gone : i.left.filter (· < timeout) with
    | some c =>
      obtain ⟨leaves, early⟩ := Option.filter_eq_some_iff.mp gone
      exact .closed late leaves (of_decide_eq_true early)
    | none =>
      refine .timedOut late fun c leaves => ?_
      have := Option.filter_eq_none_iff.mp gone c leaves
      simpa using this

theorem Ends.eq_outcome {i : Inbound} {time : Nat} {how : Handshake}
    (ends : Ends verifier r timeout start i time how) :
    i.outcome verifier r timeout start = (time, how) := by
  have filtered_none (late : ∀ t auth,
      i.firstCredential? verifier r = some (t, auth) → timeout ≤ t) :
      (i.firstCredential? verifier r).filter (·.1 < timeout) = none := by
    refine Option.filter_eq_none_iff.mpr fun found first => ?_
    simpa using late found.1 found.2 first
  cases ends with
  | authenticated first early => simp [outcome, first, Option.filter, early]
  | @closed c late leaves early =>
    have gone : i.left.filter (· < timeout) = some c := by simp [leaves, Option.filter, early]
    simp only [outcome, filtered_none late, gone]
  | timedOut late stays =>
    have still : i.left.filter (· < timeout) = none := by
      refine Option.filter_eq_none_iff.mpr fun c leaves => ?_
      simpa using stays c leaves
    simp only [outcome, filtered_none late, still]

/-- Every handshake ends, in the way and at the time that the first valid
credential, the client's leaving and the deadline fix; nothing else that comes in
has any influence, however much of it there is and whenever it comes. -/
theorem handshake_ends_exactly (verifier : Verifier) (r : Requirement) (visit : Visit)
    (timeout start : Nat) (i : Inbound) :
    let result := (Session.waiting visit r (start + timeout)).handshake verifier
      (withDeadline (start + timeout) (i.inputs start))
    result ≠ none ∧
      (∀ time how, result = some (time, how) ↔ Ends verifier r timeout start i time how) ∧
      ∀ (visit' : Visit) (i' : Inbound),
        i'.firstCredential? verifier r = i.firstCredential? verifier r → i'.left = i.left →
        (Session.waiting visit' r (start + timeout)).handshake verifier
          (withDeadline (start + timeout) (i'.inputs start)) = result := by
  intro result
  have resultEq : result = some (i.outcome verifier r timeout start) := handshake_eq visit i
  refine ⟨?_, fun time how => ⟨fun ended => ?_, fun ends => ?_⟩, fun visit' i' first left => ?_⟩
  · rw [resultEq]
    exact Option.some_ne_none _
  · have outcomeEq := Option.some.inj (resultEq.symm.trans ended)
    have ends := ends_outcome verifier r timeout start i
    rwa [outcomeEq] at ends
  · rw [resultEq, ends.eq_outcome]
  · rw [handshake_eq, resultEq, outcome, first, left, ← outcome]

end Inbound

end EndpointTree.Channel
