import EndpointTree.Proofs.Channel.Handshake
import EndpointTree.Proofs.Gate
import EndpointTree.Proofs.Http.PlainText
import EndpointTree.Redaction

/-!
# One requirement at three points

A requirement is enforced at the gate, for each field of an answer, and in the handshake of
a channel, each time by code of its own, and the token reaches the first two in a header
and the third in an event. Without policies of its own the requirement asks the same of a
token at all three.

* `Requirement.MetBy` is what it asks for.
* `Token.carries_iff`: a header carries a plain token and no other.
* `Enforcement.Agree` puts the three decisions and the callers that they make side by side,
  and `Enforcement.agree_of_metBy` is the one reason for it.
-/

namespace EndpointTree

open Channel (Session Visit authenticateName route?)
open Channel.Session (credential? offered? waiting)

namespace Token

/-- A text that a header can carry as a token: plain, and without blanks around it. -/
structure IsPlain (token : String) : Prop where
  nonempty : token ≠ ""
  plain : ∀ c ∈ token.toList, Http.IsPlain c
  starts : ∀ c ∈ token.toList.head?, c ≠ ' ' ∧ c ≠ '\t'
  ends : ∀ c ∈ token.toList.getLast?, c ≠ ' ' ∧ c ≠ '\t'

theorem IsPlain.trim_eq {token : String} (plain : IsPlain token) :
    Text.trim token.toList = token.toList := by
  refine Text.trim_eq_self (fun c first => ?_) fun c last => ?_
  · obtain ⟨notSpace, notTab⟩ := plain.starts c first
    exact (plain.plain c (List.mem_of_mem_head? first)).isBlank_eq_false notSpace notTab
  · obtain ⟨notSpace, notTab⟩ := plain.ends c last
    exact (plain.plain c (List.mem_of_mem_getLast? last)).isBlank_eq_false notSpace notTab

/-- The value of an `Authorization` field with a token. -/
def headerValue (token : String) : List UInt8 := ("Bearer " ++ token).toUTF8.toList

/-- A plain token can be sent as it is. -/
theorem plainText?_headerValue {token : String} (plain : IsPlain token) :
    Http.plainText? (headerValue token) = some ("Bearer " ++ token) := by
  refine Http.plainText?_toUTF8 fun c member => ?_
  rw [String.toList_append] at member
  rcases List.mem_append.mp member with scheme | member
  · have plainScheme : "Bearer ".toList.all (fun c => decide (Http.IsPlain c)) = true := by decide
    exact of_decide_eq_true (List.all_eq_true.mp plainScheme c scheme)
  · exact plain.plain c member

/-- A header with a plain token carries it, and no other. -/
theorem carries_iff {headers : Http.Headers} {token token' : String} (plain : IsPlain token)
    (field : headers.get? "authorization" = some (headerValue token)) :
    Carries headers token' ↔ token' = token := by
  have nonempty : token.toList ≠ [] := fun empty => plain.nonempty (String.toList_eq_nil_iff.mp empty)
  constructor
  · rintro ⟨bytes, value, rest, field', read, split, -, rfl⟩
    rw [field, Option.some.injEq] at field'
    rw [← field', plainText?_headerValue plain, Option.some.injEq] at read
    rw [← read, String.toList_append] at split
    rw [← List.append_cancel_left split, plain.trim_eq, String.ofList_toList]
  · rintro rfl
    refine ⟨_, _, token'.toList, field, plainText?_headerValue plain, String.toList_append, ?_, ?_⟩
    · rwa [plain.trim_eq]
    · rw [plain.trim_eq, String.ofList_toList]

end Token

namespace Requirement

/-- What a requirement asks of a token, whatever policies it has: where it asks for
authentication, the token is valid and grants one of the roles. -/
def MetBy (verifier : Verifier) (r : Requirement) (token : String) : Prop :=
  r.auth = true → ∃ claims, verifier token = .ok claims ∧
    Roles.satisfies r.roles claims.roles = true

end Requirement

namespace Enforcement

variable {verifier : Verifier} {r : Requirement} {token : String} {headers : Http.Headers}

/-- A request meets the roles where its token is verified and has them. -/
theorem presents_iff_exists (plain : Token.IsPlain token)
    (field : headers.get? "authorization" = some (Token.headerValue token)) :
    Policy.Presents verifier r.roles headers ↔
      ∃ claims, verifier token = .ok claims ∧ Roles.satisfies r.roles claims.roles = true := by
  constructor
  · rintro ⟨token', claims, carried, accepted, satisfied⟩
    rw [Token.carries_iff plain field] at carried
    exact ⟨claims, carried ▸ accepted, satisfied⟩
  · rintro ⟨claims, accepted, satisfied⟩
    exact ⟨token, claims, (Token.carries_iff plain field).mpr rfl, accepted, satisfied⟩

/-- Whatever the built-in policy decides, it leaves the caller that the header makes. -/
theorem builtin_check_auth (verifier : Verifier) (ctx : PolicyContext) :
    (Policy.builtin.check verifier ctx).2.auth = Policy.identify verifier ctx.headers := by
  simp only [Policy.builtin]
  split
  · split
    · rfl
    · split <;> rfl
  · rfl

/-- A requirement admits the caller whose token meets it. -/
theorem admits_iff_metBy (plain : Token.IsPlain token)
    (field : headers.get? "authorization" = some (Token.headerValue token)) :
    r.admits (Policy.identify verifier headers) = true ↔ r.MetBy verifier token := by
  rw [Requirement.MetBy, ← presents_iff_exists plain field, Policy.presents_iff,
    Requirement.admits]
  cases r.auth <;> simp

/-- Without further policies, the gate lets in just those who meet the requirement. -/
theorem authorize_iff_metBy (alone : r.policies = [.builtin]) {table : AuthTable}
    {request : Gate.Request} (entry : table request.method = .required r)
    (plain : Token.IsPlain token)
    (field : request.headers.get? "authorization" = some (Token.headerValue token))
    {auth : AuthContext} :
    Gate.authorize verifier table request = .authorized auth ↔
      r.MetBy verifier token ∧ auth = Policy.identify verifier request.headers := by
  rw [Gate.authorize_iff_admits alone entry, admits_iff_metBy plain field]

/-- The event that offers a token. -/
def offer (token : String) : Channel.Event := ⟨authenticateName, .object [("token", .string token)]⟩

theorem offered?_offer (verifier : Verifier) (r : Requirement) (token : String) :
    offered? verifier r (offer token) = credential? verifier r (offer token).data := if_pos rfl

/-- An offer is taken where its token is verified and has the roles. -/
theorem credential?_offer_eq_some_iff {auth : AuthContext} :
    credential? verifier r (offer token).data = some auth ↔
      ∃ claims, verifier token = .ok claims ∧ Roles.satisfies r.roles claims.roles = true ∧
        auth = .authenticatedBy token claims := by
  rw [← offered?_offer, Channel.Session.offered?_eq_some_iff]
  constructor
  · rintro ⟨-, _, claims, same, accepted, satisfied, rfl⟩
    cases same
    exact ⟨claims, accepted, satisfied, rfl⟩
  · rintro ⟨claims, accepted, satisfied, rfl⟩
    exact ⟨rfl, token, claims, rfl, accepted, satisfied, rfl⟩

/-- A handshake succeeds just for those who meet the requirement. -/
theorem channel_iff_metBy :
    (r.auth = false ∨ ∃ auth, credential? verifier r (offer token).data = some auth) ↔
      r.MetBy verifier token := by
  simp only [credential?_offer_eq_some_iff, Requirement.MetBy]
  cases r.auth with
  | false => simp
  | true =>
    constructor
    · rintro (absurdity | ⟨_, claims, accepted, satisfied, -⟩) _
      · cases absurdity
      · exact ⟨claims, accepted, satisfied⟩
    · intro met
      obtain ⟨claims, accepted, satisfied⟩ := met rfl
      exact .inr ⟨_, claims, accepted, satisfied, rfl⟩

/-- A token that is offered in time ends the wait for a credential, if it does. -/
theorem handshake_offer (visit : Visit) {deadline now : Nat} (early : now < deadline) :
    (waiting visit r deadline).handshake verifier [(now, .event (offer token))] =
      (credential? verifier r (offer token).data).map fun auth => (now, .authenticated auth) := by
  rw [Channel.Session.handshake_waiting, List.findSome?_cons, Channel.Session.verdict?,
    if_neg (Nat.not_le.mpr early), offered?_offer]
  cases credential? verifier r (offer token).data <;> rfl

/-- The gate, a field and a handshake make the same of a token under a requirement. -/
structure Agree (verifier : Verifier) (r : Requirement) (token : String) (gate : Gate.Decision)
    (field : Bool) : Prop where
  gate_iff_field : (∃ auth, gate = .authorized auth) ↔ field = true
  field_iff_channel : field = true ↔
    r.auth = false ∨ ∃ auth, credential? verifier r (offer token).data = some auth
  /-- The gate and the handshake make the same caller, of the token and its claims. -/
  same_caller : r.auth = true → ∀ auth,
    gate = .authorized auth ↔ credential? verifier r (offer token).data = some auth
  caller : ∀ auth, credential? verifier r (offer token).data = some auth →
    ∃ claims, verifier token = .ok claims ∧
      auth = { token := some token, claims := some claims, authenticated := true,
               roles := claims.roles }
  handshake : ∀ (visit : Visit) (deadline now : Nat), now < deadline →
    (waiting visit r deadline).handshake verifier [(now, .event (offer token))] =
      (credential? verifier r (offer token).data).map fun auth => (now, .authenticated auth)
  /-- Roles alone restrict nothing, and a channel does not even ask for the token. -/
  roles_alone : r.auth = false → (∃ auth, gate = .authorized auth) ∧ field = true ∧
    ∀ table timeout now namespaceText query route params,
      route? table namespaceText = some (route, params) → route.access = .required r →
        Session.start table timeout now namespaceText query =
          Session.dispatch (.ofRoute route params query) .anonymous
  /-- An empty list of roles asks for none. -/
  empty_list : r.roles = some [] → ∀ claims, verifier token = .ok claims →
    (∃ auth, gate = .authorized auth) ∧ field = true ∧
      ∃ auth, credential? verifier r (offer token).data = some auth
  /-- Any other asks a token without roles for too much. -/
  roleless : r.auth = true → ∀ role more, r.roles = some (role :: more) →
    ∀ claims, verifier token = .ok claims → claims.roles = [] →
      (¬ ∃ auth, gate = .authorized auth) ∧ field = false ∧
        credential? verifier r (offer token).data = none

/-- A token without roles does not do where one is asked for. -/
theorem not_accepts_of_roleless {role : String} {more : List String}
    (listed : r.roles = some (role :: more)) {claims : Claims}
    (accepted : verifier token = .ok claims) (roleless : claims.roles = []) :
    ¬ ∃ claims, verifier token = .ok claims ∧ Roles.satisfies r.roles claims.roles = true := by
  rintro ⟨claims', accepted', satisfied⟩
  obtain rfl : claims = claims' := Except.ok.inj (accepted.symm.trans accepted')
  rw [listed, roleless] at satisfied
  simp [Roles.satisfies, Roles.meets] at satisfied

/-- Where no credentials are asked for, a session is dispatched at once. -/
theorem start_of_free {table : Channel.Table} {timeout now : Nat} {namespaceText : String}
    {query : Dict String} {route : Channel.Route} {params : Dict String}
    (found : route? table namespaceText = some (route, params))
    (entry : route.access = .required r) (free : r.auth = false) :
    Session.start table timeout now namespaceText query =
      Session.dispatch (.ofRoute route params query) .anonymous := by
  simp only [Session.start, found, entry, free, Bool.false_eq_true, if_false]

/-- What decides like `Requirement.MetBy`, and makes the caller of the token, agrees. -/
theorem agree_of_metBy {gate : Gate.Decision} {field : Bool}
    (decides : (∃ auth, gate = .authorized auth) ↔ r.MetBy verifier token)
    (admits : field = true ↔ r.MetBy verifier token)
    (identifies : ∀ auth claims, gate = .authorized auth → verifier token = .ok claims →
      auth = .authenticatedBy token claims) :
    Agree verifier r token gate field := by
  refine {
    gate_iff_field := decides.trans admits.symm
    field_iff_channel := admits.trans channel_iff_metBy.symm
    same_caller := fun asks auth => ?same_caller
    caller := fun auth valid => ?caller
    handshake := fun visit _ _ early => handshake_offer visit early
    roles_alone := fun free => ?roles_alone
    empty_list := fun noneListed claims accepted => ?empty_list
    roleless := fun asks role more listed claims accepted roleless => ?roleless }
  case same_caller =>
    constructor
    · intro authorized
      obtain ⟨claims, accepted, satisfied⟩ := decides.mp ⟨auth, authorized⟩ asks
      exact credential?_offer_eq_some_iff.mpr
        ⟨claims, accepted, satisfied, identifies auth claims authorized accepted⟩
    · intro valid
      obtain ⟨claims, accepted, satisfied, rfl⟩ := credential?_offer_eq_some_iff.mp valid
      obtain ⟨auth, authorized⟩ := decides.mpr fun _ => ⟨claims, accepted, satisfied⟩
      rwa [identifies auth claims authorized accepted] at authorized
  case caller =>
    obtain ⟨claims, accepted, -, rfl⟩ := credential?_offer_eq_some_iff.mp valid
    exact ⟨claims, accepted, rfl⟩
  case roles_alone =>
    have met : r.MetBy verifier token := fun asks => Bool.noConfusion (free.symm.trans asks)
    exact ⟨decides.mpr met, admits.mpr met,
      fun _ _ _ _ _ _ _ found entry => start_of_free found entry free⟩
  case empty_list =>
    have satisfied : Roles.satisfies r.roles claims.roles = true := by
      rw [noneListed]
      rfl
    have met : r.MetBy verifier token := fun _ => ⟨claims, accepted, satisfied⟩
    exact ⟨decides.mpr met, admits.mpr met, _,
      credential?_offer_eq_some_iff.mpr ⟨claims, accepted, satisfied, rfl⟩⟩
  case roleless =>
    have refused := not_accepts_of_roleless listed accepted roleless
    have notMet : ¬ r.MetBy verifier token := fun met => refused (met asks)
    refine ⟨fun authorized => notMet (decides.mp authorized), ?_, ?_⟩
    · exact Bool.eq_false_iff.mpr fun stays => notMet (admits.mp stays)
    · refine Option.eq_none_iff_forall_ne_some.mpr fun auth valid => ?_
      obtain ⟨claims, accepted, satisfied, -⟩ := credential?_offer_eq_some_iff.mp valid
      exact refused ⟨claims, accepted, satisfied⟩

/-- Wherever a requirement without policies of its own is enforced, a plain token is
accepted or refused alike, in a header as in an event. -/
theorem points_agree {table fields : AuthTable} {request : Gate.Request}
    {ctx : PolicyContext} {m : AccessMethod} (alone : r.policies = [.builtin])
    (plain : Token.IsPlain token) (entry : table request.method = .required r)
    (fieldEntry : fields m = .required r)
    (header : request.headers.get? "authorization" = some (Token.headerValue token))
    (same : ctx.headers = request.headers) :
    Agree verifier r token (Gate.authorize verifier table request)
      (Redaction.fieldAllowed fields m (Policy.builtin.check verifier ctx).2.auth) := by
  have decision (auth : AuthContext) := @authorize_iff_metBy verifier r token alone table request
    entry plain header auth
  refine agree_of_metBy ?_ ?_ fun auth claims authorized accepted => ?_
  · constructor
    · rintro ⟨auth, authorized⟩
      exact ((decision auth).mp authorized).1
    · intro met
      exact ⟨_, (decision _).mpr ⟨met, rfl⟩⟩
  · rw [builtin_check_auth, same, Redaction.fieldAllowed, fieldEntry]
    exact admits_iff_metBy plain header
  · rw [((decision auth).mp authorized).2]
    have carried := (Token.carries_iff plain header).mpr rfl
    exact Policy.identify_of_carries carried accepted

theorem key_is_accepted_everywhere :
    let claims : Claims := { roles := ["staff"] }
    let verifier : Verifier := fun token =>
      if token = "key" then .ok claims else .error .notReadable
    let r := Requirement.withPolicies true (some ["staff", "admin"]) []
    let request : Gate.Request :=
      ⟨.get, "/notes", .empty, .empty, [("authorization", Token.headerValue "key")]⟩
    let caller : AuthContext := ⟨some "key", some claims, true, ["staff"]⟩
    Gate.authorize verifier (fun _ => .required r) request = .authorized caller ∧
      Redaction.fieldAllowed (fun _ => .required r) .realTime
        (Policy.builtin.check verifier (Gate.startContext r request)).2.auth = true ∧
      credential? verifier r (offer "key").data = some caller := by
  intro claims verifier r request caller
  have plainKey : "key".toList.all (fun c => decide (Http.IsPlain c)) = true := by decide
  have plain : Token.IsPlain "key" :=
    ⟨by decide, fun c member => of_decide_eq_true (List.all_eq_true.mp plainKey c member),
      by rintro _ ⟨⟩; decide, by rintro _ ⟨⟩; decide⟩
  have agree : Agree verifier r "key" _ _ :=
    @points_agree verifier r "key" (fun _ => .required r) (fun _ => .required r) request
      (Gate.startContext r request) .realTime rfl plain rfl rfl rfl rfl
  have valid : credential? verifier r (offer "key").data = some caller :=
    credential?_offer_eq_some_iff.mpr ⟨claims, rfl, by decide, rfl⟩
  exact ⟨(agree.same_caller rfl caller).mpr valid,
    agree.field_iff_channel.mpr (.inr ⟨caller, valid⟩), valid⟩

end Enforcement

end EndpointTree
