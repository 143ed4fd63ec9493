import EndpointTree.Proofs.Channel.Handshake
import EndpointTree.Proofs.Gate
import EndpointTree.Proofs.Redaction

/-!
# Privilege

A caller who owns more roles is let in wherever one with fewer of them is, and is denied
fewer fields. So what the lesser caller sees of a value is always what is left of the
other's view once it is redacted for the lesser caller as well.

* `Requirement.admits_mono` is the one reason for it, at the gate as well as for fields.
* `Redaction.strip_strip_of_subset`: of two redactions the stronger one decides.
* `Inbound.firstCredential?_of_raised`: a handshake with a wider token ends no later.
-/

namespace EndpointTree

open Channel (Event Inbound Session)
open Channel.Session (credential? offered? offered?_eq_some_iff waiting withDeadline)

/-! ## More and less privileged callers -/

/-- The second caller is authenticated if the first is, and owns all of its roles. -/
structure AuthContext.Below (a b : AuthContext) : Prop where
  authenticated : a.authenticated = true → b.authenticated = true
  roles : a.roles ⊆ b.roles

/-- A caller with more roles is above one with fewer. -/
theorem AuthContext.below_authenticatedBy {claims wider : Claims}
    (roles : claims.roles ⊆ wider.roles) (token token' : String) :
    (AuthContext.authenticatedBy token claims).Below (.authenticatedBy token' wider) :=
  ⟨fun _ => rfl, roles⟩

/-- Further roles meet whatever fewer roles meet. -/
theorem Roles.satisfies_mono {required : Option (List String)} {owned more : List String}
    (subset : owned ⊆ more) (satisfied : satisfies required owned = true) :
    satisfies required more = true := by
  cases required with
  | none => rfl
  | some required =>
    unfold satisfies meets at satisfied ⊢
    rw [Bool.or_eq_true, List.any_eq_true] at satisfied ⊢
    refine satisfied.imp_right fun owns => ?_
    obtain ⟨role, listed, owned⟩ := owns
    exact ⟨role, listed, List.contains_iff_mem.mpr (subset (List.contains_iff_mem.mp owned))⟩

/-- Whoever is admitted stays so with more privilege. -/
theorem Requirement.admits_mono {r : Requirement} {a b : AuthContext} (below : a.Below b)
    (admitted : r.admits a = true) : r.admits b = true := by
  unfold admits at admitted ⊢
  rw [Bool.or_eq_true, Bool.and_eq_true] at admitted ⊢
  refine admitted.imp_right fun holds => ?_
  obtain ⟨authenticated, satisfied⟩ := holds
  exact ⟨below.authenticated authenticated, Roles.satisfies_mono below.roles satisfied⟩

/-! ## Fields -/

namespace Redaction

variable {denied more : List String}

/-- A field is not taken from a caller with more rights. -/
theorem fieldAllowed_mono {table : AuthTable} {m : AccessMethod} {a b : AuthContext}
    (below : a.Below b) (allowed : fieldAllowed table m a = true) :
    fieldAllowed table m b = true := by
  rw [fieldAllowed] at allowed ⊢
  cases entry : table m with
  | forbidden =>
    rw [entry] at allowed
    cases allowed
  | required r =>
    rw [entry] at allowed
    exact Requirement.admits_mono below allowed

/-- With more rights, fewer fields are denied. -/
theorem deniedFields_sublist {a b : AuthContext} (below : a.Below b)
    (fields : List (String × AuthTable)) (m : AccessMethod) :
    (deniedFields fields m b).Sublist (deniedFields fields m a) := by
  refine List.Sublist.map _ (List.monotone_filter_right fields fun field deniedToMore => ?_)
  rw [Bool.not_eq_true'] at deniedToMore ⊢
  refine Bool.eq_false_iff.mpr fun allowed => ?_
  rw [fieldAllowed_mono below allowed] at deniedToMore
  cases deniedToMore

mutual

/-- What is deleted with fewer fields denied may be deleted with more. -/
theorem Deletes.mono (subset : denied ⊆ more) {v w : Json} :
    Deletes denied v w → Deletes more v w
  | .same v => .same v
  | .array items => .array (items.mono subset)
  | .object members => .object (members.mono subset)

theorem DeletesItems.mono (subset : denied ⊆ more) {xs ys : List Json} :
    DeletesItems denied xs ys → DeletesItems more xs ys
  | .nil => .nil
  | .cons first rest => .cons (first.mono subset) (rest.mono subset)

theorem DeletesMembers.mono (subset : denied ⊆ more) {ms ns : List (String × Json)} :
    DeletesMembers denied ms ns → DeletesMembers more ms ns
  | .nil => .nil
  | .drop gone rest => .drop (subset gone) (rest.mono subset)
  | .keep m rest => .keep m (rest.mono subset)
  | .page items rest => .page (items.mono subset) (rest.mono subset)

end

/-- What is clean of more fields is clean of fewer. -/
theorem Clean.anti (subset : denied ⊆ more) {v : Json} (clean : Clean more v) : Clean denied v :=
  fun members holds m member isDenied => clean members holds m member (subset isDenied)

/-- Of two redactions, in either order, the one that denies more decides. -/
theorem strip_strip_of_subset (subset : denied ⊆ more) (v : Json) :
    strip more (strip denied v) = strip more v ∧ strip denied (strip more v) = strip more v := by
  constructor
  · have deletes : Deletes more v (strip denied v) := (deletes_strip v).mono subset
    exact deletes.strip_eq.symm
  · have clean : Clean denied (strip more v) := (clean_strip v).anti subset
    exact strip_eq_self clean

end Redaction

/-! ## Handshakes -/

namespace Channel

/-- The second event is the first one, or offers one token where the first one offers
another. -/
def Event.Raised (token wider : String) (e e' : Event) : Prop :=
  e' = e ∨ e'.name = e.name ∧ e.data.member? "token" = some (.string token) ∧
    e'.data.member? "token" = some (.string wider)

section Raised

variable {verifier : Verifier} {r : Requirement} {token wider : String}
  {claims widerClaims : Claims}

/-- A token with more roles is taken wherever one with fewer is. -/
theorem Session.offered?_of_raised (accepted : verifier token = .ok claims)
    (acceptedWider : verifier wider = .ok widerClaims) (roles : claims.roles ⊆ widerClaims.roles)
    {e e' : Event} (raised : e.Raised token wider e') {auth : AuthContext}
    (offered : offered? verifier r e = some auth) :
    ∃ auth', offered? verifier r e' = some auth' ∧ auth.Below auth' := by
  rcases raised with rfl | ⟨sameName, carriesToken, carriesWider⟩
  · exact ⟨auth, offered, ⟨id, List.Subset.refl _⟩⟩
  · obtain ⟨named, token', claims', carried, accepted', satisfied, rfl⟩ :=
      offered?_eq_some_iff.mp offered
    obtain rfl : token = token' :=
      Json.string.inj (Option.some.inj (carriesToken.symm.trans carried))
    obtain rfl : claims = claims' := Except.ok.inj (accepted.symm.trans accepted')
    have satisfiedWider := Roles.satisfies_mono roles satisfied
    exact ⟨.authenticatedBy wider widerClaims, offered?_eq_some_iff.mpr
      ⟨sameName.trans named, wider, widerClaims, carriesWider, acceptedWider, satisfiedWider, rfl⟩,
      AuthContext.below_authenticatedBy roles token wider⟩

/-- Where one sequence presents a valid credential, the other one does so no later. -/
theorem Inbound.firstCredential?_of_raised {i i' : Inbound}
    (valid : ∀ e e', Event.Raised token wider e e' → ∀ auth, offered? verifier r e = some auth →
      ∃ auth', offered? verifier r e' = some auth')
    (raised : List.Forall₂ (fun p p' => p'.1 = p.1 ∧ p.2.Raised token wider p'.2)
      i.events i'.events) {t : Nat} {auth : AuthContext}
    (first : i.firstCredential? verifier r = some (t, auth)) :
    ∃ t' auth', i'.firstCredential? verifier r = some (t', auth') ∧ t' ≤ t := by
  have ordered := i.ordered
  unfold Inbound.firstCredential? at first ⊢
  generalize i.events = events at raised ordered first
  generalize i'.events = events' at raised
  induction raised with
  | nil => cases first
  | @cons p p' rest rest' here _ ih =>
    obtain ⟨sameTime, raised⟩ := here
    obtain ⟨below, ordered⟩ := List.pairwise_cons.mp ordered
    rw [List.findSome?_cons] at first ⊢
    cases offered' : offered? verifier r p'.2 with
    | some auth' =>
      refine ⟨p'.1, auth', rfl, ?_⟩
      rw [sameTime]
      cases offered : offered? verifier r p.2 with
      | some auth =>
        rw [offered] at first
        cases first
        exact Nat.le_refl _
      | none =>
        rw [offered] at first
        obtain ⟨q, member, found⟩ := List.exists_of_findSome?_eq_some first
        obtain ⟨_, -, same⟩ := Option.map_eq_some_iff.mp found
        obtain ⟨rfl, -⟩ := Prod.mk.inj same
        exact below q member
    | none =>
      have nothing : offered? verifier r p.2 = none := by
        refine Option.eq_none_iff_forall_ne_some.mpr fun auth offered => ?_
        obtain ⟨auth', offersWider⟩ := valid _ _ raised auth offered
        rw [offered'] at offersWider
        cases offersWider
      rw [nothing] at first
      exact ih ordered first

end Raised

end Channel

/-! ## Everywhere -/

/-- Privilege never loses access. A caller above another is allowed every field that the
other one is, and redaction for the lesser caller makes the same of a value whether it has
been redacted for the greater one or not. A token whose claims have more roles passes the
gate wherever the other one does, is accepted as a credential, and ends a handshake no later
in its place. -/
theorem privilege_never_loses_access (verifier : Verifier) {r : Requirement}
    (alone : r.policies = [.builtin]) :
    (∀ a b : AuthContext, a.Below b → ∀ m : AccessMethod,
      (∀ table, Redaction.fieldAllowed table m a = true →
        Redaction.fieldAllowed table m b = true) ∧
      ∀ fields,
        Redaction.deniedFields fields m b ⊆ Redaction.deniedFields fields m a ∧
        ∀ v, let seenBy := fun auth v => (Redaction.redact v fields m auth).1
          seenBy a (seenBy b v) = seenBy a v ∧ seenBy b (seenBy a v) = seenBy a v) ∧
    (∀ table (request request' : Gate.Request), request'.method = request.method →
      table request.method = .required r →
      (Policy.identify verifier request.headers).Below
        (Policy.identify verifier request'.headers) →
      ∀ auth, Gate.authorize verifier table request = .authorized auth →
        ∃ auth', Gate.authorize verifier table request' = .authorized auth' ∧ auth.Below auth') ∧
    ∀ token wider claims widerClaims, verifier token = .ok claims →
      verifier wider = .ok widerClaims → claims.roles ⊆ widerClaims.roles →
      (∀ headers headers', Token.Carries headers token → Token.Carries headers' wider →
        (Policy.identify verifier headers).Below (Policy.identify verifier headers')) ∧
      (∀ data data' : Json, data.member? "token" = some (.string token) →
        data'.member? "token" = some (.string wider) →
        ∀ auth, credential? verifier r data = some auth →
          ∃ auth', credential? verifier r data' = some auth' ∧ auth.Below auth') ∧
      ∀ i i' : Inbound,
        List.Forall₂ (fun p p' => p'.1 = p.1 ∧ p.2.Raised token wider p'.2) i.events i'.events →
        ∀ visit timeout start time auth,
          (waiting visit r (start + timeout)).handshake verifier
            (withDeadline (start + timeout) (i.inputs start)) =
              some (time, .authenticated auth) →
          ∃ time' auth', (waiting visit r (start + timeout)).handshake verifier
            (withDeadline (start + timeout) (i'.inputs start)) =
              some (time', .authenticated auth') ∧ time' ≤ time := by
  refine ⟨fun a b below m => ⟨fun _ => Redaction.fieldAllowed_mono below, fun fields => ?fields⟩,
    fun table request request' sameMethod entry below auth authorized => ?gate,
    fun token wider claims widerClaims accepted acceptedWider roles =>
      ⟨fun headers headers' carried carriedWider => ?headers,
        fun data data' carried carriedWider auth credential => ?credential,
        fun i i' raised visit timeout start time auth ended => ?handshake⟩⟩
  case fields =>
    have fewer := (Redaction.deniedFields_sublist below fields m).subset
    exact ⟨fewer, fun v => Redaction.strip_strip_of_subset fewer v⟩
  case gate =>
    obtain ⟨admitted, rfl⟩ := (Gate.authorize_iff_admits alone entry).mp authorized
    have entry' : table request'.method = .required r := sameMethod ▸ entry
    have admitted' := Requirement.admits_mono below admitted
    exact ⟨_, (Gate.authorize_iff_admits alone entry').mpr ⟨admitted', rfl⟩, below⟩
  case headers =>
    rw [Policy.identify_of_carries carried accepted,
      Policy.identify_of_carries carriedWider acceptedWider]
    exact AuthContext.below_authenticatedBy roles token wider
  case credential =>
    have offers (data : Json) :
        offered? verifier r ⟨Channel.authenticateName, data⟩ = credential? verifier r data :=
      if_pos rfl
    have raised : Event.Raised token wider ⟨Channel.authenticateName, data⟩
        ⟨Channel.authenticateName, data'⟩ := .inr ⟨rfl, carried, carriedWider⟩
    rw [← offers] at credential ⊢
    exact Session.offered?_of_raised accepted acceptedWider roles raised credential
  case handshake =>
    have how := i.ends_outcome verifier r timeout start
    rw [Inbound.handshake_eq] at ended
    rw [Option.some.inj ended] at how
    have valid : ∀ e e', Event.Raised token wider e e' → ∀ auth,
        offered? verifier r e = some auth → ∃ auth', offered? verifier r e' = some auth' := by
      intro e e' raised auth offered
      obtain ⟨auth', offered', -⟩ :=
        Session.offered?_of_raised accepted acceptedWider roles raised offered
      exact ⟨auth', offered'⟩
    cases how with
    | @authenticated t _ first early =>
      obtain ⟨t', auth', first', earlier⟩ := Inbound.firstCredential?_of_raised valid raised first
      have early' : t' < timeout := Nat.lt_of_le_of_lt earlier early
      refine ⟨start + t', auth', ?_, Nat.add_le_add_left earlier start⟩
      rw [Inbound.handshake_eq, Inbound.Ends.eq_outcome (.authenticated first' early')]

/-- A user and an administrator before a page that is itself a field of the administrator's. -/
theorem administrator_is_let_in_like_user :
    let user : Claims := { roles := ["user"] }
    let both : Claims := { roles := ["admin", "user"] }
    let verifier : Verifier := fun token =>
      if token = "user" then .ok user
      else if token = "admin" then .ok both else .error .notReadable
    let r := Requirement.withPolicies true (some ["user"]) []
    let ofAdmins : AuthTable := fun _ => .required (.withPolicies true (some ["admin"]) [])
    let fields := [("secret", ofAdmins), ("documents", ofAdmins)]
    let page : Json := .object [("name", .string "x"), ("secret", .string "y"),
      ("documents", .array [.object [("secret", .string "z")]])]
    let a := AuthContext.authenticatedBy "user" user
    let b := AuthContext.authenticatedBy "admin" both
    let seenBy := fun auth v => (Redaction.redact v fields .realTime auth).1
    r.policies = [.builtin] ∧ a.Below b ∧
      seenBy b page = page ∧ seenBy a page = .object [("name", .string "x")] ∧
      seenBy a (seenBy b page) = seenBy a page ∧
      credential? verifier r (.object [("token", .string "user")]) = some a ∧
      ∃ auth, credential? verifier r (.object [("token", .string "admin")]) = some auth ∧
        a.Below auth := by
  intro user both verifier r ofAdmins fields page a b seenBy
  have roles : user.roles ⊆ both.roles := List.subset_cons_self _ _
  have below : a.Below b := AuthContext.below_authenticatedBy roles "user" "admin"
  have alone : r.policies = [.builtin] := rfl
  have accepted : credential? verifier r (.object [("token", .string "user")]) = some a := rfl
  obtain ⟨callers, -, tokens⟩ := privilege_never_loses_access verifier alone
  obtain ⟨-, redactions⟩ := callers a b below .realTime
  obtain ⟨-, seen⟩ := redactions fields
  obtain ⟨-, credentials, -⟩ := tokens "user" "admin" user both rfl rfl roles
  exact ⟨alone, below, rfl, rfl, (seen page).1, accepted, credentials _ _ rfl rfl a accepted⟩

end EndpointTree
