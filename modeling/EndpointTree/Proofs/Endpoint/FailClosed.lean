import EndpointTree.Proofs.Channel.Transcript
import EndpointTree.Proofs.Endpoint.Sites
import EndpointTree.Proofs.Gate

/-!
# Endpoints fail closed

Nothing but an explicit declaration opens an endpoint to callers without a token.
Whatever else stands where a method is decided either asks for authentication, in
so many words, or forbids the method; and where nothing stands at all, up to the
root, authentication is asked for.

* `Declaration.Opens` and `Declaration.AsksForToken` are the two kinds of values that
  do not forbid.
* `Endpoint.Decides` says what each value compiles to, `Endpoint.LetsIn` what it is
  for a caller without a token to get through.
-/

namespace EndpointTree

namespace Declaration

/-- A name or a list of names. -/
def IsNames (value : Json) : Prop :=
  (∃ name, value = .string name) ∨ ∃ names, value = Json.strings names

/-- What roles and policies a set of requirements may declare. -/
def NamesOnly (members : List (String × Json)) : Prop :=
  (∀ value, members.lookup "requiresRoles" = some value →
    value = .null ∨ value = .bool false ∨ IsNames value) ∧
  ∀ value, members.lookup "policies" = some value → value = .null ∨ IsNames value

/-- A value that opens methods to callers without a token: `true`, or requirements
that say in so many words that none is required. -/
inductive Opens : Json → Prop
  | flag : Opens (.bool true)
  | requirements {members : List (String × Json)} :
    members.lookup "requiresAuth" = some (.bool false) → NamesOnly members →
    Opens (.object members)

/-- A value that asks for a token: requirements that do not say otherwise. -/
inductive AsksForToken : Json → Prop
  | requirements {members : List (String × Json)} :
    (∀ value, members.lookup "requiresAuth" = some value → value = .null ∨ value = .bool true) →
    NamesOnly members → AsksForToken (.object members)

theorem namesOfItems?_eq_some_iff (items : List Json) :
    (∃ names, namesOfItems? items = some names) ↔
      ∃ names : List String, items = names.map .string := by
  induction items with
  | nil => exact ⟨fun _ => ⟨[], rfl⟩, fun _ => ⟨[], rfl⟩⟩
  | cons item rest ih =>
    constructor
    · intro holds
      rcases holds with ⟨names, found⟩
      cases item with
      | string name =>
        obtain ⟨further, foundRest, -⟩ := Option.map_eq_some_iff.mp found
        obtain ⟨texts, rfl⟩ := ih.mp ⟨further, foundRest⟩
        exact ⟨name :: texts, rfl⟩
      | null | bool | number | array | object => cases found
    · intro holds
      rcases holds with ⟨names, itemsEq⟩
      cases names with
      | nil => cases itemsEq
      | cons name texts =>
        obtain ⟨rfl, rfl⟩ := List.cons.inj itemsEq
        obtain ⟨further, found⟩ := ih.mpr ⟨texts, rfl⟩
        exact ⟨plainName name :: further, by rw [namesOfItems?, found]; rfl⟩

theorem names?_eq_some_iff {value : Json} : (∃ names, names? value = some names) ↔ IsNames value := by
  cases value with
  | string name => exact ⟨fun _ => .inl ⟨name, rfl⟩, fun _ => ⟨_, rfl⟩⟩
  | array items =>
    refine (namesOfItems?_eq_some_iff items).trans ⟨?_, ?_⟩
    · intro holds
      rcases holds with ⟨names, rfl⟩
      exact .inr ⟨names, rfl⟩
    · intro holds
      rcases holds with ⟨name, absurdity⟩ | ⟨names, same⟩
      · cases absurdity
      · exact ⟨names, Json.array.inj same⟩
  | null | bool | number | object =>
    constructor
    · intro holds
      rcases holds with ⟨names, absurdity⟩
      cases absurdity
    · rintro (⟨name, absurdity⟩ | ⟨names, absurdity⟩) <;> cases absurdity

namespace Rule

theorem authFlag_eq_ok_iff {members : List (String × Json)} {flag : Option Bool} :
    authFlag members = .ok flag ↔
      (members.lookup "requiresAuth" = flag.map .bool) ∨
        flag = none ∧ members.lookup "requiresAuth" = some .null := by
  unfold authFlag
  cases members.lookup "requiresAuth" with
  | none => cases flag <;> simp
  | some value => cases value <;> cases flag <;> simp [eq_comm]

/-- A member that is read as names is read exactly if it is names. -/
theorem exists_names_iff {α : Type} (make : List String → α) (fault : RuleFault) (value : Json) :
    (∃ x, (match names? value with
        | some names => Except.ok (make names)
        | none => .error fault) = .ok x) ↔ IsNames value := by
  rw [← names?_eq_some_iff]
  cases names? value with
  | none => simp
  | some names => simp

theorem roleNames_eq_ok_iff {members : List (String × Json)} :
    (∃ roles, roleNames members = .ok roles) ↔
      ∀ value, members.lookup "requiresRoles" = some value →
        value = .null ∨ value = .bool false ∨ IsNames value := by
  unfold roleNames
  split
  · next absent => simp [absent]
  · next null => simp [null]
  · next off => simp [off]
  · next value notNull notOff found =>
    refine (exists_names_iff some _ value).trans ?_
    rw [found]
    constructor
    · intro areNames value' same
      rw [← Option.some.inj same]
      exact .inr (.inr areNames)
    · intro allowed
      rcases allowed value rfl with rfl | rfl | areNames
      · exact absurd rfl notNull
      · exact absurd rfl notOff
      · exact areNames

theorem policyNames_eq_ok_iff {members : List (String × Json)} :
    (∃ policies, policyNames members = .ok policies) ↔
      ∀ value, members.lookup "policies" = some value → value = .null ∨ IsNames value := by
  unfold policyNames
  split
  · next absent => simp [absent]
  · next null => simp [null]
  · next value notNull found =>
    refine (exists_names_iff id _ value).trans ?_
    rw [found]
    constructor
    · intro areNames value' same
      rw [← Option.some.inj same]
      exact .inr areNames
    · intro allowed
      rcases allowed value rfl with rfl | areNames
      · exact absurd rfl notNull
      · exact areNames

theorem ofMembers_eq_require_iff {members : List (String × Json)} {auth : Option Bool}
    {roles : Option (List String)} {policies : List String} :
    ofMembers members = .require auth roles policies ↔
      authFlag members = .ok auth ∧ roleNames members = .ok roles ∧
        policyNames members = .ok policies := by
  unfold ofMembers
  cases authFlag members with
  | error fault => simp
  | ok auth' =>
    cases roleNames members with
    | error fault => simp
    | ok roles' =>
      cases policyNames members with
      | error fault => simp
      | ok policies' => simp

/-- Requirements are read, or else they are malformed. -/
theorem ofMembers_eq (members : List (String × Json)) :
    (∃ auth roles policies, ofMembers members = .require auth roles policies) ∨
      ∃ fault, ofMembers members = .malformed fault := by
  unfold ofMembers
  cases authFlag members with
  | error fault => exact .inr ⟨fault, rfl⟩
  | ok auth =>
    cases roleNames members with
    | error fault => exact .inr ⟨fault, rfl⟩
    | ok roles =>
      cases policyNames members with
      | error fault => exact .inr ⟨fault, rfl⟩
      | ok policies => exact .inl ⟨auth, roles, policies, rfl⟩

/-- The values that open methods are those whose rule lets anyone in. -/
theorem opens_iff {value : Json} :
    Opens value ↔ ofJson value = .allow ∨
      ∃ roles policies, ofJson value = .require (some false) roles policies := by
  constructor
  · intro opens
    cases opens with
    | flag => exact .inl rfl
    | requirements off names =>
      obtain ⟨roles, rolesEq⟩ := roleNames_eq_ok_iff.mpr names.1
      obtain ⟨policies, policiesEq⟩ := policyNames_eq_ok_iff.mpr names.2
      exact .inr ⟨roles, policies,
        ofMembers_eq_require_iff.mpr ⟨authFlag_eq_ok_iff.mpr (.inl off), rolesEq, policiesEq⟩⟩
  · intro holds
    rcases holds with allow | ⟨roles, policies, require⟩
    · cases value with
      | bool flag =>
        cases flag with
        | true => exact .flag
        | false => cases allow
      | object members =>
        rcases ofMembers_eq members with ⟨_, _, _, require⟩ | ⟨_, malformed⟩
        · rw [ofJson, require] at allow
          cases allow
        · rw [ofJson, malformed] at allow
          cases allow
      | null | number | string | array => cases allow
    · cases value with
      | bool flag => cases flag <;> cases require
      | object members =>
        obtain ⟨authEq, rolesEq, policiesEq⟩ := ofMembers_eq_require_iff.mp require
        have off : members.lookup "requiresAuth" = some (.bool false) := by
          rcases authFlag_eq_ok_iff.mp authEq with off | ⟨absurdity, -⟩
          · exact off
          · cases absurdity
        exact .requirements off
          ⟨roleNames_eq_ok_iff.mp ⟨roles, rolesEq⟩, policyNames_eq_ok_iff.mp ⟨policies, policiesEq⟩⟩
      | null | number | string | array => cases require

/-- The values that ask for a token are those whose rule requires one. -/
theorem asksForToken_iff {value : Json} :
    AsksForToken value ↔
      ∃ auth roles policies, auth ≠ some false ∧ ofJson value = .require auth roles policies := by
  constructor
  · intro asks
    cases asks with
    | @requirements members flag names =>
      obtain ⟨roles, rolesEq⟩ := roleNames_eq_ok_iff.mpr names.1
      obtain ⟨policies, policiesEq⟩ := policyNames_eq_ok_iff.mpr names.2
      have authEq : ∃ auth, auth ≠ some false ∧ authFlag members = .ok auth := by
        cases found : members.lookup "requiresAuth" with
        | none => exact ⟨none, nofun, authFlag_eq_ok_iff.mpr (.inl found)⟩
        | some value =>
          rcases flag value found with rfl | rfl
          · exact ⟨none, nofun, authFlag_eq_ok_iff.mpr (.inr ⟨rfl, found⟩)⟩
          · exact ⟨some true, nofun, authFlag_eq_ok_iff.mpr (.inl found)⟩
      obtain ⟨auth, notOff, authEq⟩ := authEq
      exact ⟨auth, roles, policies, notOff,
        ofMembers_eq_require_iff.mpr ⟨authEq, rolesEq, policiesEq⟩⟩
  · intro holds
    rcases holds with ⟨auth, roles, policies, notOff, require⟩
    cases value with
    | bool flag => cases flag <;> cases require
    | object members =>
      obtain ⟨authEq, rolesEq, policiesEq⟩ := ofMembers_eq_require_iff.mp require
      refine .requirements (fun value found => ?_)
        ⟨roleNames_eq_ok_iff.mp ⟨roles, rolesEq⟩, policyNames_eq_ok_iff.mp ⟨policies, policiesEq⟩⟩
      rcases authFlag_eq_ok_iff.mp authEq with flagged | ⟨-, null⟩
      · cases auth with
        | none =>
          rw [flagged] at found
          cases found
        | some flag =>
          cases flag with
          | false => exact absurd rfl notOff
          | true => exact .inr (Option.some.inj (found.symm.trans flagged))
      · exact .inl (Option.some.inj (found.symm.trans null))
    | null | number | string | array => cases require

end Rule

end Declaration

namespace Endpoint

open Declaration (Rule Opens AsksForToken)

/-- What the value that decides a method makes of it, and what becomes of the method
where there is none. -/
inductive Decides : Option Json → AuthEntry → Prop
  | nothing : Decides none (.required .authenticated)
  | opens {value : Json} {roles : Option (List String)} {declared : List Policy} :
    Opens value → Decides (some value) (.required (.withPolicies false roles declared))
  | asks {value : Json} {roles : Option (List String)} {declared : List Policy} :
    AsksForToken value → Decides (some value) (.required (.withPolicies true roles declared))
  | forbids {value : Json} :
    ¬ Opens value → ¬ AsksForToken value → Decides (some value) .forbidden

theorem decides_of_entryOf {registry : Registry} {path : String} {value : Json} {entry : AuthEntry}
    (compiled : entryOf registry path (Rule.ofJson value) = .ok entry) :
    Decides (some value) entry := by
  cases ruleEq : Rule.ofJson value with
  | deny | malformed fault =>
    rw [ruleEq] at compiled
    cases compiled
    refine .forbids (fun opens => ?_) fun asks => ?_
    · rcases Rule.opens_iff.mp opens with allow | ⟨_, _, require⟩ <;> simp_all
    · obtain ⟨_, _, _, -, require⟩ := Rule.asksForToken_iff.mp asks
      rw [ruleEq] at require
      cases require
  | allow =>
    rw [ruleEq] at compiled
    cases compiled
    exact .opens (Rule.opens_iff.mpr (.inl ruleEq))
  | require auth roles policies =>
    rw [ruleEq] at compiled
    obtain ⟨declared, -, rfl⟩ := exists_of_map_eq_ok compiled
    by_cases off : auth = some false
    · subst off
      exact .opens (Rule.opens_iff.mpr (.inr ⟨roles, policies, ruleEq⟩))
    · have asked : auth.getD true = true := by
        cases auth with
        | none => rfl
        | some flag => cases flag <;> simp_all
      rw [asked]
      exact .asks (Rule.asksForToken_iff.mpr ⟨auth, roles, policies, off, ruleEq⟩)

/-- A caller without any token that can be verified gets through: the gate authorizes
a request, or a connection is dispatched to handlers. -/
inductive LetsIn (e : Endpoint) : AccessMethod → Prop
  | gate {verifier : Verifier} {request : Gate.Request} {auth : AuthContext} :
    (∀ token claims, Token.Carries request.headers token → verifier token ≠ .ok claims) →
    Gate.authorize verifier e.access request = .authorized auth → LetsIn e request.method
  | channel {verifier : Verifier} {table : Channel.Table} {timeout now : Nat}
      {namespaceText : String} {query params : Dict String}
      {inputs : List (Nat × Channel.Session.Input)} {a : Channel.Action} :
    Channel.route? table namespaceText = some (.ofEndpoint e, params) →
    (∀ time event token claims, (time, .event event) ∈ inputs →
      event.name = Channel.authenticateName →
      event.data.member? "token" = some (.string token) → verifier token ≠ .ok claims) →
    a ∈ (Channel.Session.serve verifier table timeout now namespaceText query inputs).2 →
    a.isRun = true → LetsIn e .realTime

/-- A caller without a token only gets through where the method is not forbidden and,
behind the built-in policy, none is required. -/
theorem LetsIn.exists_required {e : Endpoint} {m : AccessMethod} (letsIn : LetsIn e m) :
    ∃ r, e.access m = .required r ∧
      ∀ declared, r.policies = .builtin :: declared → r.auth = false := by
  cases letsIn with
  | @gate verifier request auth unverified authorized =>
    cases entry : e.access request.method with
    | forbidden =>
      simp only [Gate.authorize, entry] at authorized
      cases authorized
    | required r =>
      refine ⟨r, rfl, fun declared heads => Bool.eq_false_iff.mpr fun asks => ?_⟩
      obtain ⟨presents, -⟩ := (Gate.authorize_eq_authorized_iff entry heads).mp authorized
      obtain ⟨token, claims, carried, accepted, -⟩ := presents asks
      exact absurd accepted (unverified token claims carried)
  | @channel verifier table timeout now namespaceText query params inputs _ found unverified asked
      runs =>
    obtain ⟨route, params', r, ⟨found', entry⟩, admitted⟩ :=
      (Channel.Session.serve_course verifier table timeout now namespaceText query
        inputs).requires_of_run asked runs
    obtain ⟨rfl, rfl⟩ := Prod.mk.inj (Option.some.inj (found.symm.trans found'))
    refine ⟨r, entry, fun declared heads => ?_⟩
    rcases admitted with free | ⟨-, time, event, caller, arrived, -, valid⟩
    · exact free
    · obtain ⟨named, token, claims, carried, accepted, -⟩ :=
        Channel.Session.offered?_eq_some_iff.mp valid
      exact absurd accepted (unverified time event token claims arrived named carried)

/-- Where a caller without a token gets through, a value decides the method, and it
is one that opens it. -/
theorem Decides.opens_of_letsIn {e : Endpoint} {m : AccessMethod} {deciding : Option Json}
    (decides : Decides deciding (e.access m)) (letsIn : LetsIn e m) :
    ∃ value, deciding = some value ∧ Opens value := by
  obtain ⟨r, entry, free⟩ := letsIn.exists_required
  rw [entry] at decides
  cases decides with
  | nothing => exact absurd (free [] rfl) Bool.noConfusion
  | opens opens => exact ⟨_, rfl, opens⟩
  | @asks _ _ declared => exact absurd (free declared rfl) Bool.noConfusion

/-- In every model that compiles, every endpoint stands at its site in the document,
every entry is what the deciding value there makes of it, and a caller without a
token gets through only where that value opens the method in so many words. -/
theorem unverified_callers_need_an_opening_value {registry : Registry} {defaults : CorsOptions}
    {raw : Json} {model : Model} (accepted : Model.ofJson registry defaults raw = .ok model) :
    List.Forall₂
      (fun site e => e.path = site.path ∧ ∀ m, Decides (site.deciding? m) (e.access m) ∧
        (LetsIn e m → ∃ value, site.deciding? m = some value ∧ Opens value))
      (Declaration.sites "/" [] raw) model.values := by
  rw [Model.ofJson] at accepted
  cases read : Declaration.ofJson "/" "" raw with
  | error fault =>
    rw [read] at accepted
    cases accepted
  | ok tree =>
    rw [read] at accepted
    have follows := compile_access accepted
    have sameSites : (tree.lineages []).map Declaration.outline =
        (Declaration.sites "/" [] raw).map Declaration.Site.outline :=
      Declaration.ofJson_sites read rfl rfl
    -- an entry depends on a lineage only through its outline, which is that of the site
    have outlined : List.Forall₂
        (fun (o : Option String × List Declaration.Access) (e : Endpoint) =>
          o.1 = some e.path ∧ ∀ m, Resolved registry (e.access m) (Declaration.nearest? m o.2))
        ((tree.lineages []).map Declaration.outline) model.values :=
      List.forall₂_map_left_iff.mpr follows
    rw [sameSites, List.forall₂_map_left_iff] at outlined
    refine outlined.imp fun site e holds => ?_
    obtain ⟨pathEq, resolved⟩ := holds
    refine ⟨(Option.some.inj pathEq).symm, fun m => ?_⟩
    have decides : Decides (site.deciding? m) (e.access m) := by
      have entryEq := resolved m
      rw [Declaration.Site.outline, Declaration.nearest?_declared] at entryEq
      cases decided : site.deciding? m with
      | none =>
        rw [decided] at entryEq
        have root : e.access m = .required .authenticated := entryEq
        rw [root]
        exact .nothing
      | some value =>
        rw [decided] at entryEq
        obtain ⟨path, compiled⟩ := entryEq
        exact decides_of_entryOf compiled
    exact ⟨decides, decides.opens_of_letsIn⟩

theorem unverified_callers_at_a_document :
    ∃ model,
      Model.ofJson .empty {}
        (.object [("auth", .object [("read", .bool true), ("PUT", .null)]),
          ("/notes", .object [("auth", .object [("requiresRoles", .string "admin")])])]) =
        .ok model ∧
      List.Forall₂
        (fun site e => e.path = site.path ∧ ∀ m, Decides (site.deciding? m) (e.access m) ∧
          (LetsIn e m → ∃ value, site.deciding? m = some value ∧ Opens value))
        (Declaration.sites "/" []
          (.object [("auth", .object [("read", .bool true), ("PUT", .null)]),
            ("/notes", .object [("auth", .object [("requiresRoles", .string "admin")])])]))
        model.values :=
  ⟨_, rfl, @unverified_callers_need_an_opening_value .empty {} _ _ rfl⟩

/-- A value that asks for a token opens nothing, and yet does not forbid the method. -/
theorem asking_value_does_not_forbid :
    ∃ e site, Model.ofJson .empty {}
        (.object [("auth", .object [("requiresAuth", .bool true)])]) = .ok (.node e []) ∧
      Declaration.sites "/" [] (.object [("auth", .object [("requiresAuth", .bool true)])]) =
        [site] ∧
      site.deciding? HttpMethod.get = some (.object [("requiresAuth", .bool true)]) ∧
      ¬ Opens (.object [("requiresAuth", .bool true)]) ∧
      e.access HttpMethod.get ≠ .forbidden := by
  refine ⟨_, _, rfl, rfl, rfl, ?_, ?_⟩
  · intro opens
    cases opens with
    | requirements off => cases off
  · intro forbidden
    cases forbidden

end Endpoint

end EndpointTree
