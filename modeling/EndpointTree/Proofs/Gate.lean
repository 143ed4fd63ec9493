import EndpointTree.Gate

/-!
# Who passes the gate

A caller passes when every policy of the requirement goes on, each on the context
that the one before it left. The built-in policy looks at the request's own header
and at nothing that another policy could have changed.

* `Policy.builtin_check_eq_proceed_iff`: what the built-in policy asks for.
* `Gate.authorize_eq_authorized_iff`: what the gate asks for, and
  `Gate.authorize_iff_admits`: what it asks for where no policy is declared.
-/

namespace EndpointTree

namespace Token

/-- The first `Authorization` field is plain text, and the token is what stands in it
behind the scheme, blanks apart. -/
def Carries (headers : Http.Headers) (token : String) : Prop :=
  ∃ bytes value rest, headers.get? "authorization" = some bytes ∧
    Http.plainText? bytes = some value ∧ value.toList = "Bearer ".toList ++ rest ∧
    Text.trim rest ≠ [] ∧ token = String.ofList (Text.trim rest)

theorem afterScheme?_eq_some_iff {value rest : List Char} :
    afterScheme? value = some rest ↔ value = "Bearer ".toList ++ rest := by
  rw [afterScheme?]
  constructor
  · intro found
    split at found
    · next isPrefix =>
      obtain ⟨rest', rfl⟩ := List.isPrefixOf_iff_prefix.mp isPrefix
      rw [List.drop_left] at found
      rw [Option.some.inj found]
    · cases found
  · intro same
    subst same
    have isPrefix := List.isPrefixOf_iff_prefix.mpr (List.prefix_append "Bearer ".toList rest)
    rw [if_pos isPrefix, List.drop_left]

/-- A request carries the token that is read from it. -/
theorem bearer_eq_ok_iff {headers : Http.Headers} {token : String} :
    bearer headers = .ok token ↔ Carries headers token := by
  unfold bearer
  constructor
  · intro found
    split at found
    · cases found
    · next bytes field =>
      split at found
      · cases found
      · next value plain =>
        split at found
        · cases found
        · next rest scheme =>
          dsimp only at found
          split at found
          · cases found
          · next nonempty =>
            refine ⟨bytes, value, rest, field, plain, afterScheme?_eq_some_iff.mp scheme, ?_, ?_⟩
            · intro empty
              rw [empty] at nonempty
              exact nonempty rfl
            · exact (Except.ok.inj found).symm
  · intro holds
    rcases holds with ⟨bytes, value, rest, field, plain, scheme, nonempty, rfl⟩
    have notEmpty : (Text.trim rest).isEmpty = false := List.isEmpty_eq_false_iff.mpr nonempty
    simp only [field, plain, afterScheme?_eq_some_iff.mpr scheme, notEmpty, Bool.false_eq_true, if_false]

end Token

namespace Policy

/-- The request's own header carries a token that the verifier accepts, and its
claims have a role that is asked for. -/
def Presents (verifier : Verifier) (roles : Option (List String)) (headers : Http.Headers) : Prop :=
  ∃ token claims, Token.Carries headers token ∧ verifier token = .ok claims ∧
    Roles.satisfies roles claims.roles = true

/-- A caller is known just where the token that the request carries is verified. -/
theorem identify_authenticated_iff {verifier : Verifier} {headers : Http.Headers} :
    (identify verifier headers).authenticated = true ↔
      ∃ token claims, Token.Carries headers token ∧ verifier token = .ok claims ∧
        identify verifier headers = .authenticatedBy token claims := by
  simp only [← Token.bearer_eq_ok_iff]
  rw [identify]
  cases bearerEq : Token.bearer headers with
  | error fault => simp [AuthContext.anonymous]
  | ok token =>
    cases verified : verifier token with
    | error fault => simp [verified, AuthContext.refused]
    | ok claims => simp [verified, AuthContext.authenticatedBy]

/-- The caller that a header makes with a token that is accepted. -/
theorem identify_of_carries {verifier : Verifier} {headers : Http.Headers} {token : String}
    {claims : Claims} (carried : Token.Carries headers token)
    (accepted : verifier token = .ok claims) :
    identify verifier headers = .authenticatedBy token claims := by
  simp only [identify, Token.bearer_eq_ok_iff.mpr carried, accepted]

/-- A request meets roles where its caller is known and has them. -/
theorem presents_iff {verifier : Verifier} {roles : Option (List String)}
    {headers : Http.Headers} :
    Presents verifier roles headers ↔
      (identify verifier headers).authenticated = true ∧
        Roles.satisfies roles (identify verifier headers).roles = true := by
  constructor
  · intro holds
    rcases holds with ⟨token, claims, carried, accepted, satisfied⟩
    rw [identify_of_carries carried accepted]
    exact ⟨rfl, satisfied⟩
  · intro holds
    rcases holds with ⟨authenticated, satisfied⟩
    obtain ⟨token, claims, carried, accepted, identified⟩ :=
      identify_authenticated_iff.mp authenticated
    rw [identified] at satisfied
    exact ⟨token, claims, carried, accepted, satisfied⟩

/-- The built-in policy goes on unless authentication is required of a caller who does
not present a valid token; what it leaves is what the request's own header says. -/
theorem builtin_check_eq_proceed_iff {verifier : Verifier} {ctx next : PolicyContext} :
    builtin.check verifier ctx = (.proceed (), next) ↔
      (ctx.requiresAuth = true → Presents verifier ctx.requiresRoles ctx.headers) ∧
        next = { ctx with auth := identify verifier ctx.headers } := by
  rw [presents_iff]
  have checked : builtin.check verifier ctx =
      (if ctx.requiresAuth then
        if !(identify verifier ctx.headers).authenticated then .stop invalidToken
        else if !Roles.satisfies ctx.requiresRoles (identify verifier ctx.headers).roles then
          .stop missingRole
        else .proceed ()
      else .proceed (), { ctx with auth := identify verifier ctx.headers }) := by
    simp only [builtin]
    split
    · split
      · rfl
      · split <;> rfl
    · rfl
  rw [checked, Prod.mk.injEq, eq_comm (b := next)]
  refine and_congr_left fun _ => ?_
  cases ctx.requiresAuth <;> cases (identify verifier ctx.headers).authenticated <;>
    cases Roles.satisfies ctx.requiresRoles (identify verifier ctx.headers).roles <;> simp

end Policy

namespace Gate

/-- Every policy goes on, each on the context that the one before it left; the
caller's context is the one that the last of them left. -/
inductive Passes (verifier : Verifier) : List Policy → PolicyContext → AuthContext → Prop
  | done (ctx : PolicyContext) : Passes verifier [] ctx ctx.auth
  | next {policy : Policy} {rest : List Policy} {ctx left : PolicyContext} {auth : AuthContext} :
    policy.check verifier ctx = (.proceed (), left) → Passes verifier rest left auth →
    Passes verifier (policy :: rest) ctx auth

/-- The policies let a caller in just where all of them pass, one after another. -/
theorem runPolicies_eq_ok_iff {verifier : Verifier} {policies : List Policy}
    {ctx : PolicyContext} {auth : AuthContext} :
    runPolicies verifier policies ctx = .ok auth ↔ Passes verifier policies ctx auth := by
  constructor
  · intro passed
    induction policies generalizing ctx with
    | nil =>
      cases passed
      exact .done ctx
    | cons policy rest ih =>
      rw [runPolicies] at passed
      split at passed
      · next left checked => exact .next checked (ih passed)
      · cases passed
      · cases passed
      · cases passed
  · intro passes
    induction passes with
    | done ctx => rfl
    | next checked _ ih => simp only [runPolicies, checked, ih]

/-- The first policy hands its context on to the others. -/
theorem passes_cons_iff {verifier : Verifier} {policy : Policy} {rest : List Policy}
    {ctx : PolicyContext} {auth : AuthContext} :
    Passes verifier (policy :: rest) ctx auth ↔
      ∃ left, policy.check verifier ctx = (.proceed (), left) ∧ Passes verifier rest left auth := by
  constructor
  · intro passes
    cases passes with
    | next checked passes => exact ⟨_, checked, passes⟩
  · intro holds
    rcases holds with ⟨left, checked, passes⟩
    exact .next checked passes

/-- The context in which the declared policies start, behind the built-in one. -/
def identifiedContext (verifier : Verifier) (r : Requirement) (request : Request) :
    PolicyContext :=
  { startContext r request with auth := Policy.identify verifier request.headers }

/-- Where the built-in policy comes first, a request passes exactly if its own header
satisfies the requirement and every declared policy then goes on. -/
theorem authorize_eq_authorized_iff {verifier : Verifier} {table : AuthTable} {request : Request}
    {auth : AuthContext} {r : Requirement} {declared : List Policy}
    (entry : table request.method = .required r) (heads : r.policies = .builtin :: declared) :
    authorize verifier table request = .authorized auth ↔
      (r.auth = true → Policy.Presents verifier r.roles request.headers) ∧
        Passes verifier declared (identifiedContext verifier r request) auth := by
  have decision : authorize verifier table request = .authorized auth ↔
      runPolicies verifier r.policies (startContext r request) = .ok auth := by
    simp only [authorize, entry]
    cases runPolicies verifier r.policies (startContext r request) with
    | ok auth' => simp
    | error stop => simp
  rw [decision, runPolicies_eq_ok_iff, heads, passes_cons_iff]
  simp only [Policy.builtin_check_eq_proceed_iff]
  constructor
  · intro holds
    rcases holds with ⟨left, ⟨presents, rfl⟩, passes⟩
    exact ⟨presents, passes⟩
  · intro holds
    rcases holds with ⟨presents, passes⟩
    exact ⟨_, ⟨presents, rfl⟩, passes⟩

/-- Without policies of its own a requirement is met at the gate by the caller that the
request's own header makes, or not at all. -/
theorem authorize_iff_admits {verifier : Verifier} {table : AuthTable} {request : Request}
    {r : Requirement} {auth : AuthContext} (alone : r.policies = [.builtin])
    (entry : table request.method = .required r) :
    authorize verifier table request = .authorized auth ↔
      r.admits (Policy.identify verifier request.headers) = true ∧
        auth = Policy.identify verifier request.headers := by
  have admits : (r.auth = true → Policy.Presents verifier r.roles request.headers) ↔
      r.admits (Policy.identify verifier request.headers) = true := by
    rw [Policy.presents_iff, Requirement.admits]
    cases r.auth <;> simp
  rw [authorize_eq_authorized_iff entry alone, admits]
  refine and_congr_right fun _ => ?_
  constructor
  · intro passes
    cases passes
    rfl
  · rintro rfl
    exact .done _

end Gate

end EndpointTree
