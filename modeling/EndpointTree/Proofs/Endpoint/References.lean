import EndpointTree.Proofs.Endpoint.Sources

/-!
# The names that a document refers to

A document refers to policies, handlers and channel handlers by name. Which names it refers to
can be read off the document itself: those of the rules under `auth` and of the rules of its
fields, of the lists under `handlers` and `filters`, and of the stages of a channel. A malformed
rule, a key that names no scope and a field of a field refer to nothing. That a narrower rule or
list takes the place of a wider one does not matter: all of them are looked up.

* `Declaration.references` lists the references of a document in the order of compiling.
* `Declaration.mem_policiesIn_iff`: which policies a rule refers to.
* `Declaration.references_ofJson`: the tree that is read from a document refers to the same.
-/

namespace EndpointTree

namespace Declaration

/-- A name that is looked up, with what the fault says of it if it is unknown. -/
inductive Reference where
  | policy (path name : String)
  | handler (path kind name : String)
  | channel (path name : String)

namespace Reference

variable (registry : Registry)

/-- The registry has something under the name. -/
def IsRegistered : Reference → Prop
  | .policy _ name => ∃ policy, registry.policies.get? name = some policy
  | .handler _ _ name => ∃ handler, registry.handlers.get? name = some handler
  | .channel _ name => ∃ handler, registry.channels.get? name = some handler

/-- The fault of a name that the registry does not have. -/
def fault : Reference → CompileFault
  | .policy path name => .unknownPolicy path name
  | .handler path kind name => .unknownHandler path kind name
  | .channel path name => .unknownChannelHandler path name

/-- Whether the name is unknown. -/
def isUnknown : Reference → Bool
  | .policy _ name => (registry.policies.get? name).isNone
  | .handler _ _ name => (registry.handlers.get? name).isNone
  | .channel _ name => (registry.channels.get? name).isNone

/-- The fault of a reference to an unknown name. -/
def fault? (r : Reference) : Option CompileFault :=
  if r.isUnknown registry then some r.fault else none

variable {registry}

theorem isUnknown_eq_false_iff {r : Reference} :
    r.isUnknown registry = false ↔ r.IsRegistered registry := by
  cases r <;>
    simp only [isUnknown, IsRegistered, Option.isNone_eq_false_iff, Option.isSome_iff_exists]

theorem fault?_eq_none_iff {r : Reference} :
    r.fault? registry = none ↔ r.IsRegistered registry := by
  rw [← isUnknown_eq_false_iff, fault?]
  cases r.isUnknown registry <;> simp

theorem fault?_eq_some_iff {r : Reference} {f : CompileFault} :
    r.fault? registry = some f ↔ ¬ r.IsRegistered registry ∧ f = r.fault := by
  rw [← isUnknown_eq_false_iff, fault?]
  cases r.isUnknown registry <;> simp [eq_comm]

end Reference

/-! ## Names in a document -/

/-- The policies that a rule asks for. -/
def Rule.policies : Rule → List String
  | .require _ _ policies => policies
  | .deny | .allow | .malformed _ => []

/-- The policies that the rule of a value asks for. -/
def policiesIn (value : Json) : List String := (Rule.ofJson value).policies

/-- Requirements that form a rule: what is there is `null` or of its kind. -/
structure IsRule (members : List (String × Json)) : Prop where
  flag : ∀ value, members.lookup "requiresAuth" = some value →
    value = .null ∨ ∃ flag, value = .bool flag
  names : NamesOnly members

/-- Members under the keys of the two groups, then those under the keys of single methods. -/
def widestMembersFirst (isMethod : String → Bool) (members : List (String × Json)) :
    List (String × Json) :=
  (members.filter fun m => m.1 = "read") ++ (members.filter fun m => m.1 = "write") ++
    members.filter fun m => isMethod m.1

/-- The policies of all rules under `auth`, or under the name of a field. -/
def policiesUnder : Json → List String
  | .object members =>
    (common? members).toList.flatMap policiesIn ++
      (widestMembersFirst (fun key => (AccessMethod.ofName? key).isSome) members).flatMap
        fun m => policiesIn m.2
  | _ => []

/-- What the fields under `auth` declare. -/
def fieldValues (auth : Json) : List Json :=
  ((membersOf auth).filter fun m => m.1 = "fields").flatMap fun m => (membersOf m.2).map (·.2)

/-- The policies of an endpoint, then those of its fields. -/
def policiesOf (auth : Json) : List String := (auth :: fieldValues auth).flatMap policiesUnder

/-- The names in a handler section. -/
def handlersOf (lists : Json) : List String :=
  (widestMembersFirst (fun key => (HttpMethod.ofName? key).isSome) (membersOf lists)).flatMap
    fun m => namesIn m.2

/-- The names in a real-time section. -/
def channelHandlersOf (channel : Json) : List String :=
  stageKeys.flatMap fun stage => (channel.member? stage).toList.flatMap namesIn

/-- The references of an endpoint, less those of the endpoints below it. -/
def ownReferences (path : String) (members : List (String × Json)) : List Reference :=
  let names (key : String) (of : Json → List String) := (lastUnder? key members).toList.flatMap of
  (names "auth" policiesOf).map (.policy path) ++
    (names "handlers" handlersOf).map (.handler path "handler") ++
    (names "filters" handlersOf).map (.handler path "filter") ++
    (names "realTime" channelHandlersOf).map (.channel path)

mutual

/-- The references of the endpoint at `path` and of everything below it. -/
def references (path : String) : Json → List Reference
  | .object members => ownReferences path members ++ referencesIn path members
  | _ => []

/-- The references of the endpoints that members declare. -/
def referencesIn (path : String) : List (String × Json) → List Reference
  | [] => []
  | (key, value) :: rest =>
    (if Path.isChildKey key then references (Path.join path key) value else []) ++
      referencesIn path rest

end

/-- The policies read are the names that stand under their key. -/
theorem policyNames_eq_ok {members : List (String × Json)} {policies : List String}
    (read : Rule.policyNames members = .ok policies) :
    policies = (members.lookup "policies").toList.flatMap namesIn := by
  unfold Rule.policyNames at read
  split at read
  · next absent =>
    cases read
    rw [absent]
    rfl
  · next null =>
    cases read
    rw [null]
    rfl
  · next value _ found =>
    rw [found, Option.toList_some, List.flatMap_singleton, namesIn]
    split at read
    · next names areNames =>
      cases read
      rw [areNames]
      rfl
    · cases read

/-- The flag can be read where it is absent, `null`, or a truth value. -/
theorem exists_authFlag_iff {members : List (String × Json)} :
    (∃ auth, Rule.authFlag members = .ok auth) ↔ ∀ value,
      members.lookup "requiresAuth" = some value → value = .null ∨ ∃ flag, value = .bool flag := by
  unfold Rule.authFlag
  cases members.lookup "requiresAuth" with
  | none => simp
  | some value => cases value <;> simp

/-- Names are only looked up in a rule that is well formed. -/
theorem mem_policiesIn_iff {value : Json} {name : String} :
    name ∈ policiesIn value ↔ ∃ members, value = .object members ∧ IsRule members ∧
      ∃ names, members.lookup "policies" = some names ∧ name ∈ namesIn names := by
  constructor
  · intro asked
    rw [policiesIn] at asked
    cases ruleEq : Rule.ofJson value with
    | deny | allow | malformed =>
      rw [ruleEq] at asked
      cases asked
    | require auth roles policies =>
      rw [ruleEq] at asked
      cases value with
      | object members =>
        obtain ⟨authEq, rolesEq, policiesEq⟩ := Rule.ofMembers_eq_require_iff.mp ruleEq
        have rule : IsRule members := ⟨exists_authFlag_iff.mp ⟨auth, authEq⟩,
          Rule.roleNames_eq_ok_iff.mp ⟨roles, rolesEq⟩,
          Rule.policyNames_eq_ok_iff.mp ⟨policies, policiesEq⟩⟩
        rw [Rule.policies, policyNames_eq_ok policiesEq, List.mem_flatMap] at asked
        obtain ⟨names, found, named⟩ := asked
        exact ⟨members, rfl, rule, names, Option.mem_toList.mp found, named⟩
      | bool flag => cases flag <;> cases ruleEq
      | null | number | string | array => cases ruleEq
  · intro holds
    obtain ⟨members, rfl, rule, names, found, named⟩ := holds
    obtain ⟨auth, authEq⟩ := exists_authFlag_iff.mpr rule.flag
    obtain ⟨roles, rolesEq⟩ := Rule.roleNames_eq_ok_iff.mpr rule.names.1
    obtain ⟨policies, policiesEq⟩ := Rule.policyNames_eq_ok_iff.mpr rule.names.2
    have ruleEq : Rule.ofJson (.object members) = .require auth roles policies :=
      Rule.ofMembers_eq_require_iff.mpr ⟨authEq, rolesEq, policiesEq⟩
    rw [policiesIn, ruleEq, Rule.policies, policyNames_eq_ok policiesEq, found]
    exact List.mem_flatMap.mpr ⟨names, List.mem_singleton_self names, named⟩

/-! ## Names in a declaration -/

/-- The references of a declaration, in the order in which they are looked up. -/
def referencesOf (path : String) (d : Declaration) : List Reference :=
  ((Endpoint.widestFirst d.access.rules).flatMap (·.2.policies) ++
      d.access.fields.flatMap fun f =>
        (Endpoint.widestFirst f.2.rules).flatMap (·.2.policies)).map (.policy path) ++
    ((Endpoint.widestListsFirst d.handlers).flatMap (·.2)).map (.handler path "handler") ++
    ((Endpoint.widestListsFirst d.filters).flatMap (·.2)).map (.handler path "filter") ++
    (d.channel.connect ++ d.channel.message ++ d.channel.disconnect).map (.channel path)

/-- The references of the endpoint with this lineage. -/
def referencesAt : List Declaration → List Reference
  | [] => []
  | d :: above => referencesOf (pathUnder (pathOf? above) d.key) d

/-! ### Orders -/

/-- Among the scoped members of an object, those of one width are those under its keys. -/
theorem flatMap_filter_filterMap {σ β : Type} {width : σ → Nat} {ofKey? : String → Option σ}
    {n : Nat} (isKey : String → Bool)
    (named : ∀ key, isKey key = true ↔ ∃ scope, ofKey? key = some scope ∧ width scope = n)
    (read : Json → β) (names : β → List String) (members : List (String × Json)) :
    ((members.filterMap fun m => (ofKey? m.1).map fun s => (s, read m.2)).filter
        fun r => width r.1 = n).flatMap (fun r => names r.2) =
      (members.filter fun m => isKey m.1).flatMap fun m => names (read m.2) := by
  induction members with
  | nil => rfl
  | cons m rest ih =>
    have here := named m.1
    cases scopeEq : ofKey? m.1 with
    | none =>
      have other : isKey m.1 = false := by simp [Bool.eq_false_iff, here, scopeEq]
      rw [List.filterMap_cons_none (by rw [scopeEq]; rfl)]
      simp [other, ih]
    | some scope =>
      rw [List.filterMap_cons_some (by rw [scopeEq]; rfl)]
      by_cases wide : width scope = n
      · have key : isKey m.1 = true := here.mpr ⟨scope, scopeEq, wide⟩
        simp [wide, key, ih]
      · have other : isKey m.1 = false := by simp [Bool.eq_false_iff, here, scopeEq, wide]
        simp [wide, other, ih]

/-- Where the groups and then the single methods have consecutive widths, going from the widest
scope to the narrowest goes through the members of an object in the same order. -/
theorem flatMap_widths {σ μ β : Type} (width : σ → Nat) {ofKey? : String → Option σ}
    {ofMethod? : String → Option μ} {read write : σ} {method : μ → σ} (n : Nat)
    (keys : ∀ key, ofKey? key = if key = "read" then some read
      else if key = "write" then some write else (ofMethod? key).map method)
    (notMethod : ofMethod? "read" = none ∧ ofMethod? "write" = none)
    (widths : width read = n ∧ width write = n + 1 ∧ ∀ m, width (method m) = n + 2)
    (value : Json → β) (names : β → List String) (members : List (String × Json)) :
    ([n, n + 1, n + 2].flatMap fun k => (members.filterMap fun m =>
        (ofKey? m.1).map fun s => (s, value m.2)).filter fun r => width r.1 = k).flatMap
          (fun r => names r.2) =
      (widestMembersFirst (fun key => (ofMethod? key).isSome) members).flatMap
        fun m => names (value m.2) := by
  obtain ⟨widthRead, widthWrite, widthMethod⟩ := widths
  have ofWidth (k : Nat) (isKey : String → Bool)
      (named : ∀ key, isKey key = true ↔ ∃ scope, ofKey? key = some scope ∧ width scope = k) :=
    flatMap_filter_filterMap isKey named value names members
  simp only [List.flatMap_cons, List.flatMap_nil, List.append_nil, List.flatMap_append,
    widestMembersFirst, List.append_assoc]
  rw [ofWidth n (fun key => key = "read"), ofWidth (n + 1) (fun key => key = "write"),
    ofWidth (n + 2) fun key => (ofMethod? key).isSome]
  all_goals
    intro key
    rw [keys]
    by_cases isRead : key = "read"
    · simp [isRead, widthRead, notMethod.1]
    · by_cases isWrite : key = "write"
      · simp [isWrite, widthWrite, notMethod.2]
      · simp [isRead, isWrite, widthMethod, Option.isSome_iff_exists]

/-- The handlers are looked up group by group before method by method. -/
theorem widestListsFirst_listsIn (value : Json) :
    (Endpoint.widestListsFirst (listsIn value)).flatMap (·.2) = handlersOf value :=
  flatMap_widths Endpoint.handlerNarrowness 0 (fun _ => rfl) ⟨by decide, by decide⟩
    ⟨rfl, rfl, fun _ => rfl⟩ namesIn id (membersOf value)

/-- Rules for all methods stay in front of those for a group or for a single method. -/
theorem widestFirst_append {common : List Rule} {rules : List (Scope × Rule)}
    (scopes : ∀ r ∈ rules, r.1 ≠ .common) :
    Endpoint.widestFirst (common.map (.common, ·) ++ rules) = common.map (.common, ·) ++
      [1, 2, 3].flatMap fun k => rules.filter fun r => Endpoint.narrowness r.1 = k := by
  have noneCommon : rules.filter (fun r => Endpoint.narrowness r.1 = 0) = [] := by
    refine List.filter_eq_nil_iff.mpr fun r member => ?_
    have scope := scopes r member
    cases same : r.1 <;> simp_all [Endpoint.narrowness]
  have zero : Endpoint.narrowness .common = 0 := rfl
  simp [Endpoint.widestFirst, List.filter_map, Function.comp_def, zero, noneCommon]

/-- The policies are looked up from the widest rule to the narrowest. -/
theorem widestFirst_rules (auth : Json) :
    (Endpoint.widestFirst (Access.ofJson auth).rules).flatMap (·.2.policies) =
      policiesUnder auth := by
  cases auth with
  | object members =>
    have split : Access.rulesOf members =
        ((common? members).toList.map Rule.ofJson).map (.common, ·) ++ members.filterMap
          fun m => (Scope.ofKey? m.1).map fun s => (s, Rule.ofJson m.2) := by
      rw [Access.rulesOf, common?]
      split <;> rfl
    have scopes : ∀ r ∈ members.filterMap fun m =>
        (Scope.ofKey? m.1).map fun s => (s, Rule.ofJson m.2), r.1 ≠ .common := by
      intro r member
      obtain ⟨m, -, found⟩ := List.mem_filterMap.mp member
      obtain ⟨scope, scopeEq, rfl⟩ := Option.map_eq_some_iff.mp found
      exact fun same => ofKey?_ne_common m.1 (scopeEq.trans (congrArg _ same))
    rw [Access.ofJson, split, widestFirst_append scopes, List.flatMap_append, List.flatMap_map,
      List.flatMap_map]
    exact congrArg (_ ++ ·) (flatMap_widths Endpoint.narrowness 1 (fun _ => rfl)
      ⟨by decide, by decide⟩ ⟨rfl, rfl, fun _ => rfl⟩ Rule.ofJson Rule.policies members)
  | bool flag => cases flag <;> rfl
  | null | number | string | array => rfl

/-- The fields that are declared under `auth`, in written order. -/
def fieldMembers (auth : Json) : List (String × Json) :=
  ((membersOf auth).filter fun m => m.1 = "fields").flatMap fun m => membersOf m.2

theorem fields_ofJson (auth : Json) :
    (Access.ofJson auth).fields = (fieldMembers auth).map fun m => (m.1, Access.ofJson m.2) := by
  have listed (members : List (String × Json)) :
      Access.fieldList members = members.map fun m => (m.1, Access.ofJson m.2) := by
    induction members with
    | nil => rfl
    | cons m rest ih => rw [Access.fieldList, ih]; rfl
  have declared (value : Json) :
      Access.fieldsOf value = (membersOf value).map fun m => (m.1, Access.ofJson m.2) := by
    cases value with
    | object members => exact listed members
    | null | bool | number | string | array => rfl
  cases auth with
  | object members =>
    have own : (Access.ofJson (.object members)).fields = Access.fieldsIn members := rfl
    rw [own, fieldMembers, membersOf, Json.members?, Option.getD_some]
    clear own
    induction members with
    | nil => rfl
    | cons m rest ih =>
      rw [Access.fieldsIn]
      by_cases fields : m.1 = "fields"
      · rw [if_pos fields, declared, ih, List.filter_cons, if_pos (decide_eq_true fields),
          List.flatMap_cons, List.map_append]
      · rw [if_neg fields, ih, List.filter_cons,
          if_neg (fun held => fields (of_decide_eq_true held))]
        rfl
  | null | bool | number | string | array => rfl

/-! ### The same names -/

/-- A declaration refers to the names that its members refer to. -/
theorem referencesOf_eq (path : String) {members : List (String × Json)} {d : Declaration}
    (own : DeclaredBy members d) : referencesOf path d = ownReferences path members := by
  have lists (value? : Option Json) :
      (Endpoint.widestListsFirst ((value?.map listsIn).getD [])).flatMap (·.2) =
        value?.toList.flatMap handlersOf := by
    cases value? with
    | none => rfl
    | some value =>
      rw [Option.toList_some, List.flatMap_singleton]
      exact widestListsFirst_listsIn value
  have policies (auth? : Option Json) :
      (Endpoint.widestFirst ((auth?.map Access.ofJson).getD {}).rules).flatMap (·.2.policies) ++
          ((auth?.map Access.ofJson).getD {}).fields.flatMap (fun f =>
            (Endpoint.widestFirst f.2.rules).flatMap (·.2.policies)) =
        auth?.toList.flatMap policiesOf := by
    cases auth? with
    | none => rfl
    | some auth =>
      have fields : (Access.ofJson auth).fields.flatMap (fun f =>
          (Endpoint.widestFirst f.2.rules).flatMap (·.2.policies)) =
            (fieldValues auth).flatMap policiesUnder := by
        have values : fieldValues auth = (fieldMembers auth).map (·.2) := List.map_flatMap.symm
        rw [fields_ofJson, List.flatMap_map, values, List.flatMap_map]
        simp only [widestFirst_rules]
      rw [Option.toList_some, List.flatMap_singleton, policiesOf, List.flatMap_cons,
        ← widestFirst_rules auth, ← fields]
      rfl
  have stages (channel? : Option Json) :
      ((channel?.map channelIn).getD {}).connect ++ ((channel?.map channelIn).getD {}).message ++
          ((channel?.map channelIn).getD {}).disconnect =
        channel?.toList.flatMap channelHandlersOf := by
    cases channel? with
    | none => rfl
    | some value => simp [channelIn, channelHandlersOf, stageKeys]
  rw [referencesOf, ownReferences, own.access, own.handlers, own.filters, own.channel, lists, lists,
    policies, stages]

mutual

/-- The references of a document are those of its endpoints, in their order. -/
theorem references_eq_flatMap : ∀ (path : String) (raw : Json),
    references path raw = (sources path raw).flatMap fun s => ownReferences s.path s.members
  | path, .object members => by
    rw [references, sources, List.flatMap_cons, referencesIn_eq_flatMap path members]
  | _, .null | _, .bool _ | _, .number _ | _, .string _ | _, .array _ => rfl

/-- The references below are those of the sources below, one after another. -/
theorem referencesIn_eq_flatMap : ∀ (path : String) (members : List (String × Json)),
    referencesIn path members =
      (sourcesIn path members).flatMap fun s => ownReferences s.path s.members
  | _, [] => rfl
  | path, (key, value) :: rest => by
    rw [referencesIn, sourcesIn, List.flatMap_append, referencesIn_eq_flatMap path rest]
    split
    · rw [references_eq_flatMap (Path.join path key) value]
    · rfl

end

/-- A document refers to the names that the tree read from it refers to, in the same order. -/
theorem references_ofJson {raw : Json} {path key : String} {tree : Tree Declaration}
    {ds : List Declaration} (read : ofJson path key raw = .ok tree)
    (pathEq : pathUnder (pathOf? ds) key = path) :
    (tree.lineages ds).flatMap referencesAt = references path raw := by
  have each {s : Source} {ds : List Declaration} (stands : StandsAt s ds) :
      ownReferences s.path s.members = referencesAt ds := by
    cases stands with
    | intro path own =>
      rw [pathOf?, Option.some_inj] at path
      rw [referencesAt, path, referencesOf_eq s.path own]
  rw [references_eq_flatMap]
  exact (flatMap_eq_of_forall₂ (fun stands => each stands) (ofJson_sources read pathEq)).symm

end Declaration

end EndpointTree
