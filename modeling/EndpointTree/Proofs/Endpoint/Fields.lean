import EndpointTree.Proofs.Endpoint.Precedence
import EndpointTree.Proofs.Endpoint.References

/-!
# Tables of fields

The table of a field is resolved where the field is declared, over the table of that very
endpoint, and handed down as it is. So it belongs to the nearest endpoint that declares the
field, whatever the endpoints below that one say about themselves.

* `Endpoint.nearestField?` is that declaration in a lineage, with the table it is laid over.
* `Endpoint.resolveFields_lookup` and `Endpoint.resolveFields_names`: what one endpoint adds.
* `Endpoint.FieldsFollow` says what the field tables of an endpoint are, and
  `Endpoint.compile_fields` that they are in every model.
-/

namespace EndpointTree

/-- The last pair under a key, among pairs whose values are read one by one. -/
theorem lastUnder?_map {κ α β : Type} [DecidableEq κ] (read : α → β) (key : κ)
    (pairs : List (κ × α)) :
    lastUnder? key (pairs.map fun p => (p.1, read p.2)) = (lastUnder? key pairs).map read := by
  induction pairs with
  | nil => rfl
  | cons p rest ih =>
    rw [List.map_cons, lastUnder?_cons, lastUnder?_cons, ih, Option.map_or]
    by_cases here : p.1 = key <;> simp [here]

theorem nodup_eraseDups (names : List String) : names.eraseDups.Nodup := by
  match names with
  | [] => exact .nil
  | name :: rest =>
    have shorter : (rest.filter fun other => !other == name).length < rest.length + 1 :=
      Nat.lt_succ_of_le (List.length_filter_le _ _)
    rw [List.eraseDups_cons, List.nodup_cons]
    refine ⟨fun again => ?_, nodup_eraseDups _⟩
    have kept := List.of_mem_filter (List.mem_eraseDups.mp again)
    simp at kept
termination_by names.length

namespace Declaration

/-- The fields that an endpoint declares, in key order, each with the rule that its
declaration has for a method. -/
abbrev FieldRules := List (String × (AccessMethod → Option Rule))

/-- The fields of an access declaration. -/
def fieldRules (a : Access) : FieldRules := a.fields.map fun f => (f.1, fun m => decider? m f.2.rules)

/-- The fields of what stands under `auth`. -/
def fieldRulesIn (auth : Option Json) : FieldRules :=
  (auth.toList.flatMap fieldMembers).map fun f => (f.1, fun m => (deciding? m f.2).map Rule.ofJson)

theorem fieldRules_declared (auth : Option Json) : fieldRules (declared auth) = fieldRulesIn auth := by
  cases auth with
  | none => rfl
  | some auth =>
    rw [fieldRules, fieldRulesIn, declared, Option.map_some, Option.getD_some, fields_ofJson,
      List.map_map, Option.toList_some, List.flatMap_singleton]
    refine List.map_congr_left fun f _ => Prod.ext rfl (funext fun m => ?_)
    exact decider?_ofJson m f.2

/-- The names of the fields that a lineage declares, from the root down, each where it is
declared first. -/
def fieldNames (lineage : List FieldRules) : List String :=
  (lineage.reverse.flatMap fun own => own.map (·.1)).eraseDups

theorem fieldNames_cons (own : FieldRules) (above : List FieldRules) :
    fieldNames (own :: above) =
      ((above.reverse.flatMap fun own => own.map (·.1)) ++ own.map (·.1)).eraseDups := by
  rw [fieldNames, List.reverse_cons, List.flatMap_append, List.flatMap_singleton]

end Declaration

namespace Endpoint

open Declaration (Access FieldRules Rule decider? fieldNames fieldRules fieldRulesIn pathOf?)

variable {registry : Registry} {path name f : String} {access table : AuthTable}
  {fields inherited : List (String × AuthTable)}

/-! ## Resolving tables -/

/-- The names of an endpoint's tables are those that it is handed down, in their places, and
then those that it is the first to declare. -/
theorem resolveFields_names {seen : List String} {declared : List (String × Access)}
    (resolved : resolveFields registry path access inherited declared = .ok fields)
    (names : inherited.map (·.1) = seen.eraseDups) :
    fields.map (·.1) = (seen ++ declared.map (·.1)).eraseDups := by
  induction declared generalizing seen inherited with
  | nil =>
    cases resolved
    rw [names, List.map_nil, List.append_nil]
  | cons first rest ih =>
    obtain ⟨name, d⟩ := first
    rw [resolveFields] at resolved
    obtain ⟨table, -, resolved⟩ := exists_of_bind_eq_ok resolved
    have next : (Pairs.put name table inherited).map (·.1) = (seen ++ [name]).eraseDups := by
      rw [Pairs.keys_put, names, List.eraseDups_append]
      by_cases here : name ∈ seen <;> simp [here, List.removeAll, List.eraseDups_cons]
    rw [ih resolved next, List.map_cons, List.append_assoc, List.singleton_append]

/-- A field that an endpoint declares has the table that its last declaration makes of the
endpoint's own; any other table is the one handed down. -/
theorem resolveFields_lookup {declared : List (String × Access)}
    (resolved : resolveFields registry path access inherited declared = .ok fields) (f : String) :
    match lastUnder? f declared with
    | none => fields.lookup f = inherited.lookup f
    | some d => ∃ table, resolveAccess registry path access d.rules = .ok table ∧
        fields.lookup f = some table := by
  induction declared generalizing inherited with
  | nil =>
    cases resolved
    rfl
  | cons first rest ih =>
    obtain ⟨name, d⟩ := first
    rw [resolveFields] at resolved
    obtain ⟨table, tableEq, resolved⟩ := exists_of_bind_eq_ok resolved
    have further := ih resolved
    rw [lastUnder?_cons]
    cases later : lastUnder? f rest with
    | some d' =>
      rw [later] at further
      exact further
    | none =>
      rw [later, Pairs.lookup_put] at further
      by_cases here : name = f
      · rw [if_pos here.symm] at further
        simp only [Option.none_or, if_pos here]
        exact ⟨table, tableEq, further⟩
      · rw [if_neg (Ne.symm here)] at further
        simp only [Option.none_or, if_neg here]
        exact further

/-! ## Lineages -/

/-- The nearest declaration of a field in a lineage, and the table of the endpoint that
makes it. -/
def nearestField? (f : String) (declared : List FieldRules) (es : List Endpoint) :
    Option ((AccessMethod → Option Rule) × AuthTable) :=
  (declared.zip es).findSome? fun p => (lastUnder? f p.1).map fun rule? => (rule?, p.2.access)

theorem nearestField?_cons (f : String) (own : FieldRules) (declared : List FieldRules)
    (e : Endpoint) (es : List Endpoint) :
    nearestField? f (own :: declared) (e :: es) =
      ((lastUnder? f own).map fun rule? => (rule?, e.access)).or (nearestField? f declared es) := by
  rw [nearestField?, List.zip_cons_cons, List.findSome?_cons]
  cases lastUnder? f own <;> rfl

/-- The table that a declaration makes of another one: by its own rules where it has one for
a method, and the same where it has none. -/
inductive FieldTable (registry : Registry) :
    Option ((AccessMethod → Option Rule) × AuthTable) → Option AuthTable → Prop
  | undeclared : FieldTable registry none none
  | declared {rule? : AccessMethod → Option Rule} {base table : AuthTable} :
    (∀ m, Governs registry (base m) (rule? m) (table m)) →
    FieldTable registry (some (rule?, base)) (some table)

/-- The field tables of an endpoint, given what it and the endpoints above it declare. -/
structure FieldsOf (registry : Registry) (declared : List FieldRules) (e : Endpoint)
    (above : List Endpoint) : Prop where
  /-- There is a declaration for each of the endpoints. -/
  paired : declared.length = (e :: above).length
  names : e.fields.map (·.1) = fieldNames declared
  once : (e.fields.map (·.1)).Nodup
  tables : ∀ f, FieldTable registry (nearestField? f declared (e :: above)) (e.field? f)
  /-- What the endpoint does not declare itself is the table above it, whatever else it
  declares. -/
  kept : ∀ f, declared.head?.bind (lastUnder? f) = none →
    e.field? f = above.head?.bind fun parent => parent.field? f

/-- An endpoint, with those above it, stands at a path and has the field tables of its
lineage. -/
inductive FieldsFollow (registry : Registry) (declared : List FieldRules) :
    Option String → List Endpoint → Prop
  | intro {e : Endpoint} {above : List Endpoint} :
    FieldsOf registry declared e above → FieldsFollow registry declared (some e.path) (e :: above)

/-- What is passed on from endpoints are their field tables. -/
structure PassesFields (registry : Registry) (above : Inherited) (declared : List FieldRules)
    (es : List Endpoint) : Prop where
  paired : declared.length = es.length
  names : above.fields.map (·.1) = fieldNames declared
  tables : ∀ f, FieldTable registry (nearestField? f declared es) (above.fields.lookup f)
  nearest : ∀ f, above.fields.lookup f = es.head?.bind fun parent => parent.field? f

theorem FieldsOf.passesFields {declared : List FieldRules} {e : Endpoint} {above : List Endpoint}
    (holds : FieldsOf registry declared e above) :
    PassesFields registry e.passOn declared (e :: above) :=
  ⟨holds.paired, holds.names, holds.tables, fun _ => rfl⟩

theorem lastUnder?_fieldRules (f : String) (a : Access) :
    lastUnder? f (fieldRules a) = (lastUnder? f a.fields).map fun d m => decider? m d.rules :=
  lastUnder?_map (fun (d : Access) (m : AccessMethod) => decider? m d.rules) f a.fields

/-- One endpoint adds the fields that it declares, and takes the others as they come. -/
theorem Compiled.fieldsOf {above : Inherited} {declared : List FieldRules} {es : List Endpoint}
    {d : Declaration} {e : Endpoint} (compiled : Compiled registry above d e)
    (holds : PassesFields registry above declared es) :
    FieldsOf registry (fieldRules d.access :: declared) e es := by
  have settled := resolveFields_lookup compiled.fields
  have names : e.fields.map (·.1) = fieldNames (fieldRules d.access :: declared) := by
    have own : (fieldRules d.access).map (·.1) = d.access.fields.map (·.1) := List.map_map
    rw [Declaration.fieldNames_cons, own]
    exact resolveFields_names compiled.fields holds.names
  have paired : (fieldRules d.access :: declared).length = (e :: es).length :=
    congrArg (· + 1) holds.paired
  refine ⟨paired, names, names ▸ nodup_eraseDups _, fun f => ?_, fun f undeclared => ?_⟩
  · have here := settled f
    rw [nearestField?_cons, lastUnder?_fieldRules]
    cases found : lastUnder? f d.access.fields with
    | none =>
      rw [found] at here
      rw [field?, here]
      exact holds.tables f
    | some own =>
      rw [found] at here
      obtain ⟨table, resolved, tableEq⟩ := here
      rw [field?, tableEq]
      exact .declared fun m => (resolveAccess_settles resolved m).governs
  · rw [List.head?_cons, Option.bind_some, lastUnder?_fieldRules, Option.map_eq_none_iff]
      at undeclared
    have here := settled f
    rw [undeclared] at here
    rw [field?, here]
    exact holds.nearest f

variable {defaults : CorsOptions} {tree : Tree Declaration} {model : Model}

/-- Every endpoint of a model has the field tables of its lineage. -/
theorem compile_fields (compiled : compile registry (.root defaults) tree = .ok model) :
    List.Forall₂
      (fun ds es => FieldsFollow registry ((ds.map (·.access)).map fieldRules) (pathOf? ds) es)
      (tree.lineages []) (model.lineages []) := by
  have root : PassesFields registry (.root defaults) [] [] :=
    ⟨rfl, rfl, fun _ => .undeclared, fun _ => rfl⟩
  refine compile_lineages
    (fun above ds es => pathOf? ds = above.path ∧
      PassesFields registry above ((ds.map (·.access)).map fieldRules) es)
    (fun {above ds es d e} holds step => ?_) ⟨rfl, root⟩ compiled
  obtain ⟨path, passes⟩ := holds
  have pathHere := step.pathOf?_eq path
  have here := step.fieldsOf passes
  refine ⟨?_, pathHere, here.passesFields⟩
  rw [pathHere]
  exact .intro here

/-- The same read off the document that declares the tree. -/
theorem compile_fields_at_sites {raw : Json} (read : Declaration.ofJson "/" "" raw = .ok tree)
    (compiled : compile registry (.root defaults) tree = .ok model) :
    List.Forall₂
      (fun site es => FieldsFollow registry (site.auths.map fieldRulesIn) (some site.path) es)
      (Declaration.sites "/" [] raw) (model.lineages []) := by
  refine (Declaration.forall₂_sites
    (fun path lineage => FieldsFollow registry (lineage.map fieldRules) path)
    read (compile_fields compiled)).imp fun site es follow => ?_
  have sameRules : (site.auths.map Declaration.declared).map fieldRules =
      site.auths.map fieldRulesIn := by
    rw [List.map_map]
    exact List.map_congr_left fun auth _ => Declaration.fieldRules_declared auth
  rw [← sameRules]
  exact follow

/-- In every tree that compiles, the field tables of an endpoint are those of the fields that
it or an endpoint above it declares, each once, in the order of their first declarations from
the root down. Each table belongs to the nearest declaration of its field: entry by entry it
is what that declaration's own narrowest rule makes of the entry of the endpoint that makes
it, and that very entry where it has no rule. What an endpoint declares besides leaves the
tables of all other fields as they are above it. -/
theorem field_tables_follow_nearest_declarations
    (compiled : compile registry (.root defaults) tree = .ok model) :
    List.Forall₂
        (fun ds es => FieldsFollow registry ((ds.map (·.access)).map fieldRules) (pathOf? ds) es)
        (tree.lineages []) (model.lineages []) ∧
      ∀ raw, Declaration.ofJson "/" "" raw = .ok tree →
        List.Forall₂
          (fun site es => FieldsFollow registry (site.auths.map fieldRulesIn) (some site.path) es)
          (Declaration.sites "/" [] raw) (model.lineages []) :=
  ⟨compile_fields compiled, fun _ read => compile_fields_at_sites read compiled⟩

/-- A field of the root whose table stays that of the root where `/notes` opens itself up. -/
theorem root_field_survives_open_child :
    let admin : String × Json := ("requiresRoles", .string "admin")
    let notes : Json := .object [("auth", .object [("read", .bool true)])]
    let raw : Json := .object
      [("auth", .object [admin, ("fields", .object [("email", .object [("PUT", .bool false)])])]),
        ("/notes", notes)]
    ∃ tree model, Declaration.ofJson "/" "" raw = .ok tree ∧
      compile .empty (.root {}) tree = .ok model ∧
      List.Forall₂
        (fun site es => FieldsFollow .empty (site.auths.map fieldRulesIn) (some site.path) es)
        (Declaration.sites "/" [] raw) (model.lineages []) := by
  intro admin notes raw
  exact ⟨_, _, rfl, rfl, (@field_tables_follow_nearest_declarations .empty {} _ _ rfl).2 _ rfl⟩

end Endpoint

end EndpointTree
