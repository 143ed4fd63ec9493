import EndpointTree.Proofs.Endpoint.Precedence
import Mathlib.Tactic.SplitIfs

/-!
# The order of keys

An `auth` object declares a set of rules, and the order in which its keys are written
says nothing: documents that differ in nothing else compile to one model.

* `Json.Reordered` relates such documents.
* `Declaration.ofJson_reordered`: what is read from them differs in the order of rules.
* `Endpoint.compile_alike`: that order is lost when rules are compiled.
-/

namespace EndpointTree

/-! ## Documents -/

namespace Json

mutual

/-- Documents of an endpoint that differ only in the order of the keys of `auth`
objects, its own and those of the endpoints below it. -/
inductive Reordered : Json → Json → Prop
  | same (raw : Json) : Reordered raw raw
  | object {members members' : List (String × Json)} :
    ReorderedIn members members' → Reordered (.object members) (.object members')

/-- Members under the same keys, with values that are reordered inside. -/
inductive ReorderedIn : List (String × Json) → List (String × Json) → Prop
  | nil : ReorderedIn [] []
  | keep {rest rest' : List (String × Json)} (m : String × Json) :
    ReorderedIn rest rest' → ReorderedIn (m :: rest) (m :: rest')
  | auth {keys keys' rest rest' : List (String × Json)} :
    keys.Perm keys' → (keys.map (·.1)).Nodup → ReorderedIn rest rest' →
    ReorderedIn (("auth", .object keys) :: rest) (("auth", .object keys') :: rest')
  | child {key : String} {value value' : Json} {rest rest' : List (String × Json)} :
    Path.isChildKey key = true → Reordered value value' → ReorderedIn rest rest' →
    ReorderedIn ((key, value) :: rest) ((key, value') :: rest')

end

end Json

/-! ## Declarations -/

namespace Declaration

/-- Access declarations of the same rules, in whatever order, that decide alike. -/
structure Access.Alike (a a' : Access) : Prop where
  rules : a.rules.Perm a'.rules
  decide : ∀ m, decider? m a.rules = decider? m a'.rules
  fields : a.fields = a'.fields

/-- Declarations that differ in nothing but the order of their rules. -/
inductive Alike : Declaration → Declaration → Prop
  | intro (d : Declaration) {access : Access} :
    d.access.Alike access → Alike d { d with access }

mutual

/-- Trees of such declarations. -/
inductive TreeAlike : Tree Declaration → Tree Declaration → Prop
  | node {d d' : Declaration} {children children' : List (Tree Declaration)} :
    Alike d d' → TreesAlike children children' →
    TreeAlike (.node d children) (.node d' children')

/-- Trees that are alike one by one. -/
inductive TreesAlike : List (Tree Declaration) → List (Tree Declaration) → Prop
  | nil : TreesAlike [] []
  | cons {t t' : Tree Declaration} {rest rest' : List (Tree Declaration)} :
    TreeAlike t t' → TreesAlike rest rest' → TreesAlike (t :: rest) (t' :: rest')

end

theorem Access.Alike.refl (a : Access) : a.Alike a := ⟨.refl _, fun _ => rfl, rfl⟩

theorem Alike.refl (d : Declaration) : Alike d d := .intro d (.refl d.access)

mutual

theorem TreeAlike.refl : ∀ t : Tree Declaration, TreeAlike t t
  | .node d children => .node (.refl d) (TreesAlike.refl children)

theorem TreesAlike.refl : ∀ trees : List (Tree Declaration), TreesAlike trees trees
  | [] => .nil
  | t :: rest => .cons (TreeAlike.refl t) (TreesAlike.refl rest)

end

theorem TreesAlike.append {trees trees' further further' : List (Tree Declaration)}
    (alike : TreesAlike trees trees') (alike' : TreesAlike further further') :
    TreesAlike (trees ++ further) (trees' ++ further') := by
  induction trees generalizing trees' with
  | nil =>
    cases alike
    exact alike'
  | cons t rest ih =>
    cases alike with
    | cons first rest => exact .cons first (ih rest)

/-! ## Reading -/

/-- A rule depends on the values of its keys, whatever their order. -/
theorem Rule.ofMembers_congr {members members' : List (String × Json)}
    (same : ∀ key, members.lookup key = members'.lookup key) :
    Rule.ofMembers members = Rule.ofMembers members' := by
  simp only [Rule.ofMembers, Rule.authFlag, Rule.roleNames, Rule.policyNames, same]

section Keys

variable {keys keys' : List (String × Json)} (perm : keys.Perm keys')
  (distinct : (keys.map (·.1)).Nodup)

include perm distinct

/-- The rule for all methods does not depend on the order of keys. -/
theorem ofMembers_commonKeys_perm :
    Rule.ofMembers (keys.filter fun m => Access.commonKeys.contains m.1) =
      Rule.ofMembers (keys'.filter fun m => Access.commonKeys.contains m.1) :=
  Rule.ofMembers_congr (lookup_perm (perm.filter _) (distinct.sublist (List.filter_sublist.map _)))

/-- In another order of keys the same rules are declared, in another order. -/
theorem rulesOf_perm : (Access.rulesOf keys).Perm (Access.rulesOf keys') := by
  have common := perm.filter fun m => Access.commonKeys.contains m.1
  rw [Access.rulesOf, Access.rulesOf]
  refine List.Perm.append ?_ (perm.filterMap _)
  rw [ofMembers_commonKeys_perm perm distinct, common.isEmpty_eq]

/-- The rule that decides a method does not depend on the order of keys. -/
theorem deciding?_perm (m : AccessMethod) :
    (deciding? m (.object keys)).map Rule.ofJson = (deciding? m (.object keys')).map Rule.ofJson := by
  have common : (common? keys).map Rule.ofJson = (common? keys').map Rule.ofJson := by
    rw [common?, common?, (perm.filter fun m => Access.commonKeys.contains m.1).isEmpty_eq]
    split
    · rfl
    · exact congrArg some (ofMembers_commonKeys_perm perm distinct)
  simp only [deciding?, Option.map_or, lastUnder?_perm perm distinct, common]

/-- The fields stand under one key, so their order is their own. -/
theorem fieldsIn_perm : Access.fieldsIn keys = Access.fieldsIn keys' := by
  induction perm with
  | nil => rfl
  | cons m _ ih => rw [Access.fieldsIn, Access.fieldsIn, ih (List.nodup_cons.mp distinct).2]
  | swap m n rest =>
    have ne := fst_ne_of_distinct distinct
    simp only [Access.fieldsIn]
    by_cases first : n.1 = "fields"
    · have second : ¬ m.1 = "fields" := fun second => ne (first.trans second.symm)
      rw [if_neg second, List.nil_append, List.nil_append]
    · rw [if_neg first, List.nil_append, List.nil_append]
  | trans perm _ ih ih' => rw [ih distinct, ih' ((perm.map _).nodup_iff.mp distinct)]

theorem Access.ofJson_perm : (Access.ofJson (.object keys)).Alike (Access.ofJson (.object keys')) where
  rules := rulesOf_perm perm distinct
  decide m := by rw [decider?_ofJson, decider?_ofJson, deciding?_perm perm distinct]
  fields := fieldsIn_perm perm distinct

end Keys

theorem put_auth (path : String) (value : Json) (d : Declaration) :
    put path "auth" value d = .ok { d with access := Access.ofJson value } := by
  unfold put
  exact if_pos rfl

/-- What is read of a setting does not depend on the rules that were read before, and
it leaves them alone unless it is the rules themselves. -/
theorem put_withAccess (path key : String) (value : Json) (d : Declaration) (access : Access) :
    put path key value { d with access } =
      (put path key value d).map fun next =>
        if key = "auth" then next else { next with access } := by
  by_cases auth : key = "auth"
  · simp only [put, if_pos auth, Except.map]
  · simp only [put, if_neg auth]
    split_ifs
    · cases Cors.ofJson value <;> rfl
    · cases HandlerLists.ofJson path key value <;> rfl
    · cases HandlerLists.ofJson path key value <;> rfl
    · cases Channel.ofJson path value <;> rfl
    · cases value <;> rfl
    · rfl

/-- A setting is put into declarations that are alike with results that are alike. -/
theorem put_alike {path key : String} {value : Json} {d d' next : Declaration}
    (alike : Alike d d') (read : put path key value d = .ok next) :
    ∃ next', put path key value d' = .ok next' ∧ Alike next next' := by
  cases alike with
  | intro same =>
    rw [put_withAccess, read]
    refine ⟨_, rfl, ?_⟩
    split
    · exact .refl next
    · next notAuth =>
      have kept := (put_eq_ok read).2
      rw [if_neg notAuth] at kept
      refine .intro next ?_
      rwa [kept]

mutual

/-- Documents that differ in the order of keys are read as trees that differ in the
order of rules. -/
theorem ofJson_reordered : ∀ {raw raw' : Json} {path key : String} {tree : Tree Declaration},
    Json.Reordered raw raw' → ofJson path key raw = .ok tree →
      ∃ tree', ofJson path key raw' = .ok tree' ∧ TreeAlike tree tree'
  | _, _, _, _, tree, .same _, read => ⟨tree, read, .refl tree⟩
  | _, _, _, key, _, .object reordered, read => by
    rw [ofJson] at read ⊢
    exact ofMembers_reordered reordered (.refl { key }) .nil read

/-- Reading a reordered document gives a tree that is alike. -/
theorem ofMembers_reordered : ∀ {members members' : List (String × Json)} {path : String}
    {d d' : Declaration} {children children' : List (Tree Declaration)} {tree : Tree Declaration},
    Json.ReorderedIn members members' → Alike d d' → TreesAlike children children' →
      ofMembers path d children members = .ok tree →
        ∃ tree', ofMembers path d' children' members' = .ok tree' ∧ TreeAlike tree tree'
  | _, _, path, d, d', children, children', tree, .nil, alike, alikes, read => by
    cases read
    exact ⟨_, rfl, .node alike alikes⟩
  | _, _, path, d, d', children, children', tree, .keep (key, value) rest, alike, alikes,
      read => by
    rw [ofMembers] at read ⊢
    by_cases child : Path.isChildKey key = true
    · rw [if_pos child] at read ⊢
      cases first : ofJson (Path.join path key) key value with
      | error fault =>
        rw [first] at read
        cases read
      | ok t =>
        rw [first] at read
        exact ofMembers_reordered rest alike (alikes.append (.refl [t])) read
    · rw [if_neg child] at read ⊢
      cases first : put path key value d with
      | error fault =>
        rw [first] at read
        cases read
      | ok next =>
        rw [first] at read
        obtain ⟨next', putEq, alike⟩ := put_alike alike first
        rw [putEq]
        exact ofMembers_reordered rest alike alikes read
  | _, _, path, d, d', children, children', tree,
      @Json.ReorderedIn.auth keys keys' _ _ perm distinct rest, alike, alikes, read => by
    have notChild : ¬ Path.isChildKey "auth" = true := by decide
    rw [ofMembers, if_neg notChild, put_auth] at read ⊢
    cases alike with
    | intro =>
      refine ofMembers_reordered rest ?_ alikes read
      exact .intro { d with access := Access.ofJson (.object keys) }
        (Access.ofJson_perm perm distinct)
  | _, _, path, d, d', children, children', tree,
      @Json.ReorderedIn.child key value _ _ _ child reordered rest, alike, alikes, read => by
    rw [ofMembers, if_pos child] at read ⊢
    cases first : ofJson (Path.join path key) key value with
    | error fault =>
      rw [first] at read
      cases read
    | ok t =>
      rw [first] at read
      obtain ⟨t', childEq, same⟩ := ofJson_reordered reordered first
      rw [childEq]
      exact ofMembers_reordered rest alike (alikes.append (.cons same .nil)) read

end

end Declaration

/-! ## Compiling -/

namespace Endpoint

open Declaration (Rule Scope decider? pathOf? ownRule?)

variable {registry : Registry} {defaults : CorsOptions} {path : String}

/-- Rules compile if each of them does, whatever their order. -/
theorem exists_entriesOf_iff {rules : List (Scope × Rule)} :
    (∃ entries, entriesOf registry path rules = .ok entries) ↔
      ∀ r ∈ rules, ∃ entry, entryOf registry path r.2 = .ok entry := by
  induction rules with
  | nil => exact ⟨fun _ r member => absurd member List.not_mem_nil, fun _ => ⟨[], rfl⟩⟩
  | cons r rest ih =>
    obtain ⟨scope, rule⟩ := r
    rw [List.forall_mem_cons, ← ih]
    constructor
    · intro holds
      obtain ⟨entries, compiled⟩ := holds
      rw [entriesOf] at compiled
      obtain ⟨entry, entryEq, compiled⟩ := exists_of_bind_eq_ok compiled
      obtain ⟨further, restEq, -⟩ := exists_of_bind_eq_ok compiled
      exact ⟨⟨entry, entryEq⟩, further, restEq⟩
    · intro holds
      obtain ⟨⟨entry, entryEq⟩, further, restEq⟩ := holds
      exact ⟨(scope, entry) :: further, bind_eq_ok entryEq (bind_eq_ok restEq rfl)⟩

/-- Sorting by scope keeps just the rules that there are. -/
theorem mem_widestFirst {rules : List (Scope × Rule)} {r : Scope × Rule} :
    r ∈ widestFirst rules ↔ r ∈ rules := by
  have width : narrowness r.1 ∈ [0, 1, 2, 3] := by cases r.1 <;> simp [narrowness]
  simp only [widestFirst, List.mem_flatMap, List.mem_filter, decide_eq_true_eq]
  constructor
  · intro holds
    obtain ⟨_, _, member, _⟩ := holds
    exact member
  · intro member
    exact ⟨narrowness r.1, width, member, rfl⟩

/-- A table can be made where every rule has an entry. -/
theorem exists_resolveAccess_iff {inherited : AuthTable} {rules : List (Scope × Rule)} :
    (∃ table, resolveAccess registry path inherited rules = .ok table) ↔
      ∀ r ∈ rules, ∃ entry, entryOf registry path r.2 = .ok entry := by
  have each : (∀ r ∈ rules, ∃ entry, entryOf registry path r.2 = .ok entry) ↔
      ∀ r ∈ widestFirst rules, ∃ entry, entryOf registry path r.2 = .ok entry := by
    simp only [mem_widestFirst]
  rw [each, ← exists_entriesOf_iff]
  constructor
  · intro holds
    obtain ⟨table, resolved⟩ := holds
    obtain ⟨entries, compiled, -⟩ := exists_of_map_eq_ok resolved
    exact ⟨entries, compiled⟩
  · intro holds
    obtain ⟨entries, compiled⟩ := holds
    rw [resolveAccess, compiled]
    exact ⟨_, rfl⟩

/-- The deciding rule settles a single entry. -/
theorem Settles.unique {passedOn entry entry' : AuthEntry} {rule? : Option Rule}
    (settles : Settles registry path passedOn entry rule?)
    (settles' : Settles registry path passedOn entry' rule?) : entry = entry' := by
  cases rule? with
  | none =>
    have kept : entry = passedOn := settles
    have kept' : entry' = passedOn := settles'
    rw [kept, kept']
  | some rule =>
    have compiled : entryOf registry path rule = .ok entry := settles
    exact Except.ok.inj (compiled.symm.trans settles')

/-- Rules in another order make the same table, as long as they decide alike. -/
theorem resolveAccess_alike {inherited table : AuthTable} {a a' : Declaration.Access}
    (alike : a.Alike a') (resolved : resolveAccess registry path inherited a.rules = .ok table) :
    resolveAccess registry path inherited a'.rules = .ok table := by
  have each := exists_resolveAccess_iff.mp ⟨table, resolved⟩
  obtain ⟨table', resolved'⟩ : ∃ table', resolveAccess registry path inherited a'.rules = .ok table' :=
    exists_resolveAccess_iff.mpr fun r member => each r (alike.rules.mem_iff.mpr member)
  have same : table = table' := by
    funext m
    have settles := resolveAccess_settles resolved m
    rw [alike.decide m] at settles
    exact settles.unique (resolveAccess_settles resolved' m)
  rw [resolved', same]

/-- Declarations that are alike compile to the same endpoint. -/
theorem compileOne_alike {above : Inherited} {d d' : Declaration} {e : Endpoint}
    (alike : d.Alike d') (compiled : compileOne registry above d = .ok e) :
    compileOne registry above d' = .ok e := by
  obtain ⟨key, path, access, fields, cors, handlers, filters, channel, collection⟩ :=
    compileOne_eq_ok compiled
  cases alike with
  | intro same =>
    rw [same.fields] at fields
    exact Compiled.compileOne_eq
      ⟨key, path, resolveAccess_alike same access, fields, cors, handlers, filters, channel,
        collection⟩

mutual

/-- Trees that differ in the order of rules compile to one model. -/
theorem compile_alike : ∀ {tree tree' : Tree Declaration} {above : Inherited} {model : Model},
    Declaration.TreeAlike tree tree' → compile registry above tree = .ok model →
      compile registry above tree' = .ok model
  | .node d children, .node d' children', above, model, .node alike alikes, compiled => by
    rw [compile] at compiled ⊢
    cases oneEq : compileOne registry above d with
    | error fault =>
      rw [oneEq] at compiled
      cases compiled
    | ok e =>
      rw [oneEq] at compiled
      obtain ⟨models, childrenEq, rfl⟩ := exists_of_map_eq_ok compiled
      simp only [compileOne_alike alike oneEq, compileAll_alike alikes childrenEq, Except.map]

/-- Trees that are alike compile to the same models. -/
theorem compileAll_alike : ∀ {trees trees' : List (Tree Declaration)} {above : Inherited}
    {models : List Model},
    Declaration.TreesAlike trees trees' → compileAll registry above trees = .ok models →
      compileAll registry above trees' = .ok models
  | [], _, above, models, .nil, compiled => compiled
  | t :: rest, _, above, models, .cons first alikes, compiled => by
    rw [compileAll] at compiled ⊢
    cases firstEq : compile registry above t with
    | error fault =>
      rw [firstEq] at compiled
      cases compiled
    | ok m =>
      rw [firstEq] at compiled
      obtain ⟨further, restEq, rfl⟩ := exists_of_map_eq_ok compiled
      simp only [compile_alike first firstEq, compileAll_alike alikes restEq, Except.map]

end

/-- In every tree that compiles, the entry of every endpoint for every method is what
the narrowest rule makes of it that the endpoint itself declares for the method, and
the entry of the endpoint above where it declares none. Read off a document, that rule
is the one under the method's own key, else under the key of its group, else of the
common keys; and the order in which the keys of `auth` objects are written has no
influence on the model at all. -/
theorem entries_are_governed_by_own_rules {tree : Tree Declaration} {model : Model}
    (compiled : compile registry (.root defaults) tree = .ok model) :
    List.Forall₂ (fun ds es => Prevails registry (ownRule? (ds.map (·.access))) (pathOf? ds) es)
        (tree.lineages []) (model.lineages []) ∧
      ∀ raw, Declaration.ofJson "/" "" raw = .ok tree →
        List.Forall₂
          (fun site es =>
            Prevails registry (fun m => (site.own? m).map Rule.ofJson) (some site.path) es)
          (Declaration.sites "/" [] raw) (model.lineages []) ∧
        ∀ raw', Json.Reordered raw raw' → Model.ofJson registry defaults raw' = .ok model := by
  refine ⟨compile_prevails compiled, fun raw read => ⟨compile_prevails_at_sites read compiled, ?_⟩⟩
  intro raw' reordered
  obtain ⟨tree', readAgain, alike⟩ := Declaration.ofJson_reordered reordered read
  rw [Model.ofJson, readAgain]
  exact compile_alike alike compiled

theorem reordered_keys_govern_alike :
    let owner : Policy := ⟨"owner", fun _ ctx => (.proceed (), ctx)⟩
    let registry := Registry.empty.addPolicy "owner" owner
    let keys : List (String × Json) :=
      [("requiresRoles", .string "admin"), ("read", .bool true),
        ("GET", .object [("policies", .string "owner")])]
    let notes : String × Json := ("/notes", .object [("auth", .object [("PUT", .bool false)])])
    ∃ tree model, Declaration.ofJson "/" "" (.object [("auth", .object keys), notes]) = .ok tree ∧
      compile registry (.root {}) tree = .ok model ∧
      List.Forall₂ (fun ds es => Prevails registry (ownRule? (ds.map (·.access))) (pathOf? ds) es)
        (tree.lineages []) (model.lineages []) ∧
      Model.ofJson registry {} (.object [("auth", .object keys.reverse), notes]) = .ok model := by
  intro owner registry keys notes
  have reordered : Json.Reordered (.object [("auth", .object keys), notes])
      (.object [("auth", .object keys.reverse), notes]) :=
    .object (.auth keys.reverse_perm.symm (by decide) (.keep notes .nil))
  refine ⟨_, _, rfl, rfl, (@entries_are_governed_by_own_rules registry {} _ _ rfl).1, ?_⟩
  exact ((@entries_are_governed_by_own_rules registry {} _ _ rfl).2 _ rfl).2 _ reordered

end Endpoint

end EndpointTree
