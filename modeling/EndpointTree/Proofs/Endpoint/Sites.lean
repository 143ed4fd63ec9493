import EndpointTree.Proofs.Endpoint.Rules

/-!
# Endpoints in a document

What decides a method can be read off the document itself, before anything is
parsed: a site lists the values under `auth` from an endpoint up to the root, and
the nearest of them that says anything about the method decides it.

* `Declaration.sites` lists the sites of a document.
* `Declaration.ofJson_sites`: the parsed tree has the same sites.
* `Declaration.nearest?_declared`: the rule that decides a method in a lineage is
  the one parsed from the value that decides it at the site.
-/

namespace EndpointTree

namespace Declaration

/-- Where an endpoint stands in a document: its path, and the values under `auth` at
it and at all endpoints above it, nearest first. -/
structure Site where
  path : String
  auths : List (Option Json)

mutual

/-- The sites of the endpoint at `path` and of all below it, in the order of reading. -/
def sites (path : String) (above : List (Option Json)) : Json → List Site
  | .object members =>
    let auths := lastUnder? "auth" members :: above
    ⟨path, auths⟩ :: sitesIn path auths members
  | _ => []

/-- The sites that members declare below the endpoint at `path`. -/
def sitesIn (path : String) (auths : List (Option Json)) : List (String × Json) → List Site
  | [] => []
  | (key, value) :: rest =>
    (if Path.isChildKey key then sites (Path.join path key) auths value else []) ++
      sitesIn path auths rest

end

/-- What the value under `auth` declares, if there is one. -/
def declared (auth : Option Json) : Access := (auth.map Access.ofJson).getD {}

/-- The path and the declared access of a lineage. -/
def outline (ds : List Declaration) : Option String × List Access :=
  (pathOf? ds, ds.map (·.access))

/-- The path and the declared access of a site. -/
def Site.outline (s : Site) : Option String × List Access := (some s.path, s.auths.map declared)

/-! ## Parsing -/

/-- Only `auth` changes the access that is declared. -/
theorem put_eq_ok {path key : String} {value : Json} {d d' : Declaration}
    (read : put path key value d = .ok d') :
    d'.key = d.key ∧ d'.access = if key = "auth" then Access.ofJson value else d.access := by
  unfold put at read
  by_cases auth : key = "auth"
  · rw [if_pos auth] at read
    cases read
    exact ⟨rfl, (if_pos auth).symm⟩
  · rw [if_neg auth] at read
    rw [if_neg auth]
    split at read
    · split at read <;> cases read
      exact ⟨rfl, rfl⟩
    · split at read
      · obtain ⟨lists, -, rfl⟩ := exists_of_map_eq_ok read
        exact ⟨rfl, rfl⟩
      · split at read
        · obtain ⟨lists, -, rfl⟩ := exists_of_map_eq_ok read
          exact ⟨rfl, rfl⟩
        · split at read
          · obtain ⟨channel, -, rfl⟩ := exists_of_map_eq_ok read
            exact ⟨rfl, rfl⟩
          · split at read
            · split at read <;> cases read
              exact ⟨rfl, rfl⟩
            · cases read
              exact ⟨rfl, rfl⟩

theorem ne_auth_of_isChildKey {key : String} (child : Path.isChildKey key = true) :
    key ≠ "auth" := by
  intro same
  subst same
  revert child
  decide

mutual

/-- A parsed tree has the sites of the document, in the same order. -/
theorem ofJson_sites : ∀ {raw : Json} {path key : String} {tree : Tree Declaration}
    {ds : List Declaration} {above : List (Option Json)},
    ofJson path key raw = .ok tree → pathUnder (pathOf? ds) key = path →
      ds.map (·.access) = above.map declared →
        (tree.lineages ds).map outline = (sites path above raw).map Site.outline
  | .object members, path, key, tree, ds, above, read, pathEq, sameAbove => by
    rw [ofJson] at read
    obtain ⟨d, children, rfl, keyEq, accessEq, below⟩ := ofMembers_sites read
    have here : outline (d :: ds) = Site.outline ⟨path, lastUnder? "auth" members :: above⟩ := by
      rw [outline, Site.outline, pathOf?, keyEq, pathEq, List.map_cons, List.map_cons, accessEq,
        sameAbove]
      rfl
    obtain ⟨pathHere, accessHere⟩ := Prod.mk.inj here
    rw [Tree.lineages, sites, List.map_cons, List.map_cons, here, List.nil_append,
      below pathHere accessHere]
  | .null, _, _, _, _, _, read, _, _ => nomatch read
  | .bool _, _, _, _, _, _, read, _, _ => nomatch read
  | .number _, _, _, _, _, _, read, _, _ => nomatch read
  | .string _, _, _, _, _, _, read, _, _ => nomatch read
  | .array _, _, _, _, _, _, read, _, _ => nomatch read

/-- The members of an endpoint make its own declaration, the last value under `auth`
counting, and behind what is already there the children that they declare. -/
theorem ofMembers_sites : ∀ {members : List (String × Json)} {path : String} {d : Declaration}
    {children : List (Tree Declaration)} {tree : Tree Declaration},
    ofMembers path d children members = .ok tree →
      ∃ d' further, tree = .node d' (children ++ further) ∧ d'.key = d.key ∧
        d'.access = ((lastUnder? "auth" members).map Access.ofJson).getD d.access ∧
        ∀ {ds : List Declaration} {auths : List (Option Json)}, pathOf? ds = some path →
          ds.map (·.access) = auths.map declared →
            (Tree.lineagesOf ds further).map outline = (sitesIn path auths members).map Site.outline
  | [], path, d, children, tree, read => by
    cases read
    refine ⟨d, [], ?_, rfl, rfl, fun _ _ => rfl⟩
    rw [List.append_nil]
  | (key, value) :: rest, path, d, children, tree, read => by
    rw [ofMembers] at read
    by_cases child : Path.isChildKey key = true
    · rw [if_pos child] at read
      cases first : ofJson (Path.join path key) key value with
      | error fault =>
        rw [first] at read
        cases read
      | ok t =>
        rw [first] at read
        obtain ⟨d', further, rfl, keyEq, accessEq, below⟩ := ofMembers_sites read
        refine ⟨d', t :: further, ?_, keyEq, ?_, fun {ds auths} pathEq same => ?_⟩
        · rw [List.append_assoc, List.singleton_append]
        · rw [lastUnder?_cons, if_neg (ne_auth_of_isChildKey child), Option.or_none, accessEq]
        · have under : pathUnder (pathOf? ds) key = Path.join path key := by
            rw [pathEq]
            rfl
          rw [Tree.lineagesOf, sitesIn, if_pos child, List.map_append, List.map_append,
            ofJson_sites first under same, below pathEq same]
    · rw [if_neg child] at read
      cases first : put path key value d with
      | error fault =>
        rw [first] at read
        cases read
      | ok next =>
        rw [first] at read
        obtain ⟨nextKey, nextAccess⟩ := put_eq_ok first
        obtain ⟨d', further, rfl, keyEq, accessEq, below⟩ := ofMembers_sites read
        refine ⟨d', further, rfl, keyEq.trans nextKey, ?_, fun {ds auths} pathEq same => ?_⟩
        · rw [accessEq, nextAccess, lastUnder?_cons]
          cases lastUnder? "auth" rest with
          | some value => rfl
          | none => by_cases auth : key = "auth" <;> simp [auth]
        · rw [sitesIn, if_neg child, List.nil_append, below pathEq same]

end

/-- What holds of the lineages of a tree that is read, by their paths and their access, holds of
the sites of the document. -/
theorem forall₂_sites {β : Type} (R : Option String → List Access → β → Prop) {raw : Json}
    {tree : Tree Declaration} (read : ofJson "/" "" raw = .ok tree) {bs : List β}
    (holds : List.Forall₂ (fun ds b => R (pathOf? ds) (ds.map (·.access)) b) (tree.lineages []) bs) :
    List.Forall₂ (fun s b => R (some s.path) (s.auths.map declared) b) (sites "/" [] raw) bs := by
  have sameSites : (tree.lineages []).map outline = (sites "/" [] raw).map Site.outline :=
    ofJson_sites read rfl rfl
  have outlined : List.Forall₂ (fun (o : Option String × List Access) b => R o.1 o.2 b)
      ((tree.lineages []).map outline) bs :=
    List.forall₂_map_left_iff.mpr holds
  rw [sameSites, List.forall₂_map_left_iff] at outlined
  exact outlined

/-! ## Deciding values -/

/-- The key of the group that a method belongs to. -/
def groupKey (m : AccessMethod) : String := if m.isRead then "read" else "write"

/-- The keys that form a rule for all methods, as an object of their own. -/
def common? (members : List (String × Json)) : Option Json :=
  let common := members.filter fun m => Access.commonKeys.contains m.1
  if common.isEmpty then none else some (.object common)

/-- The value that decides a method in what stands under `auth`: that of its own key,
else of its group's, else the common keys; a value that is no object decides all. -/
def deciding? (m : AccessMethod) : Json → Option Json
  | .object members =>
    (lastUnder? m.name members).or ((lastUnder? (groupKey m) members).or (common? members))
  | other => some other

/-- The value that decides a method at a site: that of the nearest endpoint which has one. -/
def Site.deciding? (s : Site) (m : AccessMethod) : Option Json :=
  s.auths.findSome? fun auth => auth.bind (Declaration.deciding? m)

/-- A rule for a method stands under its name. -/
theorem ofKey?_eq_method_iff {key : String} {m : AccessMethod} :
    Scope.ofKey? key = some (.method m) ↔ key = m.name := by
  constructor
  · intro found
    unfold Scope.ofKey? at found
    split at found
    · cases found
    · split at found
      · cases found
      · obtain ⟨m', named, same⟩ := Option.map_eq_some_iff.mp found
        cases same
        exact AccessMethod.ofName?_eq_some_iff.mp named
  · intro same
    subst same
    cases m with
    | http m => cases m <;> decide
    | realTime => decide

/-- A rule for a group stands under the name of the group. -/
theorem ofKey?_eq_groupOf_iff {key : String} {m : AccessMethod} :
    Scope.ofKey? key = some (.groupOf m) ↔ key = groupKey m := by
  rw [Scope.groupOf, groupKey]
  cases m.isRead <;> simp only [Scope.ofKey?, if_true, Bool.false_eq_true, if_false]
  · by_cases read : key = "read"
    · simp [read]
    · by_cases write : key = "write" <;> simp [read, write]
  · by_cases read : key = "read"
    · simp [read]
    · by_cases write : key = "write" <;> simp [read, write]

theorem ofKey?_ne_common (key : String) : Scope.ofKey? key ≠ some .common := by
  unfold Scope.ofKey?
  split
  · simp
  · split <;> simp

/-- Among the scoped members of an object, those of a scope are those under its key. -/
theorem lastUnder?_filterMap {σ β : Type} [DecidableEq σ] {ofKey? : String → Option σ} {scope : σ}
    {key : String} (named : ∀ k, ofKey? k = some scope ↔ k = key) (read : Json → β)
    (members : List (String × Json)) :
    lastUnder? scope (members.filterMap fun m => (ofKey? m.1).map fun scope => (scope, read m.2)) =
      (lastUnder? key members).map read := by
  induction members with
  | nil => rfl
  | cons m rest ih =>
    obtain ⟨k, value⟩ := m
    rw [lastUnder?_cons, Option.map_or, ← ih]
    cases scopeEq : ofKey? k with
    | none =>
      have other : k ≠ key := fun same => by
        rw [(named k).mpr same] at scopeEq
        cases scopeEq
      rw [if_neg other, List.filterMap_cons_none (by rw [scopeEq]; rfl), Option.map_none,
        Option.or_none]
    | some scope' =>
      rw [List.filterMap_cons_some (by rw [scopeEq]; rfl), lastUnder?_cons]
      have same : scope' = scope ↔ k = key := by rw [← named k, scopeEq, Option.some_inj]
      by_cases here : k = key
      · rw [if_pos here, if_pos (same.mpr here), Option.map_some]
      · rw [if_neg here, if_neg (same.not.mpr here), Option.map_none]

/-- The rule of a scope is the one under its key. -/
theorem lastUnder?_rulesOf {scope : Scope} {key : String}
    (named : ∀ k, Scope.ofKey? k = some scope ↔ k = key) (members : List (String × Json)) :
    lastUnder? scope (Access.rulesOf members) = (lastUnder? key members).map Rule.ofJson := by
  have notCommon : .common ≠ scope := by
    intro same
    subst same
    exact ofKey?_ne_common key ((named key).mpr rfl)
  rw [Access.rulesOf, lastUnder?_append, lastUnder?_filterMap named Rule.ofJson]
  split
  · exact Option.or_none
  · rw [lastUnder?_cons, if_neg notCommon]
    exact Option.or_none

theorem lastUnder?_rulesOf_common (members : List (String × Json)) :
    lastUnder? .common (Access.rulesOf members) = (common? members).map Rule.ofJson := by
  have none_scoped : lastUnder? .common (members.filterMap fun m =>
      (Scope.ofKey? m.1).map fun scope => (scope, Rule.ofJson m.2)) = none := by
    rw [lastUnder?, Option.map_eq_none_iff, List.find?_eq_none]
    intro r member
    obtain ⟨m, -, found⟩ := List.mem_filterMap.mp (List.mem_reverse.mp member)
    obtain ⟨scope, scopeEq, rfl⟩ := Option.map_eq_some_iff.mp found
    rw [decide_eq_true_eq]
    intro same
    subst same
    exact ofKey?_ne_common m.1 scopeEq
  rw [Access.rulesOf, lastUnder?_append, none_scoped, Option.none_or, common?]
  split <;> rfl

/-- The rule that decides a method is the one parsed from the value that decides it. -/
theorem decider?_ofJson (m : AccessMethod) (auth : Json) :
    decider? m (Access.ofJson auth).rules = (deciding? m auth).map Rule.ofJson := by
  cases auth with
  | object members =>
    rw [Access.ofJson, decider?, deciding?, Option.map_or, Option.map_or,
      lastUnder?_rulesOf fun k => ofKey?_eq_method_iff,
      lastUnder?_rulesOf fun k => ofKey?_eq_groupOf_iff, lastUnder?_rulesOf_common]
  | null | bool | number | string | array =>
    simp only [Access.ofJson, deciding?, decider?, Scope.groupOf]
    split <;> rfl

/-- The nearest rule that decides a method is the one of the nearest site that decides it. -/
theorem nearest?_declared (m : AccessMethod) (s : Site) :
    nearest? m (s.auths.map declared) = (s.deciding? m).map Rule.ofJson := by
  rw [nearest?, Site.deciding?, List.findSome?_map, List.map_findSome?]
  refine congrArg (s.auths.findSome? ·) (funext fun auth => ?_)
  cases auth with
  | none => rfl
  | some auth => exact decider?_ofJson m auth

end Declaration

end EndpointTree
