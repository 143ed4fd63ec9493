import EndpointTree.Proofs.Endpoint.Checks

/-!
# What the endpoints of a document declare

A document is read endpoint by endpoint, and what is read of one of them depends on the members
of its own object alone: the last member under `auth`, `handlers`, `filters` and `realTime`.
What an endpoint inherits hangs on the objects around its own, from the innermost to the root of
the document. A branch lists these, so it is to a document what a lineage is to the tree that is
read from it.

* `Declaration.sources` lists the endpoints of a document with their members, and
  `Declaration.branches` each with those above it.
* `Declaration.ofJson_lineages` carries a statement from the reading of one endpoint to a
  document.
* `Declaration.ofJson_sources`: the endpoints of the tree that is read are these, in the same
  order; `Declaration.ofJson_branches`: each of its lineages is read from its branch.
-/

namespace EndpointTree

/-- Lists that are related through a third one, element by element. -/
theorem forall₂_comp {α β γ : Type} {R : α → β → Prop} {S : β → γ → Prop} {T : α → γ → Prop}
    (both : ∀ {a b c}, R a b → S b c → T a c) {as : List α} {bs : List β} {cs : List γ}
    (first : List.Forall₂ R as bs) (second : List.Forall₂ S bs cs) : List.Forall₂ T as cs := by
  induction first generalizing cs with
  | nil =>
    cases second
    exact .nil
  | cons here _ ih =>
    cases second with
    | cons there rest => exact .cons (both here there) (ih rest)

theorem flatMap_eq_of_forall₂ {α β γ : Type} {R : α → β → Prop} {f : α → List γ} {g : β → List γ}
    (same : ∀ {a b}, R a b → f a = g b) {as : List α} {bs : List β}
    (related : List.Forall₂ R as bs) : as.flatMap f = bs.flatMap g := by
  induction related with
  | nil => rfl
  | cons here _ ih => rw [List.flatMap_cons, List.flatMap_cons, same here, ih]

/-- What is found first in related lists is related. -/
theorem rel_findSome? {α β γ δ : Type} {R : α → β → Prop} {S : γ → δ → Prop} {f : α → Option γ}
    {g : β → Option δ} (each : ∀ {a b}, R a b → Option.Rel S (f a) (g b)) {as : List α}
    {bs : List β} (related : List.Forall₂ R as bs) :
    Option.Rel S (as.findSome? f) (bs.findSome? g) := by
  induction related with
  | nil => exact .none
  | @cons a b _ _ here _ ih =>
    have first := each here
    rw [List.findSome?_cons, List.findSome?_cons]
    generalize f a = c?, g b = d? at first
    cases first with
    | some holds => exact .some holds
    | none => exact ih

/-- What stands at the same place in related lists is related. -/
theorem rel_getElem? {α β : Type} {R : α → β → Prop} {as : List α} {bs : List β}
    (related : List.Forall₂ R as bs) (i : Nat) : Option.Rel R as[i]? bs[i]? := by
  induction related generalizing i with
  | nil => exact .none
  | cons here _ ih =>
    cases i with
    | zero => exact .some here
    | succ i => exact ih i

namespace Declaration

/-! ## Sections -/

/-- The names that a value declares; one that declares none has none. -/
def namesIn (value : Json) : List String := (names? value).getD []

/-- The lists of names in a handler section. -/
def listsIn (value : Json) : HandlerLists :=
  (membersOf value).filterMap fun m => (HandlerScope.ofKey? m.1).map fun s => (s, namesIn m.2)

/-- The names of a real-time section. -/
def channelIn (value : Json) : Channel :=
  let stage (key : String) := (value.member? key).toList.flatMap namesIn
  ⟨stage "connect", stage "message", stage "disconnect"⟩

theorem namesIn_of_names? {value : Json} {names : List String}
    (declared : names? value = some names) : namesIn value = names := by
  rw [namesIn, declared]
  rfl

theorem handlerLists_eq_ok {path key : String} {value : Json} {lists : HandlerLists}
    (read : HandlerLists.ofJson path key value = .ok lists) : lists = listsIn value := by
  cases value with
  | object members =>
    rw [HandlerLists.ofJson] at read
    rw [listsIn, membersOf, Json.members?, Option.getD_some]
    induction members generalizing lists with
    | nil =>
      cases read
      rfl
    | cons m rest ih =>
      rw [HandlerLists.ofMembers] at read
      split at read
      · cases read
      · next names declared =>
        split at read
        · cases read
        · next further readRest =>
          rw [List.filterMap_cons, ← ih readRest, namesIn_of_names? declared]
          cases scopeEq : HandlerScope.ofKey? m.1 with
          | none | some scope =>
            rw [scopeEq] at read
            cases read
            rfl
  | null | bool | number | string | array => cases read

theorem stageNames_eq_ok {path key : String} {members : List (String × Json)} {names : List String}
    (read : Channel.stageNames path key members = .ok names) :
    names = (members.lookup key).toList.flatMap namesIn := by
  unfold Channel.stageNames at read
  split at read
  · next absent =>
    cases read
    rw [absent]
    rfl
  · next null =>
    cases read
    rw [null]
    rfl
  · next value _ found =>
    rw [found, Option.toList_some, List.flatMap_singleton]
    split at read
    · next names' declared =>
      cases read
      rw [namesIn_of_names? declared]
    · cases read

theorem channel_eq_ok {path : String} {value : Json} {channel : Channel}
    (read : Channel.ofJson path value = .ok channel) : channel = channelIn value := by
  cases value with
  | object members =>
    obtain ⟨connect, connectEq, read⟩ := exists_of_bind_eq_ok read
    obtain ⟨message, messageEq, read⟩ := exists_of_bind_eq_ok read
    obtain ⟨disconnect, disconnectEq, read⟩ := exists_of_bind_eq_ok read
    cases read
    rw [stageNames_eq_ok connectEq, stageNames_eq_ok messageEq, stageNames_eq_ok disconnectEq]
    rfl
  | null | bool | number | string | array => cases read

/-- The names that one setting declares. -/
theorem put_names {path key : String} {value : Json} {d d' : Declaration}
    (read : put path key value d = .ok d') :
    d'.handlers = (if key = "handlers" then listsIn value else d.handlers) ∧
      d'.filters = (if key = "filters" then listsIn value else d.filters) ∧
      d'.channel = (if key = "realTime" then channelIn value else d.channel) := by
  unfold put at read
  split at read
  · next auth =>
    cases read
    simp [auth]
  split at read
  · next cors =>
    split at read <;> cases read
    simp [cors]
  split at read
  · next handlers =>
    obtain ⟨lists, listsEq, rfl⟩ := exists_of_map_eq_ok read
    simp [handlers, handlerLists_eq_ok listsEq]
  split at read
  · next filters =>
    obtain ⟨lists, listsEq, rfl⟩ := exists_of_map_eq_ok read
    simp [filters, handlerLists_eq_ok listsEq]
  split at read
  · next realTime =>
    obtain ⟨channel, channelEq, rfl⟩ := exists_of_map_eq_ok read
    simp [realTime, channel_eq_ok channelEq]
  split at read
  · next collection =>
    split at read <;> cases read
    simp [collection]
  · next handlers filters realTime _ =>
    cases read
    exact ⟨(if_neg handlers).symm, (if_neg filters).symm, (if_neg realTime).symm⟩

/-- What a key declares, its last member decides. -/
theorem settled_of_ofMembers {β : Type} {part : Declaration → β} {of : Json → β} {key : String}
    (notChild : Path.isChildKey key = false)
    (settles : ∀ {path k value d d'}, put path k value d = .ok d' →
      part d' = if k = key then of value else part d)
    {members : List (String × Json)} {path : String} {d : Declaration}
    {children : List (Tree Declaration)} {tree : Tree Declaration}
    (read : ofMembers path d children members = .ok tree) :
    part tree.value = ((lastUnder? key members).map of).getD (part d) := by
  induction members generalizing d children with
  | nil =>
    cases read
    rfl
  | cons m rest ih =>
    obtain ⟨k, value⟩ := m
    rw [ofMembers] at read
    rw [lastUnder?_cons]
    split at read
    · next child =>
      have other : k ≠ key := by
        intro same
        rw [same, notChild] at child
        cases child
      split at read
      · cases read
      · rw [ih read, if_neg other, Option.or_none]
    · split at read
      · cases read
      · next between put =>
        rw [ih read, settles put]
        cases lastUnder? key rest with
        | some last => rfl
        | none => by_cases here : k = key <;> simp [here]

/-! ## Endpoints -/

/-- An endpoint in a document: its path, and the members of its object. -/
structure Source where
  path : String
  members : List (String × Json)

mutual

/-- The endpoint at `path` and all below it, in the order of reading. -/
def sources (path : String) : Json → List Source
  | .object members => ⟨path, members⟩ :: sourcesIn path members
  | _ => []

/-- The endpoints that members declare below the one at `path`. -/
def sourcesIn (path : String) : List (String × Json) → List Source
  | [] => []
  | (key, value) :: rest =>
    (if Path.isChildKey key then sources (Path.join path key) value else []) ++
      sourcesIn path rest

end

mutual

/-- For the endpoint at `path` and all below it, in the order of reading, the endpoints from it
up to the root and on through those `above`, nearest first. -/
def branches (path : String) (above : List Source) : Json → List (List Source)
  | .object members =>
    let branch := ⟨path, members⟩ :: above
    branch :: branchesIn path branch members
  | _ => []

/-- The branches that members declare below the endpoint at `path`. -/
def branchesIn (path : String) (branch : List Source) :
    List (String × Json) → List (List Source)
  | [] => []
  | (key, value) :: rest =>
    (if Path.isChildKey key then branches (Path.join path key) branch value else []) ++
      branchesIn path branch rest

end

mutual

/-- Each branch begins with the endpoint that it is the branch of. -/
theorem map_head?_branches (path : String) (above : List Source) :
    ∀ raw : Json, (branches path above raw).map List.head? = (sources path raw).map some
  | .object members => by
    rw [branches, sources, List.map_cons, List.map_cons,
      map_head?_branchesIn path (⟨path, members⟩ :: above) members]
    rfl
  | .null | .bool _ | .number _ | .string _ | .array _ => rfl

theorem map_head?_branchesIn (path : String) (branch : List Source) :
    ∀ members : List (String × Json),
      (branchesIn path branch members).map List.head? = (sourcesIn path members).map some
  | [] => rfl
  | (key, value) :: rest => by
    rw [branchesIn, sourcesIn, List.map_append, List.map_append, map_head?_branchesIn path branch rest]
    split
    · rw [map_head?_branches (Path.join path key) branch value]
    · rfl

end

/-! ## Reading -/

/-- A declaration is read from the members of an endpoint. -/
def ReadFrom (s : Source) (d : Declaration) : Prop :=
  ∃ key tree, ofMembers s.path { key } [] s.members = .ok tree ∧ tree.value = d

/-- What one key declares is what its last member makes of it. -/
theorem ReadFrom.settled {β : Type} {part : Declaration → β} {of : Json → β} {key : String}
    (notChild : Path.isChildKey key = false)
    (settles : ∀ {path k value d d'}, put path k value d = .ok d' →
      part d' = if k = key then of value else part d)
    {blank : β} (unset : ∀ key, part { key } = blank) {s : Source} {d : Declaration}
    (read : ReadFrom s d) : part d = ((lastUnder? key s.members).map of).getD blank := by
  obtain ⟨own, tree, read, rfl⟩ := read
  rw [settled_of_ofMembers notChild settles read, unset]

section Lineages

variable (inv : List Source → List Declaration → Prop)
  {post : List Source → List Declaration → Prop}

mutual

/-- What the reading of one endpoint gives and passes on, all of them have: if the invariant
holds above a document, every branch and the lineage that is read from it satisfy the statement
that a single endpoint gives of them. -/
theorem ofJson_lineages
    (one : ∀ {above ds s d}, inv above ds → pathOf? (d :: ds) = some s.path → ReadFrom s d →
      post (s :: above) (d :: ds) ∧ inv (s :: above) (d :: ds)) :
    ∀ {raw : Json} {path key : String} {tree : Tree Declaration} {above : List Source}
      {ds : List Declaration},
      inv above ds → ofJson path key raw = .ok tree → pathUnder (pathOf? ds) key = path →
        List.Forall₂ post (branches path above raw) (tree.lineages ds)
  | .object members, path, key, .node d children, above, ds, holds, read, pathEq => by
    rw [ofJson] at read
    obtain ⟨_, _, same, keyEq, -⟩ := ofMembers_sites read
    obtain ⟨rfl, -⟩ := Tree.node.inj same
    obtain ⟨further, childrenEq, below⟩ := ofMembers_lineages one read
    obtain rfl : children = further := childrenEq
    have placed : pathOf? (d :: ds) = some path := by rw [pathOf?, keyEq, pathEq]
    have own : ReadFrom ⟨path, members⟩ d := ⟨key, _, read, rfl⟩
    obtain ⟨here, passed⟩ := @one above ds ⟨path, members⟩ d holds placed own
    rw [Tree.lineages, branches]
    exact .cons here (below passed placed)
  | .null, _, _, _, _, _, _, read, _ => nomatch read
  | .bool _, _, _, _, _, _, _, read, _ => nomatch read
  | .number _, _, _, _, _, _, _, read, _ => nomatch read
  | .string _, _, _, _, _, _, _, read, _ => nomatch read
  | .array _, _, _, _, _, _, _, read, _ => nomatch read

theorem ofMembers_lineages
    (one : ∀ {above ds s d}, inv above ds → pathOf? (d :: ds) = some s.path → ReadFrom s d →
      post (s :: above) (d :: ds) ∧ inv (s :: above) (d :: ds)) :
    ∀ {members : List (String × Json)} {path : String} {d : Declaration}
      {children : List (Tree Declaration)} {tree : Tree Declaration},
      ofMembers path d children members = .ok tree →
        ∃ further, tree.children = children ++ further ∧
          ∀ {branch : List Source} {ds : List Declaration}, inv branch ds →
            pathOf? ds = some path →
            List.Forall₂ post (branchesIn path branch members) (Tree.lineagesOf ds further)
  | [], path, d, children, tree, read => by
    cases read
    exact ⟨[], (List.append_nil children).symm, fun _ _ => .nil⟩
  | (key, value) :: rest, path, d, children, tree, read => by
    rw [ofMembers] at read
    by_cases child : Path.isChildKey key = true
    · rw [if_pos child] at read
      cases first : ofJson (Path.join path key) key value with
      | error fault =>
        rw [first] at read
        cases read
      | ok t =>
        rw [first] at read
        obtain ⟨further, childrenEq, below⟩ := ofMembers_lineages one read
        refine ⟨t :: further, ?_, fun {branch ds} holds here => ?_⟩
        · rw [childrenEq, List.append_assoc, List.singleton_append]
        · have under : pathUnder (pathOf? ds) key = Path.join path key := by
            rw [here]
            rfl
          rw [branchesIn, if_pos child, Tree.lineagesOf]
          exact List.rel_append (ofJson_lineages one holds first under) (below holds here)
    · rw [if_neg child] at read
      cases first : put path key value d with
      | error fault =>
        rw [first] at read
        cases read
      | ok between =>
        rw [first] at read
        obtain ⟨further, childrenEq, below⟩ := ofMembers_lineages one read
        refine ⟨further, childrenEq, fun {branch ds} holds here => ?_⟩
        rw [branchesIn, if_neg child, List.nil_append]
        exact below holds here

end

end Lineages

/-- What a declaration has of the settings, members settle: the last under each key. -/
structure DeclaredBy (members : List (String × Json)) (d : Declaration) : Prop where
  access : d.access = ((lastUnder? "auth" members).map Access.ofJson).getD {}
  handlers : d.handlers = ((lastUnder? "handlers" members).map listsIn).getD []
  filters : d.filters = ((lastUnder? "filters" members).map listsIn).getD []
  channel : d.channel = ((lastUnder? "realTime" members).map channelIn).getD {}

/-- A lineage begins with the declaration of an endpoint, at its path. -/
inductive StandsAt (s : Source) : List Declaration → Prop
  | intro {d : Declaration} {above : List Declaration} :
    pathOf? (d :: above) = some s.path → DeclaredBy s.members d → StandsAt s (d :: above)

theorem ReadFrom.declaredBy {s : Source} {d : Declaration} (read : ReadFrom s d) :
    DeclaredBy s.members d where
  access := read.settled (by decide) (fun put => (put_eq_ok put).2) fun _ => rfl
  handlers := read.settled (by decide) (fun put => (put_names put).1) fun _ => rfl
  filters := read.settled (by decide) (fun put => (put_names put).2.1) fun _ => rfl
  channel := read.settled (by decide) (fun put => (put_names put).2.2) fun _ => rfl

/-- The endpoints of a tree that is read are those of the document, in the same order. -/
theorem ofJson_sources {raw : Json} {path key : String} {tree : Tree Declaration}
    {ds : List Declaration} (read : ofJson path key raw = .ok tree)
    (pathEq : pathUnder (pathOf? ds) key = path) :
    List.Forall₂ StandsAt (sources path raw) (tree.lineages ds) := by
  have each : List.Forall₂ (fun branch ds => ∃ s, List.head? branch = some s ∧ StandsAt s ds)
      (branches path [] raw) (tree.lineages ds) :=
    ofJson_lineages (fun _ _ => True)
      (fun {above ds s d} _ path read => ⟨⟨s, rfl, .intro path read.declaredBy⟩, trivial⟩)
      trivial read pathEq
  have heads : List.Forall₂ (fun first ds => ∃ s, first = some s ∧ StandsAt s ds)
      ((sources path raw).map some) (tree.lineages ds) := by
    rw [← map_head?_branches path [] raw, List.forall₂_map_left_iff]
    exact each
  exact (List.forall₂_map_left_iff.mp heads).imp fun s ds found => by
    obtain ⟨_, same, stands⟩ := found
    rwa [Option.some.inj same]

/-- A lineage is read from a branch, declaration by declaration, and stands at its paths. -/
inductive Lineal : List Source → List Declaration → Prop
  | nil : Lineal [] []
  | cons {s : Source} {d : Declaration} {branch : List Source} {ds : List Declaration} :
    pathOf? (d :: ds) = some s.path → ReadFrom s d → Lineal branch ds →
    Lineal (s :: branch) (d :: ds)

theorem Lineal.readFrom {branch : List Source} {ds : List Declaration} (lineal : Lineal branch ds) :
    List.Forall₂ ReadFrom branch ds := by
  induction lineal with
  | nil => exact .nil
  | cons _ here _ ih => exact .cons here ih

theorem Lineal.path {branch : List Source} {ds : List Declaration} (lineal : Lineal branch ds) :
    branch.head?.map (·.path) = pathOf? ds := by
  cases lineal with
  | nil => rfl
  | cons path => exact path.symm

/-- The lineages of a tree that is read are read from the branches of the document. -/
theorem ofJson_branches {raw : Json} {key : String} {tree : Tree Declaration}
    (read : ofJson "/" key raw = .ok tree) :
    List.Forall₂ Lineal (branches "/" [] raw) (tree.lineages []) :=
  ofJson_lineages Lineal
    (fun lineal path read => ⟨.cons path read lineal, .cons path read lineal⟩)
    .nil read rfl

end Declaration

end EndpointTree
