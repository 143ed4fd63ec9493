import EndpointTree.Proofs.Endpoint.References

/-!
# Which documents are accepted

Everything in a document is read before anything is compiled, and reading fails at the first
check that does not hold. Compiling goes through the tree once more, an endpoint before those
below it, and fails at the first name that is not registered. Nothing else can go wrong.

* `Endpoint.faultIn_compile`: the fault in compiling is that of the first unknown name.
* `Model.faults_are_exact` says of a whole document when it is accepted, and else which fault
  it has.
-/

namespace EndpointTree

/-! ## Compiling -/

namespace Endpoint

open Declaration (Reference Rule Scope HandlerScope HandlerLists pathUnder pathOf? referencesOf
  referencesAt)

variable (registry : Registry)

/-- The fault of the first reference to an unknown name. -/
def firstUnknown? (references : List Reference) : Option CompileFault :=
  references.findSome? (Reference.fault? registry)

/-- References in two parts are looked up one part after the other. -/
theorem firstUnknown?_append (references further : List Reference) :
    firstUnknown? registry (references ++ further) =
      (firstUnknown? registry references).or (firstUnknown? registry further) :=
  List.findSome?_append

/-- Nothing is unknown when each of the references is registered. -/
theorem firstUnknown?_eq_none_iff {references : List Reference} :
    firstUnknown? registry references = none ↔ ∀ r ∈ references, r.IsRegistered registry := by
  simp only [firstUnknown?, List.findSome?_eq_none_iff, Reference.fault?_eq_none_iff]

/-- The fault is that of a reference before which all are registered. -/
theorem firstUnknown?_eq_some_iff {references : List Reference} {fault : CompileFault} :
    firstUnknown? registry references = some fault ↔ ∃ before r after,
      references = before ++ r :: after ∧ (∀ r ∈ before, r.IsRegistered registry) ∧
        ¬ r.IsRegistered registry ∧ fault = r.fault := by
  simp only [firstUnknown?, List.findSome?_eq_some_iff, Reference.fault?_eq_none_iff,
    Reference.fault?_eq_some_iff, and_comm]

/-- Looking names up in a table fails at the first one that is unknown. -/
theorem faultIn_lookUp {α β : Type} {table : Dict α} (make : String → α → β)
    (reference : String → Reference)
    (known : ∀ name, (reference name).isUnknown registry = (table.get? name).isNone)
    (names : List String) :
    faultIn (lookUp table make (fun name => (reference name).fault) names) =
      firstUnknown? registry (names.map reference) := by
  induction names with
  | nil => rfl
  | cons name rest ih =>
    rw [lookUp, List.map_cons, ← List.singleton_append, firstUnknown?_append, ← ih, firstUnknown?,
      List.findSome?_singleton, Reference.fault?, known]
    cases table.get? name with
    | none => rfl
    | some value => exact faultIn_map _

/-- A rule refers to nothing but its policies, in the order in which it lists them. -/
theorem faultIn_entryOf (path : String) (rule : Rule) :
    faultIn (entryOf registry path rule) =
      firstUnknown? registry (rule.policies.map (.policy path)) := by
  cases rule with
  | deny | allow | malformed => rfl
  | require auth roles policies =>
    exact (faultIn_map _).trans
      (faultIn_lookUp registry _ (.policy path) (fun _ => rfl) policies)

theorem faultIn_entriesOf (path : String) (rules : List (Scope × Rule)) :
    faultIn (entriesOf registry path rules) =
      firstUnknown? registry ((rules.flatMap (·.2.policies)).map (.policy path)) := by
  induction rules with
  | nil => rfl
  | cons r rest ih =>
    rw [entriesOf, List.flatMap_cons, List.map_append, firstUnknown?_append, ← ih]
    exact faultIn_bind (faultIn_entryOf registry path r.2) fun _ => faultIn_bind_pure _

/-- The rules for many methods are looked up before those for few. -/
theorem faultIn_resolveAccess (path : String) (inherited : AuthTable)
    (rules : List (Scope × Rule)) :
    faultIn (resolveAccess registry path inherited rules) =
      firstUnknown? registry (((widestFirst rules).flatMap (·.2.policies)).map (.policy path)) :=
  (faultIn_map _).trans (faultIn_entriesOf registry path (widestFirst rules))

theorem faultIn_resolveFields (path : String) (access : AuthTable)
    (inherited : List (String × AuthTable)) (fields : List (String × Declaration.Access)) :
    faultIn (resolveFields registry path access inherited fields) =
      firstUnknown? registry ((fields.flatMap fun f =>
        (widestFirst f.2.rules).flatMap (·.2.policies)).map (.policy path)) := by
  induction fields generalizing inherited with
  | nil => rfl
  | cons f rest ih =>
    rw [resolveFields, List.flatMap_cons, List.map_append, firstUnknown?_append]
    exact faultIn_bind (faultIn_resolveAccess registry path access f.2.rules) fun _ => ih _

theorem faultIn_assignHandlers (path kind : String) (table : HandlerTable)
    (lists : HandlerLists) :
    faultIn (assignHandlers registry path kind table lists) =
      firstUnknown? registry ((lists.flatMap (·.2)).map (.handler path kind)) := by
  induction lists generalizing table with
  | nil => rfl
  | cons l rest ih =>
    rw [assignHandlers, List.flatMap_cons, List.map_append, firstUnknown?_append]
    exact faultIn_bind (faultIn_lookUp registry _ (.handler path kind) (fun _ => rfl) l.2)
      fun _ => ih _

/-- A real-time section is looked up stage by stage. -/
theorem faultIn_resolveChannel (path : String) (channel : Declaration.Channel) :
    faultIn (resolveChannel registry path channel) = firstUnknown? registry
      ((channel.connect ++ channel.message ++ channel.disconnect).map (.channel path)) := by
  have stage (names : List String) :
      faultIn (lookUp registry.channels Channel.NamedHandler.mk (.unknownChannelHandler path)
          names) = firstUnknown? registry (names.map (.channel path)) :=
    faultIn_lookUp registry _ (.channel path) (fun _ => rfl) names
  rw [List.append_assoc, List.map_append, List.map_append, firstUnknown?_append,
    firstUnknown?_append]
  exact faultIn_bind (stage channel.connect) fun _ => faultIn_bind (stage channel.message) fun _ =>
    (faultIn_bind_pure _).trans (stage channel.disconnect)

/-- An endpoint has the fault of the first of its own references that is unknown. -/
theorem faultIn_compileOne (above : Inherited) (d : Declaration) :
    faultIn (compileOne registry above d) =
      firstUnknown? registry (referencesOf (pathUnder above.path d.key) d) := by
  rw [referencesOf, List.map_append]
  simp only [List.append_assoc, firstUnknown?_append, compileOne]
  rw [← List.append_assoc]
  exact faultIn_bind (faultIn_resolveAccess registry _ _ _) fun _ =>
    faultIn_bind (faultIn_resolveFields registry _ _ _ _) fun _ =>
    faultIn_bind (faultIn_assignHandlers registry _ _ _ _) fun _ =>
    faultIn_bind (faultIn_assignHandlers registry _ _ _ _) fun _ =>
    (faultIn_bind_pure _).trans (faultIn_resolveChannel registry _ _)

mutual

/-- The fault in compiling a tree is that of the first reference to an unknown name. -/
theorem faultIn_compile :
    ∀ (tree : Tree Declaration) {above : Inherited} {ds : List Declaration},
      above.path = pathOf? ds →
        faultIn (compile registry above tree) =
          firstUnknown? registry ((tree.lineages ds).flatMap referencesAt)
  | .node d children, above, ds, samePath => by
    rw [compile, Tree.lineages, List.flatMap_cons, firstUnknown?_append, referencesAt, ← samePath,
      ← faultIn_compileOne]
    cases compiled : compileOne registry above d with
    | error fault => rfl
    | ok e =>
      obtain ⟨key, path, -⟩ := compileOne_eq_ok compiled
      have passed : e.passOn.path = pathOf? (d :: ds) := by
        rw [passOn, pathOf?, ← samePath, path]
        rfl
      exact (faultIn_map _).trans (faultIn_compileAll children passed)

/-- Trees have the fault of the first unknown reference in them, each endpoint before those below
it. -/
theorem faultIn_compileAll :
    ∀ (trees : List (Tree Declaration)) {above : Inherited} {ds : List Declaration},
      above.path = pathOf? ds →
        faultIn (compileAll registry above trees) =
          firstUnknown? registry ((Tree.lineagesOf ds trees).flatMap referencesAt)
  | [], _, _, _ => rfl
  | t :: rest, above, ds, samePath => by
    rw [compileAll, Tree.lineagesOf, List.flatMap_append, firstUnknown?_append,
      ← faultIn_compile t samePath]
    cases compile registry above t with
    | error fault => rfl
    | ok m => exact (faultIn_map _).trans (faultIn_compileAll rest samePath)

end

end Endpoint

/-! ## Documents -/

namespace Model

open Declaration (checks references policiesIn namesIn IsRule)

/-- No name is looked up in a document that cannot be read. -/
theorem faultIn_ofJson (registry : Registry) (defaults : CorsOptions) (raw : Json) :
    faultIn (Model.ofJson registry defaults raw) =
      ((Declaration.firstFault? (checks "/" raw)).map .declaration).or
        (Endpoint.firstUnknown? registry (references "/" raw)) := by
  rw [Model.ofJson, ← Declaration.faultIn_ofJson raw "/" ""]
  cases read : Declaration.ofJson "/" "" raw with
  | error fault => rfl
  | ok tree =>
    rw [← @Declaration.references_ofJson raw "/" "" tree [] read rfl]
    exact Endpoint.faultIn_compile registry tree rfl

-- an unknown handler at the root, and below it a collection that is no name
example :
    Model.ofJson .empty {} (.object [("handlers", .object [("GET", .string "nobody")]),
      ("/notes", .object [("collection", .null)])]) =
      .error (.declaration (.notASection "/notes" "collection")) := rfl

end Model

end EndpointTree
