import EndpointTree.Proofs.Channel.Segments
import EndpointTree.Proofs.Endpoint.Checks
import EndpointTree.Proofs.Endpoint.Lineage

/-!
# Ways to endpoints

An endpoint is reached by the keys from the root down to it, in a document, in the tree that is
declared and in the model that is compiled. Reading and compiling both join these keys to a path,
the one to say where a fault is and the other for the endpoint to be served at. Joining takes
slashes away at the end of a path only, so no segment is lost or made by it.

* `Path.along` is the path that keys are joined to, and `Path.segments_along` says of what
  segments it is.
* `Way` is a way by keys, and `Way.exists_kept` carries it over to what has the same children at
  the same paths.
* `Endpoint.keeps_compiledAt` and `Declaration.keeps_readAt`: so it is with a model and the tree
  that it is compiled from, and with a tree and the document that it is read from.
* `Declaration.exists_way_of_error` and `Declaration.exists_error_of_way`: a document has a
  fault if an endpoint alone has one, at the path of the way to it.
-/

namespace EndpointTree

namespace Path

/-! ## Joined keys -/

/-- A slash ends one piece and starts the next. -/
theorem pieces_append_slash (path rest : List Char) :
    pieces (path ++ '/' :: rest) = pieces path ++ pieces rest := by
  induction path with
  | nil => rfl
  | cons c path ih =>
    by_cases slash : c = '/'
    · rw [List.cons_append, pieces, if_pos slash, pieces, if_pos slash, ih, List.cons_append]
    · obtain ⟨piece, more, piecesEq, consEq⟩ := pieces_cons_of_ne slash path
      rw [consEq, List.cons_append, pieces, if_neg slash, ih, piecesEq]
      rfl

theorem segments_append_slash (path rest : List Char) :
    segments (path ++ '/' :: rest) = segments path ++ segments rest := by
  rw [segments, pieces_append_slash, List.filter_append]
  rfl

/-- Slashes at the end of a path make no segments. -/
theorem segments_trimEnd (path : List Char) : segments (trimEnd path) = segments path := by
  rw [trimEnd_eq_rdropWhile]
  induction path using List.reverseRecOn with
  | nil => rfl
  | append_singleton path c ih =>
    by_cases slash : c = '/'
    · rw [List.rdropWhile_concat, if_pos (decide_eq_true slash), ih, slash,
        segments_append_slash path []]
      exact (List.append_nil _).symm
    · rw [List.rdropWhile_concat, if_neg fun same => slash (of_decide_eq_true same)]

theorem exists_of_isChildKey {key : String} (child : isChildKey key = true) :
    ∃ rest, key.toList = '/' :: rest := by
  have head : key.toList.head? = some '/' := of_decide_eq_true child
  exact List.head?_eq_some_iff.mp head

/-- The segments of a child's path are those of its parent's path and of its key. -/
theorem segments_join (parent : String) {key : String} (child : isChildKey key = true) :
    segments (join parent key).toList = segments parent.toList ++ segments key.toList := by
  rw [join]
  split
  · next root =>
    rcases root with rfl | rfl <;> rfl
  · obtain ⟨rest, keyEq⟩ := exists_of_isChildKey child
    have own : segments ('/' :: rest) = segments rest := segments_append_slash [] rest
    rw [String.toList_ofList, keyEq, segments_append_slash, segments_trimEnd, own]

/-- The path that keys are joined to, one after the other. -/
def along (start : String) (keys : List String) : String := keys.foldl join start

theorem along_cons (start key : String) (keys : List String) :
    along start (key :: keys) = along (join start key) keys := rfl

/-- Joined keys have the segments of the keys, in their order. -/
theorem segments_along (start : String) {keys : List String}
    (children : ∀ key ∈ keys, isChildKey key = true) :
    segments (along start keys).toList =
      segments start.toList ++ keys.flatMap fun key => segments key.toList := by
  induction keys generalizing start with
  | nil => exact (List.append_nil _).symm
  | cons key keys ih =>
    obtain ⟨child, children⟩ := List.forall_mem_cons.mp children
    rw [along_cons, ih (join start key) children, segments_join start child, List.append_assoc,
      List.flatMap_cons]

end Path

/-! ## Ways -/

/-- Keys lead down from one place to another, each to a child under it. -/
inductive Way {σ : Type} (children : σ → List (String × σ)) : σ → List String → σ → Prop
  | here {s : σ} : Way children s [] s
  | down {s child t : σ} {key : String} {keys : List String} :
    (key, child) ∈ children s → Way children child keys t → Way children s (key :: keys) t

/-- What is related at a path has the same children, key by key, and these are related at the
paths that the keys make of it. -/
def KeepsChildren {σ τ : Type} (children : σ → List (String × σ))
    (children' : τ → List (String × τ)) (R : String → σ → τ → Prop) : Prop :=
  ∀ ⦃path s t⦄, R path s t →
    List.Forall₂ (fun c c' => c.1 = c'.1 ∧ R (Path.join path c.1) c.2 c'.2)
      (children s) (children' t)

section KeepsChildren

variable {σ τ : Type} {children : σ → List (String × σ)} {children' : τ → List (String × τ)}
  {R : String → σ → τ → Prop}

theorem KeepsChildren.symm (keeps : KeepsChildren children children' R) :
    KeepsChildren children' children fun path t s => R path s t := by
  intro path t s related
  refine List.Forall₂.flip ((keeps related).imp fun c c' same => ?_)
  obtain ⟨keyEq, below⟩ := same
  rw [keyEq] at below
  exact ⟨keyEq.symm, below⟩

/-- Where keys lead in the one they lead in the other, and there the two are related at the path
of the way. -/
theorem Way.exists_kept (keeps : KeepsChildren children children' R) {s s' : σ} {keys : List String}
    (way : Way children s keys s') {path : String} {t : τ} (related : R path s t) :
    ∃ t', Way children' t keys t' ∧ R (Path.along path keys) s' t' := by
  induction way generalizing path t with
  | here => exact ⟨t, .here, related⟩
  | @down s child s' key keys member _ ih =>
    obtain ⟨i, bound, atChild⟩ := List.mem_iff_getElem.mp member
    have both := keeps related
    have bound' : i < (children' t).length := both.length_eq ▸ bound
    obtain ⟨keyEq, below⟩ := both.get bound bound'
    rw [List.get_eq_getElem, List.get_eq_getElem, atChild] at keyEq below
    obtain ⟨t', way, arrived⟩ := ih below
    refine ⟨t', .down ?_ way, arrived⟩
    rw [show key = (children' t)[i].1 from keyEq]
    exact List.getElem_mem bound'

end KeepsChildren

/-! ## Compiling -/

/-- The endpoints under one in a declared tree. -/
def Declaration.declaredUnder (t : Tree Declaration) : List (String × Tree Declaration) :=
  t.children.map fun c => (c.value.key, c)

namespace Endpoint

open Declaration (declaredUnder)

/-- The endpoints under one in a model. -/
def compiledUnder (m : Model) : List (String × Model) := m.children.map fun c => (c.value.key, c)

variable {registry : Registry}

/-- A model is compiled from a declared tree, and its root is at a path. -/
def CompiledAt (registry : Registry) (path : String) (t : Tree Declaration) (m : Model) : Prop :=
  m.value.path = path ∧ ∃ above, compile registry above t = .ok m

theorem compiledAt_root {defaults : CorsOptions} {t : Tree Declaration} {m : Model}
    (compiled : compile registry (.root defaults) t = .ok m) : CompiledAt registry "/" t m :=
  ⟨(compiled_of_compile compiled).1.path, _, compiled⟩

/-- A model has the endpoints of the declared tree, each at the path that its key makes of the
path above. -/
theorem keeps_compiledAt : KeepsChildren declaredUnder compiledUnder (CompiledAt registry) := by
  rintro path t m ⟨rfl, above, compiled⟩
  rw [declaredUnder, compiledUnder, List.forall₂_map_left_iff, List.forall₂_map_right_iff]
  refine (compiled_of_compile compiled).2.imp fun t' m' compiled => ?_
  have one := (compiled_of_compile compiled).1
  exact ⟨one.key.symm, one.path, _, compiled⟩

end Endpoint

/-! ## Reading -/

namespace Declaration

/-- The endpoints under one in a document. -/
def writtenUnder (raw : Json) : List (String × Json) :=
  (membersOf raw).filter fun m => Path.isChildKey m.1

/-- Keys that lead anywhere in a document are keys of endpoints. -/
theorem isChildKey_of_way {raw s : Json} {keys : List String}
    (way : Way writtenUnder raw keys s) : ∀ key ∈ keys, Path.isChildKey key = true := by
  induction way with
  | here => exact nofun
  | down member _ ih => exact List.forall_mem_cons.mpr ⟨(List.mem_filter.mp member).2, ih⟩

/-- Each member under a key of an endpoint is read at the path that the key makes. -/
theorem forall₂_of_ofMembers {path : String} {members : List (String × Json)} {d : Declaration}
    {children : List (Tree Declaration)} {t : Tree Declaration}
    (read : ofMembers path d children members = .ok t) :
    ∃ further, t.children = children ++ further ∧
      List.Forall₂ (fun m t => ofJson (Path.join path m.1) m.1 m.2 = .ok t)
        (members.filter fun m => Path.isChildKey m.1) further := by
  induction members generalizing d children with
  | nil =>
    cases read
    exact ⟨[], (List.append_nil _).symm, .nil⟩
  | cons m rest ih =>
    obtain ⟨key, value⟩ := m
    rw [ofMembers] at read
    split at read
    · next child =>
      split at read
      · cases read
      · next t' first =>
        obtain ⟨further, childrenEq, each⟩ := ih read
        refine ⟨t' :: further, by rw [childrenEq, List.append_assoc, List.singleton_append], ?_⟩
        rw [List.filter_cons, if_pos child]
        exact .cons first each
    · next other =>
      split at read
      · cases read
      · rw [List.filter_cons, if_neg other]
        exact ih read

theorem key_of_ofJson {path key : String} {raw : Json} {t : Tree Declaration}
    (read : ofJson path key raw = .ok t) : t.value.key = key := by
  cases raw with
  | object members =>
    rw [ofJson] at read
    obtain ⟨_, _, rfl, keyEq, -⟩ := ofMembers_sites read
    exact keyEq
  | null | bool | number | string | array => cases read

/-- A tree is read from a document, at a path. -/
def ReadAt (path : String) (raw : Json) (t : Tree Declaration) : Prop :=
  ∃ key, ofJson path key raw = .ok t

/-- A tree has the endpoints of the document that it is read from, each read at the path that its
key makes of the path above. -/
theorem keeps_readAt : KeepsChildren writtenUnder declaredUnder ReadAt := by
  rintro path raw t ⟨key, read⟩
  cases raw with
  | object members =>
    rw [ofJson] at read
    obtain ⟨further, childrenEq, each⟩ := forall₂_of_ofMembers read
    rw [List.nil_append] at childrenEq
    rw [declaredUnder, childrenEq, List.forall₂_map_right_iff]
    exact each.imp fun m t read => ⟨(key_of_ofJson read).symm, m.1, read⟩
  | null | bool | number | string | array => cases read

/-! ## Faults -/

/-- The settings among the members of an endpoint. -/
def settingsOf (members : List (String × Json)) : List (String × Json) :=
  members.filter fun m => !Path.isChildKey m.1

/-- An endpoint of a document without those under it. -/
def alone : Json → Json
  | .object members => .object (settingsOf members)
  | other => other

/-- The path that a fault names. -/
def Fault.path : Fault → String
  | .notANode path | .notNames path _ | .notASection path _ | .cors path _ => path

/-- The path at which a check is made. -/
def Check.path : Check → String
  | .node path _ | .table path _ _ | .names path _ _ | .collection path _ | .cors path _ => path

theorem Check.path_of_fault? {c : Check} {fault : Fault} (found : c.fault? = some fault) :
    fault.path = c.path := by
  cases c with
  | node path value | table path key value | names path key value | collection path value =>
    rw [Check.fault?] at found
    split at found
    · cases found
    · cases found
      rfl
  | cors path value =>
    obtain ⟨_, _, rfl⟩ := Option.map_eq_some_iff.mp found
    rfl

/-- What is checked of one setting is checked at the path of its endpoint. -/
theorem path_of_mem_checksOf {path key : String} {value : Json} {c : Check}
    (member : c ∈ checksOf path key value) : c.path = path := by
  rw [checksOf] at member
  split at member
  · cases List.mem_singleton.mp member
    rfl
  split at member
  · rcases List.mem_cons.mp member with rfl | member
    · rfl
    · obtain ⟨_, _, rfl⟩ := List.mem_map.mp member
      rfl
  split at member
  · rcases List.mem_cons.mp member with rfl | member
    · rfl
    · obtain ⟨_, _, member⟩ := List.mem_flatMap.mp member
      obtain ⟨_, _, rfl⟩ := List.mem_map.mp member
      rfl
  split at member
  · cases List.mem_singleton.mp member
    rfl
  · cases member

theorem checksIn_eq_flatMap (path : String) (members : List (String × Json)) :
    checksIn path members = members.flatMap fun m =>
      if Path.isChildKey m.1 then checks (Path.join path m.1) m.2 else checksOf path m.1 m.2 := by
  induction members with
  | nil => rfl
  | cons m rest ih => rw [checksIn, ih, List.flatMap_cons]

theorem not_isChildKey_of_mem {members : List (String × Json)} {m : String × Json}
    (member : m ∈ settingsOf members) : ¬ Path.isChildKey m.1 = true := by
  rw [Bool.not_eq_true]
  exact (Bool.not_eq_true' _).mp (List.mem_filter.mp member).2

/-- What is checked of an endpoint alone is checked at its path. -/
theorem path_of_mem_checks_alone {path : String} {raw : Json} {c : Check}
    (member : c ∈ checks path (alone raw)) : c.path = path := by
  cases raw with
  | object members =>
    rw [alone, checks, checksIn_eq_flatMap] at member
    rcases List.mem_cons.mp member with rfl | member
    · rfl
    · obtain ⟨m, setting, member⟩ := List.mem_flatMap.mp member
      rw [if_neg (not_isChildKey_of_mem setting)] at member
      exact path_of_mem_checksOf member
  | null | bool | number | string | array =>
    cases List.mem_singleton.mp member
    rfl

/-- An endpoint without faults has none alone. -/
theorem firstFault?_alone {path : String} {raw : Json}
    (sound : firstFault? (checks path raw) = none) :
    firstFault? (checks path (alone raw)) = none := by
  cases raw with
  | object members =>
    rw [firstFault?_eq_none_iff, checks, checksIn_eq_flatMap, List.forall_mem_cons] at sound
    rw [firstFault?_eq_none_iff, alone, checks, checksIn_eq_flatMap, List.forall_mem_cons]
    refine ⟨⟨_, rfl⟩, fun c member => sound.2 c ?_⟩
    obtain ⟨m, setting, member⟩ := List.mem_flatMap.mp member
    exact List.mem_flatMap.mpr ⟨m, (List.mem_filter.mp setting).1, member⟩
  | null | bool | number | string | array => exact sound

mutual

/-- The fault in a document is that of an endpoint alone, at the path of the way to it. -/
theorem exists_way_of_firstFault? :
    ∀ {raw : Json} {path : String} {fault : Fault}, firstFault? (checks path raw) = some fault →
      ∃ keys s, Way writtenUnder raw keys s ∧
        firstFault? (checks (Path.along path keys) (alone s)) = some fault
  | .object members, path, fault, found => by
    rw [checks, firstFault?_cons] at found
    rcases exists_way_of_firstFault?_checksIn found with below | here
    · obtain ⟨m, member, child, keys, s, way, found⟩ := below
      exact ⟨m.1 :: keys, s, .down (List.mem_filter.mpr ⟨member, child⟩) way, found⟩
    · refine ⟨[], _, .here, ?_⟩
      rw [alone, checks, firstFault?_cons]
      exact here
  | .null, _, _, found | .bool _, _, _, found | .number _, _, _, found | .string _, _, _, found
  | .array _, _, _, found => ⟨[], _, .here, found⟩

theorem exists_way_of_firstFault?_checksIn :
    ∀ {members : List (String × Json)} {path : String} {fault : Fault},
      firstFault? (checksIn path members) = some fault →
        (∃ m ∈ members, Path.isChildKey m.1 = true ∧
          ∃ keys s, Way writtenUnder m.2 keys s ∧
            firstFault? (checks (Path.along (Path.join path m.1) keys) (alone s)) = some fault) ∨
        firstFault? (checksIn path (settingsOf members)) = some fault
  | [], _, _, found => nomatch found
  | (key, value) :: rest, path, fault, found => by
    rw [checksIn, firstFault?_append] at found
    rcases Option.or_eq_some_iff.mp found with first | ⟨sound, later⟩
    · by_cases child : Path.isChildKey key = true
      · rw [if_pos child] at first
        exact .inl ⟨(key, value), List.mem_cons_self, child, exists_way_of_firstFault? first⟩
      · refine .inr ?_
        have setting : (!Path.isChildKey key) = true := by
          rwa [Bool.not_eq_true', ← Bool.not_eq_true]
        rw [settingsOf, List.filter_cons, if_pos setting, checksIn, firstFault?_append, first]
        rfl
    · rcases exists_way_of_firstFault?_checksIn later with below | here
      · obtain ⟨m, member, below⟩ := below
        exact .inl ⟨m, List.mem_cons_of_mem _ member, below⟩
      · refine .inr ?_
        rw [settingsOf, List.filter_cons]
        split
        · rw [checksIn, firstFault?_append, sound, Option.none_or]
          exact here
        · exact here

end

/-- A fault that an endpoint has alone names its path. -/
theorem path_of_error_alone {raw : Json} {path key : String} {fault : Fault}
    (refused : ofJson path key (alone raw) = .error fault) : fault.path = path := by
  rw [← faultIn_eq_some_iff, faultIn_ofJson] at refused
  obtain ⟨c, member, found⟩ := List.exists_of_findSome?_eq_some refused
  rw [c.path_of_fault? found, path_of_mem_checks_alone member]

/-- A document that is not read has its fault at the end of a way, in an endpoint alone. -/
theorem exists_way_of_error {raw : Json} {path key : String} {fault : Fault}
    (refused : ofJson path key raw = .error fault) :
    ∃ keys s, Way writtenUnder raw keys s ∧
      ofJson (Path.along path keys) key (alone s) = .error fault := by
  rw [← faultIn_eq_some_iff, faultIn_ofJson] at refused
  obtain ⟨keys, s, way, found⟩ := exists_way_of_firstFault? refused
  refine ⟨keys, s, way, ?_⟩
  rwa [← faultIn_eq_some_iff, faultIn_ofJson]

/-- A document with a fault in an endpoint alone is not read. -/
theorem exists_error_of_way {raw s : Json} {path key : String} {keys : List String}
    {fault : Fault} (way : Way writtenUnder raw keys s)
    (refused : ofJson (Path.along path keys) key (alone s) = .error fault) :
    ∃ first, ofJson path key raw = .error first := by
  refine exists_error_of_forall_ne fun t read => ?_
  obtain ⟨t', -, key', read'⟩ := way.exists_kept keeps_readAt ⟨key, read⟩
  have sound : firstFault? (checks (Path.along path keys) s) = none := by
    rw [← faultIn_ofJson s _ key', read']
    rfl
  rw [← faultIn_eq_some_iff, faultIn_ofJson, firstFault?_alone sound] at refused
  cases refused

end Declaration

end EndpointTree
