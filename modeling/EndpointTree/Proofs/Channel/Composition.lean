import EndpointTree.Proofs.Endpoint.Ways

/-!
# Paths and patterns along the tree

An endpoint is served at the path that the keys down to it are joined to. Its segments are those
of the keys, and the expression for its channel has a row for each of them: a slash, and then one
group for a parameter or the characters of any other segment, escaped where they would mean
something else. Parameters are read by position, and so the names stand in the order of the
groups.

* `Pattern.Cut` cuts a written expression into lexemes, in one way only (`Pattern.Cut.unique`).
* `Pattern.LaidOut` lays segments out in lexemes, with the names of the parameters.
* `Channel.paths_compose_along_keys` says it of every endpoint of a tree.
-/

namespace EndpointTree.Channel

namespace Pattern

/-! ## Lexemes -/

/-- What is written at one place of an expression. -/
inductive Lexeme where
  /-- A character that means nothing of its own. -/
  | plain (c : Char)
  /-- A character behind a backslash. -/
  | escaped (c : Char)
  /-- A group of characters other than the slash. -/
  | group
  deriving DecidableEq, Repr

/-- The character that a lexeme stands for. -/
def Lexeme.char? : Lexeme → Option Char
  | .plain c | .escaped c => some c
  | .group => none

/-- An expression behind its leading anchor is cut into lexemes, up to the anchor at its end. -/
inductive Cut : List Char → List Lexeme → Prop
  | stop : Cut ['$'] []
  | plain {c : Char} {expression : List Char} {lexemes : List Lexeme} :
    c ∉ special → Cut expression lexemes → Cut (c :: expression) (.plain c :: lexemes)
  | escaped {c : Char} {expression : List Char} {lexemes : List Lexeme} :
    c ∈ escapable → Cut expression lexemes → Cut ('\\' :: c :: expression) (.escaped c :: lexemes)
  | group {expression : List Char} {lexemes : List Lexeme} :
    Cut expression lexemes →
    Cut ('(' :: '[' :: '^' :: '/' :: ']' :: '+' :: ')' :: expression) (.group :: lexemes)

/-- An anchored expression is cut in one way only. -/
theorem Cut.unique {expression : List Char} {lexemes other : List Lexeme}
    (cut : Cut expression lexemes) (cut' : Cut expression other) : lexemes = other := by
  induction cut generalizing other with
  | stop =>
    cases cut' with
    | stop => rfl
    | plain notSpecial => exact absurd (by decide) notSpecial
  | plain notSpecial _ ih =>
    cases cut' with
    | stop => exact absurd (by decide) notSpecial
    | plain _ cut' => rw [ih cut']
    | escaped => exact absurd (by decide) notSpecial
    | group => exact absurd (by decide) notSpecial
  | escaped _ _ ih =>
    cases cut' with
    | plain notSpecial => exact absurd (by decide) notSpecial
    | escaped _ cut' => rw [ih cut']
  | group _ ih =>
    cases cut' with
    | plain notSpecial => exact absurd (by decide) notSpecial
    | group cut' => rw [ih cut']

/-- A part as a lexeme. -/
def lexemeOf : PatternPart → Lexeme
  | .char c => if c ∈ metaChars then .escaped c else .plain c
  | .group => .group

theorem char?_lexemeOf_char (c : Char) : (lexemeOf (.char c)).char? = some c := by
  rw [lexemeOf]
  split <;> rfl

/-- Written parts are cut into parts again. -/
theorem cut_parts (parts : List PatternPart) :
    Cut (parts.flatMap partText ++ ['$']) (parts.map lexemeOf) := by
  induction parts with
  | nil => exact .stop
  | cons part rest ih =>
    rw [List.flatMap_cons, List.append_assoc, List.map_cons]
    cases part with
    | char c =>
      rw [partText_char, lexemeOf]
      by_cases isMeta : c ∈ metaChars
      · rw [if_pos isMeta, if_pos isMeta]
        exact .escaped (metaChars_subset_escapable isMeta) ih
      · rw [if_neg isMeta, if_neg isMeta]
        exact .plain (fun isSpecial => isMeta (special_subset_metaChars isSpecial)) ih
    | group => exact .group ih

/-! ## Segments in lexemes -/

/-- Segments are laid out one by one, each behind a slash: a parameter as a group, and its name is
next; any other as its characters. -/
inductive LaidOut : List (List Char) → List Lexeme → List String → Prop
  | nil : LaidOut [] [] []
  | param {name : List Char} {rest : List (List Char)} {lexemes : List Lexeme}
      {names : List String} :
    LaidOut rest lexemes names →
    LaidOut ((':' :: name) :: rest) (.plain '/' :: .group :: lexemes)
      (String.ofList name :: names)
  | literal {segment : List Char} {rest : List (List Char)} {written lexemes : List Lexeme}
      {names : List String} :
    (∀ name, segment ≠ ':' :: name) → written.map Lexeme.char? = segment.map some →
    LaidOut rest lexemes names →
    LaidOut (segment :: rest) (.plain '/' :: (written ++ lexemes)) names

theorem laidOut_partsOf (segments : List (List Char)) :
    LaidOut segments ((partsOf segments).map lexemeOf) (segments.filterMap paramName?) := by
  induction segments with
  | nil => exact .nil
  | cons s rest ih =>
    have slash : lexemeOf (.char '/') = .plain '/' := by decide
    rw [partsOf_cons, List.map_cons, List.map_append, slash, segmentParts]
    cases named : paramName? s with
    | some name =>
      obtain ⟨chars, rfl, rfl⟩ := paramName?_eq_some_iff.mp named
      rw [List.filterMap_cons_some named]
      exact .param ih
    | none =>
      rw [List.filterMap_cons_none named]
      refine .literal (fun name same => ?_) ?_ ih
      · rw [same] at named
        cases named
      · rw [List.map_map, List.map_map]
        exact List.map_congr_left fun c _ => char?_lexemeOf_char c

/-- The names of the segments that start with a colon. -/
def paramNames (segments : List (List Char)) : List String :=
  (segments.filter fun s => s.head? = some ':').map fun s => String.ofList s.tail

theorem LaidOut.names_eq {segments : List (List Char)} {lexemes : List Lexeme}
    {names : List String} (laid : LaidOut segments lexemes names) :
    names = paramNames segments := by
  induction laid with
  | nil => rfl
  | param _ ih => rw [ih]; rfl
  | @literal segment rest _ _ _ notParam _ _ ih =>
    have other : ¬ decide (segment.head? = some ':') = true := by
      intro head
      obtain ⟨name, same⟩ := List.head?_eq_some_iff.mp (of_decide_eq_true head)
      exact notParam name same
    rw [ih, paramNames, paramNames, List.filter_cons, if_neg other]

/-- There is a group for each name. -/
theorem LaidOut.count_group {segments : List (List Char)} {lexemes : List Lexeme}
    {names : List String} (laid : LaidOut segments lexemes names) :
    lexemes.count .group = names.length := by
  induction laid with
  | nil => rfl
  | param _ ih =>
    rw [List.count_cons_of_ne (by decide), List.count_cons_self, ih, List.length_cons]
  | @literal segment _ written lexemes _ _ stands _ ih =>
    have noGroup : Lexeme.group ∉ written := by
      intro member
      have member : Lexeme.group.char? ∈ segment.map some := stands ▸ List.mem_map_of_mem member
      obtain ⟨_, _, absurdity⟩ := List.mem_map.mp member
      cases absurdity
    rw [List.count_cons_of_ne (by decide), List.count_append, List.count_eq_zero.mpr noGroup,
      Nat.zero_add, ih]

/-- An anchored expression is written for segments. It can be cut in one way, has a row for each
segment, and as many groups as there are parameters, whose names are given in the same order.
Without any segment it is written for the bare slash. -/
structure Shows (p : Pattern) (segments : List (List Char)) (expression : List Char)
    (lexemes : List Lexeme) : Prop where
  anchored : p.text.toList = '^' :: expression
  cut : Cut expression lexemes
  only : ∀ other, Cut expression other → other = lexemes
  rows : segments = [] ∧ lexemes = [.plain '/'] ∨
    segments ≠ [] ∧ LaidOut segments lexemes p.names
  groups : lexemes.count .group = p.names.length
  names : p.names = paramNames segments

/-- The pattern of a path is written for the segments of the path. -/
theorem shows_ofPath (path : String) :
    ∃ expression lexemes, (ofPath path).Shows (pathSegments path) expression lexemes := by
  have written := toList_text (ofPath path)
  have cut := cut_parts (ofPath path).parts
  have only : ∀ other, Cut _ other → other = _ := fun other cut' => cut'.unique cut
  have parts : (ofPath path).parts =
      if (pathSegments path).isEmpty then [.char '/'] else partsOf (pathSegments path) := by
    rw [← segments_eq_pathSegments]
    rfl
  have names : (ofPath path).names = (pathSegments path).filterMap paramName? := by
    rw [← segments_eq_pathSegments]
    rfl
  have laid := laidOut_partsOf (pathSegments path)
  rw [← names] at laid
  generalize pathSegments path = segments at parts names laid ⊢
  cases segments with
  | nil =>
    have bare : (ofPath path).parts.map lexemeOf = [.plain '/'] := by
      rw [parts]
      decide
    refine ⟨_, _, written, cut, only, .inl ⟨rfl, bare⟩, ?_, laid.names_eq⟩
    rw [bare, names]
    rfl
  | cons s rest =>
    have rows : (ofPath path).parts = partsOf (s :: rest) := parts
    rw [← rows] at laid
    exact ⟨_, _, written, cut, only, .inr ⟨List.cons_ne_nil _ _, laid⟩, laid.count_group,
      laid.names_eq⟩

end Pattern

/-! ## Paths along the tree -/

/-- A path is composed of keys: it has their segments, and its pattern is written for these and
binds by these. -/
structure Composed (keys : List String) (path : String) : Prop where
  segments : pathSegments path = keys.flatMap pathSegments
  shows : ∃ expression lexemes,
    (Pattern.ofPath path).Shows (keys.flatMap pathSegments) expression lexemes
  binds : ∀ (namespaceText : String) (params : Dict String),
    (Pattern.ofPath path).params? (tidyNamespace namespaceText) = some params ↔
      ∃ bindings, Fits (keys.flatMap pathSegments) (namespaceSegments namespaceText) bindings ∧
        Dict.ofList bindings = params

/-- Keys that are joined from the root on compose their path. -/
theorem composed_along {keys : List String} (children : ∀ key ∈ keys, Path.isChildKey key = true) :
    Composed keys (Path.along "/" keys) := by
  have segments : pathSegments (Path.along "/" keys) = keys.flatMap pathSegments := by
    have joined := Path.segments_along "/" children
    simp only [segments_eq_pathSegments] at joined
    exact joined
  refine ⟨segments, ?_, fun namespaceText params => ?_⟩
  · rw [← segments]
    exact Pattern.shows_ofPath _
  · rw [← segments]
    exact Pattern.params?_ofPath_iff _ _

open Declaration (alone declaredUnder writtenUnder)
open Endpoint (compile compiledUnder)

/-- Keys lead somewhere in a model exactly if they do in the tree that it is compiled from, and so
it is with a tree and the document that it is read from. The endpoint there is at the path that
the keys are joined to, and keys of endpoints, as all keys in a document are, compose this path.
Reading goes by the same paths: what stands there is read at it, and a fault names the path of the
way to an endpoint that has this fault alone. -/
theorem paths_compose_along_keys (registry : Registry) (defaults : CorsOptions) :
    (∀ tree model, compile registry (.root defaults) tree = .ok model → ∀ keys,
      ((∃ t, Way declaredUnder tree keys t) ↔ ∃ m, Way compiledUnder model keys m) ∧
      ∀ m, Way compiledUnder model keys m →
        m.value.path = Path.along "/" keys ∧
        ((∀ key ∈ keys, Path.isChildKey key = true) → Composed keys m.value.path)) ∧
    (∀ raw tree, Declaration.ofJson "/" "" raw = .ok tree → ∀ keys,
      (∀ t, Way declaredUnder tree keys t → ∃ s, Way writtenUnder raw keys s) ∧
      ∀ s, Way writtenUnder raw keys s →
        (∀ key ∈ keys, Path.isChildKey key = true) ∧
        ∃ t key, Way declaredUnder tree keys t ∧
          Declaration.ofJson (Path.along "/" keys) key s = .ok t) ∧
    (∀ raw fault, Declaration.ofJson "/" "" raw = .error fault →
      ∃ keys s, Way writtenUnder raw keys s ∧ Composed keys fault.path ∧
        fault.path = Path.along "/" keys ∧
        Declaration.ofJson (Path.along "/" keys) "" (alone s) = .error fault) ∧
    (∀ raw keys s fault, Way writtenUnder raw keys s →
      Declaration.ofJson (Path.along "/" keys) "" (alone s) = .error fault →
        fault.path = Path.along "/" keys ∧
        ∃ first, Declaration.ofJson "/" "" raw = .error first) := by
  refine ⟨fun tree model compiled keys => ?_, fun raw tree read keys => ?_,
    fun raw fault refused => ?_, fun raw keys s fault way refused => ?_⟩
  · have root := Endpoint.compiledAt_root compiled
    refine ⟨⟨fun ⟨t, way⟩ => ?_, fun ⟨m, way⟩ => ?_⟩, fun m way => ?_⟩
    · obtain ⟨m, way, -⟩ := way.exists_kept Endpoint.keeps_compiledAt root
      exact ⟨m, way⟩
    · obtain ⟨t, way, -⟩ := way.exists_kept Endpoint.keeps_compiledAt.symm root
      exact ⟨t, way⟩
    · obtain ⟨t, -, path, -⟩ := way.exists_kept Endpoint.keeps_compiledAt.symm root
      refine ⟨path, fun children => ?_⟩
      rw [path]
      exact composed_along children
  · have root : Declaration.ReadAt "/" raw tree := ⟨"", read⟩
    refine ⟨fun t way => ?_, fun s way => ⟨Declaration.isChildKey_of_way way, ?_⟩⟩
    · obtain ⟨s, way, -⟩ := way.exists_kept Declaration.keeps_readAt.symm root
      exact ⟨s, way⟩
    · obtain ⟨t, way, key, read⟩ := way.exists_kept Declaration.keeps_readAt root
      exact ⟨t, key, way, read⟩
  · obtain ⟨keys, s, way, found⟩ := Declaration.exists_way_of_error refused
    have path := Declaration.path_of_error_alone found
    refine ⟨keys, s, way, ?_, path, found⟩
    rw [path]
    exact composed_along (Declaration.isChildKey_of_way way)
  · exact ⟨Declaration.path_of_error_alone refused,
      Declaration.exists_error_of_way way refused⟩

/-- Three keys with odd slashes lead to two parameters. -/
theorem odd_slashes_lead_to_two_parameters :
    let keys := ["/v1.0/", "/:org//x", "/:id"]
    let raw : Json := .object [("/v1.0/", .object [("/:org//x", .object [("/:id", .object [])])])]
    ∃ tree model m, Declaration.ofJson "/" "" raw = .ok tree ∧
      compile Registry.empty (.root {}) tree = .ok model ∧
      Way compiledUnder model keys m ∧ m.value.path = "/v1.0/:org//x/:id" ∧
      Composed keys m.value.path ∧
      (Pattern.ofPath m.value.path).text = "^/v1\\.0/([^/]+)/x/([^/]+)$" ∧
      (Pattern.ofPath m.value.path).names = ["org", "id"] := by
  intro keys raw
  have ways (key : String) (below : Json) :
      (key, below) ∈ Declaration.writtenUnder (.object [(key, below)]) ↔
        Path.isChildKey key = true := by
    rw [Declaration.writtenUnder, List.mem_filter]
    exact and_iff_right (List.mem_singleton_self _)
  have written : Way writtenUnder raw keys (.object []) :=
    .down ((ways _ _).mpr (by decide)) <| .down ((ways _ _).mpr (by decide)) <|
      .down ((ways _ _).mpr (by decide)) .here
  obtain ⟨tree, model, read, compiled⟩ :
      ∃ tree model, Declaration.ofJson "/" "" raw = .ok tree ∧
        compile Registry.empty (.root {}) tree = .ok model := ⟨_, _, rfl, rfl⟩
  obtain ⟨models, documents, -, -⟩ := paths_compose_along_keys Registry.empty {}
  obtain ⟨children, t, -, way, -⟩ := (documents raw tree read keys).2 _ written
  obtain ⟨m, way⟩ := (models tree model compiled keys).1.mp ⟨t, way⟩
  obtain ⟨path, composed⟩ := (models tree model compiled keys).2 m way
  have pathEq : m.value.path = "/v1.0/:org//x/:id" := path.trans (by decide)
  refine ⟨tree, model, m, read, compiled, way, pathEq, composed children, ?_⟩
  rw [pathEq]
  decide

end EndpointTree.Channel
