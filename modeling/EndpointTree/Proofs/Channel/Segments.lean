import EndpointTree.Proofs.Channel.Expression
import EndpointTree.Proofs.Pairs
import Mathlib.Data.List.DropRight

/-!
# Paths and namespaces, segment by segment

A path is cut into its filled segments. A namespace loses the slashes at its end and is
cut at every other slash but the leading one, so that an empty segment inside it counts.
The pattern of a path matches a namespace exactly if the segments of both fit, one by one.

* `Channel.Fits` is fitting, with what it binds.
* `Pattern.params?_ofPath_iff`: what a pattern takes from a namespace is what fitting binds.
-/

namespace EndpointTree

namespace Path

theorem pieces_ne_nil (path : List Char) : pieces path ≠ [] := by
  cases path with
  | nil => exact List.cons_ne_nil _ _
  | cons c rest =>
    rw [pieces]
    split
    · exact List.cons_ne_nil _ _
    · split <;> exact List.cons_ne_nil _ _

/-- A character other than the slash goes to the first piece. -/
theorem pieces_cons_of_ne {c : Char} (ne : c ≠ '/') (rest : List Char) :
    ∃ piece more, pieces rest = piece :: more ∧ pieces (c :: rest) = (c :: piece) :: more := by
  obtain ⟨piece, more, piecesEq⟩ := List.exists_cons_of_ne_nil (pieces_ne_nil rest)
  refine ⟨piece, more, piecesEq, ?_⟩
  rw [pieces, if_neg ne, piecesEq]

/-- The pieces of a path are its parts between slashes. -/
theorem pieces_eq_splitOn (path : List Char) : pieces path = path.splitOn '/' := by
  induction path with
  | nil => rfl
  | cons c rest ih =>
    rw [List.splitOn, List.splitOnP_cons_eq_if_modifyHead, ← List.splitOn, ← ih]
    by_cases slash : c = '/'
    · rw [pieces, if_pos slash, if_pos (beq_iff_eq.mpr slash)]
    · obtain ⟨piece, more, piecesEq, consEq⟩ := pieces_cons_of_ne slash rest
      rw [consEq, if_neg (fun same => slash (beq_iff_eq.mp same)), piecesEq]
      rfl

/-- Trimming drops slashes from the end. -/
theorem trimEnd_eq_rdropWhile (path : List Char) : trimEnd path = path.rdropWhile (· = '/') := rfl

/-- No slash is inside a piece. -/
theorem slash_not_mem_of_mem_pieces {path piece : List Char} (member : piece ∈ pieces path) :
    '/' ∉ piece := by
  induction path generalizing piece with
  | nil =>
    rw [List.mem_singleton.mp member]
    exact List.not_mem_nil
  | cons c rest ih =>
    by_cases slash : c = '/'
    · rw [pieces, if_pos slash] at member
      rcases List.mem_cons.mp member with rfl | member
      · exact List.not_mem_nil
      · exact ih member
    · obtain ⟨first, more, piecesEq, consEq⟩ := pieces_cons_of_ne slash rest
      rw [consEq] at member
      rcases List.mem_cons.mp member with rfl | member
      · refine List.not_mem_cons_of_ne_of_not_mem (Ne.symm slash) (ih ?_)
        rw [piecesEq]
        exact List.mem_cons_self
      · refine ih ?_
        rw [piecesEq]
        exact List.mem_cons_of_mem _ member

/-- Pieces with a slash in front of each. -/
def slashed (pieces : List (List Char)) : List Char := pieces.flatMap ('/' :: ·)

theorem slashed_cons (piece : List Char) (rest : List (List Char)) :
    slashed (piece :: rest) = '/' :: (piece ++ slashed rest) := rfl

/-- Cutting a text at its slashes loses nothing. -/
theorem slashed_pieces (path : List Char) : slashed (pieces path) = '/' :: path := by
  induction path with
  | nil => rfl
  | cons c rest ih =>
    by_cases slash : c = '/'
    · rw [pieces, if_pos slash, slashed_cons, ih, slash]
      rfl
    · obtain ⟨piece, more, piecesEq, consEq⟩ := pieces_cons_of_ne slash rest
      rw [piecesEq, slashed_cons] at ih
      rw [consEq, slashed_cons, List.cons_append, (List.cons.inj ih).2]

/-- A segment is neither blank nor divided. -/
theorem segments_filled {path segment : List Char} (member : segment ∈ segments path) :
    segment ≠ [] ∧ '/' ∉ segment := by
  obtain ⟨member, filled⟩ := List.mem_filter.mp member
  refine ⟨fun empty => ?_, slash_not_mem_of_mem_pieces member⟩
  rw [empty] at filled
  cases filled

/-- Trimming leaves no single slash. -/
theorem trimEnd_ne_slash (path : List Char) : trimEnd path ≠ ['/'] := by
  intro same
  have reversed : path.reverse.dropWhile (· = '/') = ['/'] := List.reverse_injective same
  have head := List.head?_dropWhile_not (· = '/') path.reverse
  rw [reversed, List.head?_cons] at head
  exact of_decide_eq_false head rfl

end Path

namespace Channel

open EndpointTree.Path (slashed slashed_cons)

/-- The filled segments of a path. -/
def pathSegments (path : String) : List (List Char) :=
  (path.toList.splitOn '/').filter fun segment => !segment.isEmpty

/-- The segments of a namespace: slashes at its end go, and a leading one only opens the
first segment. The bare slash has none. -/
def namespaceSegments (namespaceText : String) : List (List Char) :=
  match namespaceText.toList.rdropWhile (· = '/') with
  | [] => []
  | '/' :: rest => rest.splitOn '/'
  | other => other.splitOn '/'

theorem segments_eq_pathSegments (path : String) :
    Path.segments path.toList = pathSegments path := by
  rw [Path.segments, Path.pieces_eq_splitOn, pathSegments]

/-- The segments of a namespace are its pieces behind the first slash. -/
theorem namespaceSegments_eq (namespaceText : String) :
    namespaceSegments namespaceText = match Path.trimEnd namespaceText.toList with
      | [] => []
      | '/' :: rest => Path.pieces rest
      | other => Path.pieces other := by
  simp only [Path.pieces_eq_splitOn, Path.trimEnd_eq_rdropWhile]
  rfl

/-- No slash is inside a segment of a namespace. -/
theorem slash_not_mem_of_mem_namespaceSegments {namespaceText : String} {segment : List Char}
    (member : segment ∈ namespaceSegments namespaceText) : '/' ∉ segment := by
  rw [namespaceSegments_eq] at member
  split at member
  · cases member
  · exact Path.slash_not_mem_of_mem_pieces member
  · exact Path.slash_not_mem_of_mem_pieces member

/-- A namespace is tidied to the bare slash or to its segments, each behind a slash. -/
theorem tidyNamespace_eq (namespaceText : String) :
    namespaceSegments namespaceText = [] ∧ tidyNamespace namespaceText = ['/'] ∨
      namespaceSegments namespaceText ≠ [] ∧ tidyNamespace namespaceText ≠ ['/'] ∧
        tidyNamespace namespaceText = slashed (namespaceSegments namespaceText) := by
  have trimmed := Path.trimEnd_ne_slash namespaceText.toList
  rw [namespaceSegments_eq, tidyNamespace]
  generalize Path.trimEnd namespaceText.toList = text at trimmed ⊢
  cases text with
  | nil => exact .inl ⟨rfl, rfl⟩
  | cons c rest =>
    refine .inr ?_
    by_cases slash : c = '/'
    · subst slash
      exact ⟨Path.pieces_ne_nil rest, trimmed, (Path.slashed_pieces rest).symm⟩
    · have apart : ∀ further, c :: rest = '/' :: further → False :=
        fun further same => slash (List.cons.inj same).1
      -- this leaves the last branch of either cut
      simp only
      exact ⟨Path.pieces_ne_nil _, fun same => List.cons_ne_nil _ _ (List.cons.inj same).2,
        (Path.slashed_pieces _).symm⟩

/-- The segments of a path fit those of a namespace, as many of the one as of the other:
a parameter takes any filled segment and is bound to it, and any other segment takes
itself only. -/
inductive Fits : List (List Char) → List (List Char) → List (String × String) → Prop
  | nil : Fits [] [] []
  | literal {segment : List Char} {rest texts : List (List Char)}
      {bindings : List (String × String)} :
    (∀ name, segment ≠ ':' :: name) → Fits rest texts bindings →
    Fits (segment :: rest) (segment :: texts) bindings
  | param {name text : List Char} {rest texts : List (List Char)}
      {bindings : List (String × String)} :
    text ≠ [] → '/' ∉ text → Fits rest texts bindings →
    Fits ((':' :: name) :: rest) (text :: texts)
      ((String.ofList name, String.ofList text) :: bindings)

namespace Pattern

/-- A parameter is a colon with its name behind. -/
theorem paramName?_eq_some_iff {segment : List Char} {name : String} :
    paramName? segment = some name ↔
      ∃ chars, segment = ':' :: chars ∧ name = String.ofList chars := by
  constructor
  · intro named
    unfold paramName? at named
    split at named
    · next chars => exact ⟨chars, rfl, (Option.some.inj named).symm⟩
    · cases named
  · rintro ⟨chars, rfl, rfl⟩
    rfl

/-- Literal characters take themselves, and leave the rest to the parts behind them. -/
theorem takes_map_char_append {segment text : List Char} {parts : List PatternPart}
    {groups : List (List Char)} :
    Takes (segment.map .char ++ parts) text groups ↔
      ∃ rest, text = segment ++ rest ∧ Takes parts rest groups := by
  induction segment generalizing text with
  | nil =>
    constructor
    · intro takes
      exact ⟨text, rfl, takes⟩
    · intro holds
      obtain ⟨rest, same, takes⟩ := holds
      rwa [same]
  | cons c segment ih =>
    rw [List.map_cons, List.cons_append]
    constructor
    · intro takes
      cases takes with
      | char takes =>
        obtain ⟨rest, rfl, further⟩ := ih.mp takes
        exact ⟨rest, rfl, further⟩
    · intro holds
      obtain ⟨rest, rfl, takes⟩ := holds
      exact .char (ih.mpr ⟨rest, rfl, takes⟩)

theorem atSlash_slashed (texts : List (List Char)) : AtSlash (slashed texts) := by
  intro c member
  cases texts with
  | nil => cases member
  | cons text rest => exact (Option.some.inj member).symm

/-- Where two texts without a slash are both followed by a slash or the end, the one is
the other. -/
theorem append_inj_of_atSlash {s t u v : List Char} (filled : '/' ∉ s) (filled' : '/' ∉ t)
    (atSlash : AtSlash u) (atSlash' : AtSlash v) (same : s ++ u = t ++ v) : s = t ∧ u = v := by
  have inRun : ∀ c ∈ s, inGroup c = true := fun c member =>
    inGroup_iff.mpr fun slash => filled (slash ▸ member)
  have inRun' : ∀ c ∈ t, inGroup c = true := fun c member =>
    inGroup_iff.mpr fun slash => filled' (slash ▸ member)
  have runs : s = t := by
    rw [← takeWhile_append_atSlash inRun atSlash, same, takeWhile_append_atSlash inRun' atSlash']
  subst runs
  exact ⟨rfl, List.append_cancel_left same⟩

/-- What the parts of segments take from a namespace is what the segments bind. -/
theorem fits_of_takes {segments texts groups : List (List Char)}
    (filled : ∀ s ∈ segments, '/' ∉ s) (filled' : ∀ t ∈ texts, '/' ∉ t)
    (takes : Takes (partsOf segments) (slashed texts) groups) :
    Fits segments texts ((segments.filterMap paramName?).zip (groups.map String.ofList)) := by
  induction segments generalizing texts groups with
  | nil =>
    cases texts with
    | nil => exact .nil
    | cons => cases takes
  | cons s rest ih =>
    obtain ⟨filledHere, filledRest⟩ := List.forall_mem_cons.mp filled
    cases texts with
    | nil => cases takes
    | cons text texts =>
      obtain ⟨filledText, filledTexts⟩ := List.forall_mem_cons.mp filled'
      rw [partsOf_cons, slashed_cons] at takes
      cases takes with
      | char takes =>
        cases named : paramName? s with
        | none =>
          rw [segmentParts, named] at takes
          obtain ⟨further, split, takes⟩ := takes_map_char_append.mp takes
          obtain ⟨rfl, rfl⟩ := append_inj_of_atSlash filledText filledHere
            (atSlash_slashed texts) (takes.atSlash (head?_partsOf rest)) split
          rw [List.filterMap_cons_none named]
          refine .literal (fun name same => ?_) (ih filledRest filledTexts takes)
          rw [same] at named
          cases named
        | some name =>
          rw [segmentParts, named] at takes
          generalize split : text ++ slashed texts = whole at takes
          cases takes with
          | group nonempty inRun takes =>
            have noSlash : '/' ∉ _ := fun member => inGroup_iff.mp (inRun '/' member) rfl
            obtain ⟨rfl, rfl⟩ := append_inj_of_atSlash filledText noSlash
              (atSlash_slashed texts) (takes.atSlash (head?_partsOf rest)) split
            rw [List.filterMap_cons_some named, List.map_cons, List.zip_cons_cons]
            obtain ⟨name, rfl, rfl⟩ := paramName?_eq_some_iff.mp named
            exact .param nonempty noSlash (ih filledRest filledTexts takes)

/-- Where segments fit, their pattern takes the text, and its groups are what they bind. -/
theorem takes_of_fits {segments texts : List (List Char)} {bindings : List (String × String)}
    (fits : Fits segments texts bindings) :
    ∃ groups, Takes (partsOf segments) (slashed texts) groups ∧
      (segments.filterMap paramName?).zip (groups.map String.ofList) = bindings := by
  induction fits with
  | nil => exact ⟨[], .nil, rfl⟩
  | @literal segment rest texts bindings notParam _ ih =>
    obtain ⟨groups, takes, rfl⟩ := ih
    have unnamed : paramName? segment = none := by
      unfold paramName?
      split
      · next name => exact absurd rfl (notParam name)
      · rfl
    refine ⟨groups, ?_, by rw [List.filterMap_cons_none unnamed]⟩
    rw [partsOf_cons, slashed_cons, segmentParts, unnamed]
    exact .char (takes_map_char_append.mpr ⟨_, rfl, takes⟩)
  | @param name text rest texts bindings nonempty noSlash _ ih =>
    obtain ⟨groups, takes, rfl⟩ := ih
    have inRun : ∀ c ∈ text, inGroup c = true := fun c member =>
      inGroup_iff.mpr fun slash => noSlash (slash ▸ member)
    exact ⟨text :: groups, .char (.group nonempty inRun takes), rfl⟩

/-- Only segments that are not blank fit segments that are not. -/
theorem filled_of_fits {segments texts : List (List Char)} {bindings : List (String × String)}
    (filled : ∀ s ∈ segments, s ≠ []) (fits : Fits segments texts bindings) :
    ∀ t ∈ texts, t ≠ [] := by
  induction fits with
  | nil => exact fun t member => absurd member List.not_mem_nil
  | literal _ _ ih =>
    obtain ⟨here, rest⟩ := List.forall_mem_cons.mp filled
    exact List.forall_mem_cons.mpr ⟨here, ih rest⟩
  | param nonempty _ _ ih =>
    exact List.forall_mem_cons.mpr ⟨nonempty, ih (List.forall_mem_cons.mp filled).2⟩

/-- The parts of a path take from a tidied namespace what the segments of both bind. -/
theorem takes_ofPath_iff (path namespaceText : String) {bindings : List (String × String)} :
    (∃ groups, Takes (ofPath path).parts (tidyNamespace namespaceText) groups ∧
      (ofPath path).names.zip (groups.map String.ofList) = bindings) ↔
      Fits (pathSegments path) (namespaceSegments namespaceText) bindings := by
  rw [← segments_eq_pathSegments]
  have filled : ∀ s ∈ Path.segments path.toList, s ≠ [] :=
    fun s member => (Path.segments_filled member).1
  have noSlash : ∀ s ∈ Path.segments path.toList, '/' ∉ s :=
    fun s member => (Path.segments_filled member).2
  rw [ofPath]
  dsimp only
  generalize Path.segments path.toList = segments at filled noSlash ⊢
  cases segments with
  | nil =>
    rcases tidyNamespace_eq namespaceText with ⟨empty, tidy⟩ | ⟨nonempty, notSlash, _⟩
    · rw [empty, tidy]
      constructor
      · rintro ⟨_, _, rfl⟩
        exact .nil
      · intro fits
        cases fits
        exact ⟨[], .char .nil, rfl⟩
    · constructor
      · rintro ⟨groups, takes, _⟩
        generalize tidyNamespace namespaceText = text at takes notSlash
        cases takes with
        | char takes =>
          cases takes
          exact absurd rfl notSlash
      · intro fits
        generalize namespaceSegments namespaceText = texts at fits nonempty
        cases fits
        exact absurd rfl nonempty
  | cons s rest =>
    have parts : (if (s :: rest).isEmpty then [PatternPart.char '/']
        else (s :: rest).flatMap fun s => .char '/' :: segmentParts s) = partsOf (s :: rest) := rfl
    rw [parts]
    rcases tidyNamespace_eq namespaceText with ⟨empty, tidy⟩ | ⟨_, _, tidy⟩
    · rw [empty, tidy]
      constructor
      · -- the bare slash is also an empty segment, which no filled one takes
        rintro ⟨groups, takes, _⟩
        have takes : Takes (partsOf (s :: rest)) (slashed [[]]) groups := takes
        have fits := fits_of_takes noSlash (by simp) takes
        exact absurd rfl (filled_of_fits filled fits [] (List.mem_singleton_self _))
      · intro fits
        cases fits
    · rw [tidy]
      constructor
      · rintro ⟨groups, takes, rfl⟩
        exact fits_of_takes noSlash
          (fun t member => slash_not_mem_of_mem_namespaceSegments member) takes
      · exact takes_of_fits

/-- The parameters that the pattern of a path takes from a namespace are those that the
segments bind, the last of a name counting. -/
theorem params?_ofPath_iff (path namespaceText : String) {params : Dict String} :
    (ofPath path).params? (tidyNamespace namespaceText) = some params ↔
      ∃ bindings, Fits (pathSegments path) (namespaceSegments namespaceText) bindings ∧
        Dict.ofList bindings = params := by
  rw [params?, Option.map_eq_some_iff]
  constructor
  · rintro ⟨groups, found, same⟩
    have takes := (groups?_eq_some_iff (separated_ofPath path)).mp found
    exact ⟨_, (takes_ofPath_iff path namespaceText).mp ⟨groups, takes, rfl⟩, same⟩
  · rintro ⟨bindings, fits, same⟩
    obtain ⟨groups, takes, rfl⟩ := (takes_ofPath_iff path namespaceText).mpr fits
    exact ⟨groups, (groups?_eq_some_iff (separated_ofPath path)).mpr takes, same⟩

end Pattern

end Channel

end EndpointTree
