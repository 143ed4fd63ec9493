import EndpointTree.Channel.Pattern
import Mathlib.Data.List.TakeWhile

/-!
# Patterns as regular expressions

The pattern of a path is written as a regular expression, and a text is matched without
one. Both have the same meaning: the rules by which an expression is read, character by
character, leave one way only in which a text can match, and that is the one the matcher
takes.

* `Pattern.Takes` is matching part by part, with every choice open.
* `Pattern.groups?_eq_some_iff`: where a slash or the end follows each group, there is
  nothing to choose.
* `Pattern.Denotes` is the meaning of a written expression, and
  `Pattern.expression_iff_groups?` says that the matcher goes by it.
-/

namespace EndpointTree.Channel.Pattern

/-! ## Matching part by part -/

/-- Parts match a text, and their groups take these runs of it. -/
inductive Takes : List PatternPart → List Char → List (List Char) → Prop
  | nil : Takes [] [] []
  | char {c : Char} {parts : List PatternPart} {text : List Char} {groups : List (List Char)} :
    Takes parts text groups → Takes (.char c :: parts) (c :: text) groups
  | group {run text : List Char} {parts : List PatternPart} {groups : List (List Char)} :
    run ≠ [] → (∀ c ∈ run, inGroup c = true) → Takes parts text groups →
    Takes (.group :: parts) (run ++ text) (run :: groups)

/-- A text that is at its end or at a slash. -/
def AtSlash (text : List Char) : Prop := ∀ c ∈ text.head?, c = '/'

/-- Behind every group the parts are at their end or at a slash. -/
def Separated : List PatternPart → Prop
  | [] => True
  | .char _ :: rest => Separated rest
  | .group :: rest => (∀ part ∈ rest.head?, part = .char '/') ∧ Separated rest

/-- A group takes all that stands before the next slash. -/
theorem takeWhile_append_atSlash {run text : List Char} (filled : ∀ c ∈ run, inGroup c = true)
    (atSlash : AtSlash text) : (run ++ text).takeWhile inGroup = run := by
  rw [List.takeWhile_append_of_pos filled]
  cases text with
  | nil => rw [List.takeWhile_nil, List.append_nil]
  | cons c rest =>
    have slash : c = '/' := atSlash c rfl
    rw [List.takeWhile_cons_of_neg (by simp [inGroup, slash]), List.append_nil]

/-- A group leaves what begins with the next slash. -/
theorem dropWhile_append_atSlash {run text : List Char} (filled : ∀ c ∈ run, inGroup c = true)
    (atSlash : AtSlash text) : (run ++ text).dropWhile inGroup = text := by
  rw [List.dropWhile_append_of_pos filled]
  cases text with
  | nil => rfl
  | cons c rest =>
    have slash : c = '/' := atSlash c rfl
    rw [List.dropWhile_cons_of_neg (by simp [inGroup, slash])]

/-- What parts match is at a slash, or at its end, if they are. -/
theorem Takes.atSlash {parts : List PatternPart} {text : List Char} {groups : List (List Char)}
    (takes : Takes parts text groups) (atSlash : ∀ part ∈ parts.head?, part = .char '/') :
    AtSlash text := by
  cases takes with
  | nil => exact fun c member => nomatch member
  | @char c =>
    have slash : PatternPart.char c = .char '/' := atSlash (.char c) rfl
    intro c' member
    rw [← Option.some.inj member]
    exact PatternPart.char.inj slash
  | group => cases atSlash .group rfl

/-- The groups found are taken from the text. -/
theorem takes_of_groups? {parts : List PatternPart} {text : List Char}
    {groups : List (List Char)} (found : groups? parts text = some groups) :
    Takes parts text groups := by
  induction parts generalizing text groups with
  | nil =>
    cases text with
    | nil =>
      cases found
      exact .nil
    | cons => cases found
  | cons part rest ih =>
    cases part with
    | char c =>
      cases text with
      | nil => cases found
      | cons d text =>
        rw [groups?] at found
        split at found
        · next same =>
          subst same
          exact .char (ih found)
        · cases found
    | group =>
      rw [groups?] at found
      split at found
      · cases found
      · next filled =>
        obtain ⟨further, restEq, rfl⟩ := Option.map_eq_some_iff.mp found
        have takes : Takes (.group :: rest) (text.takeWhile inGroup ++ text.dropWhile inGroup)
            (text.takeWhile inGroup :: further) := by
          refine .group (fun empty => filled ?_) (fun c member => ?_) (ih restEq)
          · rw [empty]
            rfl
          · exact List.mem_takeWhile_imp member
        rwa [List.takeWhile_append_dropWhile] at takes

/-- A group that is followed by a slash or the end has to take all that it can. -/
theorem groups?_eq_some_iff {parts : List PatternPart} (separated : Separated parts)
    {text : List Char} {groups : List (List Char)} :
    groups? parts text = some groups ↔ Takes parts text groups := by
  refine ⟨takes_of_groups?, fun takes => ?_⟩
  induction takes with
  | nil => rfl
  | char _ ih =>
    rw [groups?, if_pos rfl]
    exact ih separated
  | @group run text parts groups filled inRun takes ih =>
    have atSlash := takes.atSlash separated.1
    have nonempty : run.isEmpty = false := List.isEmpty_eq_false_iff.mpr filled
    simp only [groups?, takeWhile_append_atSlash inRun atSlash,
      dropWhile_append_atSlash inRun atSlash, nonempty, Bool.false_eq_true, if_false,
      ih separated.2, Option.map_some]

/-- Literal characters in front do not bring groups together. -/
theorem separated_map_char_append (segment : List Char) {parts : List PatternPart}
    (separated : Separated parts) : Separated (segment.map .char ++ parts) := by
  induction segment with
  | nil => exact separated
  | cons _ _ ih => exact ih

/-- The parts of segments, each behind its slash. -/
def partsOf (segments : List (List Char)) : List PatternPart :=
  segments.flatMap fun s => .char '/' :: segmentParts s

theorem partsOf_cons (s : List Char) (rest : List (List Char)) :
    partsOf (s :: rest) = .char '/' :: (segmentParts s ++ partsOf rest) := rfl

/-- Every segment of a pattern is led by a slash. -/
theorem head?_partsOf (segments : List (List Char)) :
    ∀ part ∈ (partsOf segments).head?, part = .char '/' := by
  intro part member
  cases segments with
  | nil => cases member
  | cons s rest =>
    rw [partsOf_cons] at member
    exact (Option.some.inj member).symm

/-- A slash stands between any two groups, so that each can take as much as it may. -/
theorem separated_partsOf (segments : List (List Char)) : Separated (partsOf segments) := by
  induction segments with
  | nil => trivial
  | cons s rest ih =>
    rw [partsOf_cons, Separated, segmentParts]
    cases paramName? s with
    | some name => exact ⟨head?_partsOf rest, ih⟩
    | none => exact separated_map_char_append s ih

theorem separated_ofPath (path : String) : Separated (ofPath path).parts := by
  rw [ofPath]
  dsimp only
  split
  · trivial
  · exact separated_partsOf _

/-! ## Written expressions -/

/-- The characters that mean something of their own in an expression, outside brackets. -/
def special : List Char :=
  ['\\', '.', '+', '*', '?', '(', ')', '|', '[', ']', '\x7b', '\x7d', '^', '$']

/-- The characters that stand for themselves behind a backslash; others must not follow one. -/
def escapable : List Char := special ++ ['#', '&', '-', '~']

/-- A regular expression without its leading anchor matches a text to its very end, and
its groups take these runs. -/
inductive Denotes : List Char → List Char → List (List Char) → Prop
  | stop : Denotes ['$'] [] []
  | plain {c : Char} {expression text : List Char} {groups : List (List Char)} :
    c ∉ special → Denotes expression text groups → Denotes (c :: expression) (c :: text) groups
  | escaped {c : Char} {expression text : List Char} {groups : List (List Char)} :
    c ∈ escapable → Denotes expression text groups →
    Denotes ('\\' :: c :: expression) (c :: text) groups
  | group {run expression text : List Char} {groups : List (List Char)} :
    run ≠ [] → (∀ c ∈ run, c ≠ '/') → Denotes expression text groups →
    Denotes ('(' :: '[' :: '^' :: '/' :: ']' :: '+' :: ')' :: expression) (run ++ text)
      (run :: groups)

/-- An anchored expression matches the whole of a text. -/
def Matches (expression text : List Char) (groups : List (List Char)) : Prop :=
  ∃ rest, expression = '^' :: rest ∧ Denotes rest text groups

/-- Nothing special is written without a backslash, and no backslash in vain. -/
theorem special_subset_metaChars : special ⊆ metaChars := by decide

/-- Whatever has a meaning of its own can be escaped. -/
theorem metaChars_subset_escapable : metaChars ⊆ escapable := by decide

/-- A character is escaped just where it would have a meaning of its own. -/
theorem partText_char (c : Char) :
    partText (.char c) = if c ∈ metaChars then ['\\', c] else [c] :=
  if_congr List.contains_iff_mem rfl rfl

/-- The expression is its parts between two anchors. -/
theorem toList_text (p : Pattern) : p.text.toList = '^' :: (p.parts.flatMap partText ++ ['$']) := by
  rw [Pattern.text, String.toList_ofList]
  rfl

/-- The end of an expression matches the end of a text. -/
theorem denotes_stop_iff {text : List Char} {groups : List (List Char)} :
    Denotes ['$'] text groups ↔ text = [] ∧ groups = [] := by
  constructor
  · intro denotes
    cases denotes with
    | stop => exact ⟨rfl, rfl⟩
    | plain notSpecial => exact absurd (by decide) notSpecial
  · intro holds
    obtain ⟨rfl, rfl⟩ := holds
    exact .stop

/-- A literal character matches itself, and nothing else. -/
theorem denotes_char_iff {c : Char} {expression text : List Char} {groups : List (List Char)} :
    Denotes (partText (.char c) ++ expression) text groups ↔
      ∃ rest, text = c :: rest ∧ Denotes expression rest groups := by
  rw [partText_char]
  by_cases isMeta : c ∈ metaChars
  · rw [if_pos isMeta]
    constructor
    · intro denotes
      cases denotes with
      | plain notSpecial => exact absurd (by decide) notSpecial
      | escaped _ denotes => exact ⟨_, rfl, denotes⟩
    · intro holds
      obtain ⟨rest, rfl, denotes⟩ := holds
      exact .escaped (metaChars_subset_escapable isMeta) denotes
  · rw [if_neg isMeta]
    constructor
    · intro denotes
      cases denotes with
      | stop => exact absurd (by decide) isMeta
      | plain _ denotes => exact ⟨_, rfl, denotes⟩
      | escaped => exact absurd (by decide) isMeta
      | group => exact absurd (by decide) isMeta
    · intro holds
      obtain ⟨rest, rfl, denotes⟩ := holds
      exact .plain (fun isSpecial => isMeta (special_subset_metaChars isSpecial)) denotes

/-- A group matches characters other than the slash, at least one. -/
theorem denotes_group_iff {expression text : List Char} {groups : List (List Char)} :
    Denotes (partText .group ++ expression) text groups ↔
      ∃ run rest further, text = run ++ rest ∧ groups = run :: further ∧ run ≠ [] ∧
        (∀ c ∈ run, c ≠ '/') ∧ Denotes expression rest further := by
  have written : partText .group ++ expression =
      '(' :: '[' :: '^' :: '/' :: ']' :: '+' :: ')' :: expression := rfl
  rw [written]
  constructor
  · intro denotes
    cases denotes with
    | plain notSpecial => exact absurd (by decide) notSpecial
    | group filled noSlash denotes => exact ⟨_, _, _, rfl, rfl, filled, noSlash, denotes⟩
  · intro holds
    obtain ⟨run, rest, further, rfl, rfl, filled, noSlash, denotes⟩ := holds
    exact .group filled noSlash denotes

theorem inGroup_iff {c : Char} : inGroup c = true ↔ c ≠ '/' := decide_eq_true_iff

/-- Parts mean what they mean as an expression: escapes and groups are read back. -/
theorem denotes_iff_takes {parts : List PatternPart} {text : List Char}
    {groups : List (List Char)} :
    Denotes (parts.flatMap partText ++ ['$']) text groups ↔ Takes parts text groups := by
  induction parts generalizing text groups with
  | nil =>
    rw [List.flatMap_nil, List.nil_append, denotes_stop_iff]
    constructor
    · intro holds
      obtain ⟨rfl, rfl⟩ := holds
      exact .nil
    · intro takes
      cases takes
      exact ⟨rfl, rfl⟩
  | cons part rest ih =>
    rw [List.flatMap_cons, List.append_assoc]
    cases part with
    | char c =>
      rw [denotes_char_iff]
      constructor
      · intro holds
        obtain ⟨text, rfl, denotes⟩ := holds
        exact .char (ih.mp denotes)
      · intro takes
        cases takes with
        | char takes => exact ⟨_, rfl, ih.mpr takes⟩
    | group =>
      rw [denotes_group_iff]
      constructor
      · intro holds
        obtain ⟨run, text, further, rfl, rfl, filled, noSlash, denotes⟩ := holds
        exact .group filled (fun c member => inGroup_iff.mpr (noSlash c member)) (ih.mp denotes)
      · intro takes
        cases takes with
        | group filled inRun takes =>
          exact ⟨_, _, _, rfl, rfl, filled, fun c member => inGroup_iff.mp (inRun c member),
            ih.mpr takes⟩

/-- The written expression of a path matches a text in one way at most, and the matcher
finds it. -/
theorem expression_iff_groups? (path : String) {text : List Char} {groups : List (List Char)} :
    Matches (ofPath path).text.toList text groups ↔
      groups? (ofPath path).parts text = some groups := by
  rw [groups?_eq_some_iff (separated_ofPath path), ← denotes_iff_takes, toList_text]
  constructor
  · intro matched
    obtain ⟨rest, same, denotes⟩ := matched
    rwa [(List.cons.inj same).2]
  · intro denotes
    exact ⟨_, rfl, denotes⟩

end EndpointTree.Channel.Pattern
