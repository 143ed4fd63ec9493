import EndpointTree.Http.RouteTree
import Mathlib.Data.List.Chain

/-!
# What trees of routes take

Two patterns are at odds if they have the same characters and parameters up to where both
end, or up to where each goes on with a parameter or a rest and one of them with a rest. A
tree takes a pattern exactly if it is at odds with none of those that the tree holds, and
holds it from then on. Names do not count.

A rest that stands behind a character has to stand behind a slash; where it does not, the
order in which patterns are added decides, and only the one direction is left.

* `RouteTree.took_insert?`: what a tree becomes.
* `RouteTree.insert?_isSome`: what it takes for a tree to take a pattern.
-/

namespace EndpointTree.Http

namespace PathPattern

variable {c : Char} {text : List Char} {p q : PathPattern}

/-- The pattern that stands for a text alone. -/
def chars (text : List Char) : PathPattern := text.map .char

/-- A pattern without the names of its parts; nothing stands behind a rest. -/
def shape : PathPattern → PathPattern
  | [] => []
  | .char c :: parts => .char c :: shape parts
  | .param _ :: parts => .param "" :: shape parts
  | .rest _ :: _ => [.rest ""]

/-- Two patterns are at odds. -/
def clashes : PathPattern → PathPattern → Bool
  | [], [] => true
  | .char c :: p, .char d :: q => c = d && clashes p q
  | .param _ :: p, .param _ :: q => clashes p q
  | .param _ :: _, .rest _ :: _ | .rest _ :: _, .param _ :: _ | .rest _ :: _, .rest _ :: _ => true
  | _, _ => false

/-- A rest that stands behind a character stands behind a slash. -/
def suits : PathPart → PathPart → Bool
  | .char c, .rest _ => c = '/'
  | _, _ => true

/-- Every rest of a pattern is in its place. -/
def Placed (p : PathPattern) : Prop := p.IsChain fun front part => suits front part = true

instance (p : PathPattern) : Decidable p.Placed := inferInstanceAs (Decidable (List.IsChain _ p))

theorem Placed.drop (placed : p.Placed) (n : Nat) : Placed (p.drop n) := List.IsChain.drop placed n

@[simp] theorem shape_chars_append : shape (chars text ++ p) = chars text ++ p.shape := by
  induction text with
  | nil => rfl
  | cons c text ih => exact congrArg (.char c :: ·) ih

@[simp] theorem clashes_chars_append :
    clashes (chars text ++ p) (chars text ++ q) = clashes p q := by
  induction text with
  | nil => rfl
  | cons c text ih =>
    change (decide (c = c) && clashes (chars text ++ p) (chars text ++ q)) = clashes p q
    rw [ih, decide_eq_true rfl, Bool.true_and]

theorem shape_ne_nil (further : p ≠ []) : p.shape ≠ [] := by
  rcases p with _ | ⟨_ | _ | _, p⟩
  · exact absurd rfl further
  all_goals exact List.cons_ne_nil _ _

/-- A pattern that ends is at odds with none that goes on. -/
theorem clashes_nil_left (further : p ≠ []) : clashes [] p = false := by
  cases p with
  | nil => exact absurd rfl further
  | cons part parts => rfl

theorem clashes_nil_right (further : p ≠ []) : clashes p [] = false := by
  rcases p with _ | ⟨_ | _ | _, p⟩
  · exact absurd rfl further
  all_goals rfl

/-- Names do not count. -/
theorem clashes_shape_left : clashes p.shape q = clashes p q := by
  induction p generalizing q with
  | nil => rfl
  | cons part p ih =>
    cases part with
    | char c =>
      rcases q with _ | ⟨_ | _ | _, q⟩
      case cons.char d => exact congrArg (decide (c = d) && ·) ih
      all_goals rfl
    | param name =>
      rcases q with _ | ⟨_ | _ | _, q⟩
      case cons.param => exact ih
      all_goals rfl
    | rest name => rcases q with _ | ⟨_ | _ | _, q⟩ <;> rfl

theorem clashes_comm : clashes p q = clashes q p := by
  induction p generalizing q with
  | nil => rcases q with _ | ⟨_ | _ | _, q⟩ <;> rfl
  | cons part p ih =>
    rcases part with c | name | name <;> rcases q with _ | ⟨_ | _ | _, q⟩
    case char.cons.char d =>
      change (decide (c = d) && clashes p q) = (decide (d = c) && clashes q p)
      rw [ih, decide_eq_decide.mpr (eq_comm (a := c))]
    case param.cons.param => exact ih
    all_goals rfl

end PathPattern

open PathPattern (chars shape clashes shape_ne_nil clashes_nil_left clashes_nil_right Placed)

/-! ## What a tree holds -/

section Holding

variable {α : Type}

mutual

/-- A tree has an entry for a pattern. -/
inductive RouteTree.Has : RouteTree α → PathPattern → Prop
  | entry {text : List Char} {entry : α} {fixed : List (RouteTree α)} {wild : Wild α} :
    RouteTree.Has (.node text (some entry) fixed wild) (chars text)
  | fixed {text : List Char} {here : Option α} {fixed : List (RouteTree α)} {wild : Wild α}
      {t : RouteTree α} {p : PathPattern} :
    t ∈ fixed → RouteTree.Has t p → RouteTree.Has (.node text here fixed wild) (chars text ++ p)
  | wild {text : List Char} {here : Option α} {fixed : List (RouteTree α)} {wild : Wild α}
      {p : PathPattern} :
    Wild.Has wild p → RouteTree.Has (.node text here fixed wild) (chars text ++ p)

/-- What goes on with a parameter or a rest has an entry for a pattern. -/
inductive Wild.Has : Wild α → PathPattern → Prop
  | param {entry : α} {next : Option (RouteTree α)} :
    Wild.Has (.param (some entry) next) [.param ""]
  | next {here : Option α} {next : RouteTree α} {p : PathPattern} :
    RouteTree.Has next p → Wild.Has (.param here (some next)) (.param "" :: p)
  | rest {entry : α} : Wild.Has (.rest entry) [.rest ""]

end

mutual

/-- What goes on with a character has one at its start; what goes on with a parameter leads to
an entry, and there is no second place for one that ends with it. -/
inductive RouteTree.Sound : RouteTree α → Prop
  | node {text : List Char} {here : Option α} {fixed : List (RouteTree α)} {wild : Wild α} :
    (∀ t ∈ fixed, t.text ≠ []) → (∀ t ∈ fixed, RouteTree.Sound t) → Wild.Sound wild →
    RouteTree.Sound (.node text here fixed wild)

/-- What goes on with a parameter or a rest is sound. -/
inductive Wild.Sound : Wild α → Prop
  | none : Wild.Sound .none
  | param {entry : α} : Wild.Sound (.param (some entry) none)
  | next {here : Option α} {next : RouteTree α} : (∃ p, next.Has p) → ¬ next.Has [] →
    RouteTree.Sound next → Wild.Sound (.param here (some next))
  | rest {entry : α} : Wild.Sound (.rest entry)

end

end Holding

variable {α : Type} {entry : α} {text front : List Char} {here : Option α}
  {fixed : List (RouteTree α)} {wild wild' : Wild α} {t t' : RouteTree α} {p q r : PathPattern}

namespace Wild

theorem not_has_none : ¬ Wild.Has (.none : Wild α) p := nofun

theorem has_rest_iff : Wild.Has (.rest entry) p ↔ p = [.rest ""] := by
  constructor
  · intro held
    cases held with
    | rest => rfl
  · intro same
    rw [same]
    exact .rest

/-- There is an entry for what a pattern has behind a parameter. -/
def Follows (here : Option α) (next : Option (RouteTree α)) (p : PathPattern) : Prop :=
  (here.isSome = true ∧ p = []) ∨ ∃ t, next = some t ∧ t.Has p

theorem has_param_iff {next : Option (RouteTree α)} : Wild.Has (.param here next) r ↔
    ∃ q, r = .param "" :: q ∧ Follows here next q := by
  constructor
  · intro held
    cases held with
    | param => exact ⟨[], rfl, .inl ⟨rfl, rfl⟩⟩
    | next held => exact ⟨_, rfl, .inr ⟨_, rfl, held⟩⟩
  · intro holds
    obtain ⟨q, rfl, follows⟩ := holds
    rcases follows with ⟨ends, rfl⟩ | ⟨t, rfl, held⟩
    · obtain ⟨entry, rfl⟩ := Option.isSome_iff_exists.mp ends
      exact .param
    · exact .next held

/-- A pattern that goes on with a character, and the end of one, are at odds with nothing that
goes on with a parameter or a rest. -/
theorem Has.apart_char {c : Char} (held : wild.Has r) : r.clashes (.char c :: p) = false := by
  cases held <;> rfl

theorem Has.apart_nil (held : wild.Has r) : r.clashes [] = false := by
  cases held <;> rfl

end Wild

namespace RouteTree

/-- There is an entry for what a pattern has behind the text of a node. -/
def Follows (here : Option α) (fixed : List (RouteTree α)) (wild : Wild α) (p : PathPattern) :
    Prop :=
  (here.isSome = true ∧ p = []) ∨ (∃ t ∈ fixed, t.Has p) ∨ wild.Has p

theorem has_node_iff : (node text here fixed wild).Has r ↔
    ∃ q, r = chars text ++ q ∧ Follows here fixed wild q := by
  constructor
  · intro held
    cases held with
    | entry => exact ⟨[], (List.append_nil _).symm, .inl ⟨rfl, rfl⟩⟩
    | fixed member held => exact ⟨_, rfl, .inr (.inl ⟨_, member, held⟩)⟩
    | wild held => exact ⟨_, rfl, .inr (.inr held)⟩
  · intro holds
    obtain ⟨q, rfl, follows⟩ := holds
    rcases follows with ⟨ends, rfl⟩ | ⟨t, member, held⟩ | held
    · obtain ⟨entry, rfl⟩ := Option.isSome_iff_exists.mp ends
      rw [List.append_nil]
      exact .entry
    · exact .fixed member held
    · exact .wild held

theorem has_leaf_iff : (node text (some entry) [] .none).Has r ↔ r = chars text := by
  simp only [has_node_iff, Follows, Option.isSome_some, true_and, List.not_mem_nil, false_and,
    exists_false, Wild.not_has_none, or_false, exists_eq_right, List.append_nil]

theorem has_stem_iff :
    (node text none [] wild).Has r ↔ ∃ q, r = chars text ++ q ∧ wild.Has q := by
  simp only [has_node_iff, Follows, Option.isSome_none, Bool.false_eq_true, List.not_mem_nil,
    false_and, exists_false, false_or]

theorem has_bare_iff : (node [] none [] wild).Has r ↔ wild.Has r := by
  rw [has_stem_iff]
  exact exists_eq_left'

/-- What is held behind a text starts with its first character. -/
theorem Has.exists_char {c : Char} {rest : List Char} (held : t.Has r)
    (textEq : t.text = c :: rest) : ∃ q, r = .char c :: q := by
  obtain ⟨text, here, fixed, wild⟩ := t
  obtain rfl : text = c :: rest := textEq
  obtain ⟨q, rfl, -⟩ := has_node_iff.mp held
  exact ⟨_, rfl⟩

/-! ## The node for a pattern -/

/-- A node holds a pattern behind a text and nothing else. -/
structure Alone (front : List Char) (p : PathPattern) (t : RouteTree α) : Prop where
  has : ∀ r, t.Has r ↔ r = chars front.reverse ++ p.shape
  sound : t.Sound
  text : front.reverse <+: t.text

theorem alone_ofPattern? (made : ofPattern? entry front p = some t) : t.Alone front p := by
  induction p generalizing front t with
  | nil =>
    cases made
    refine ⟨fun r => ?_, .node nofun nofun .none, List.prefix_refl _⟩
    rw [has_leaf_iff, shape, List.append_nil]
  | cons part parts ih =>
    cases part with
    | char c =>
      obtain ⟨has, sound, text⟩ := ih made
      rw [List.reverse_cons] at has text
      refine ⟨fun r => ?_, sound, (List.prefix_append _ _).trans text⟩
      rw [has, chars, List.map_append, List.append_assoc]
      rfl
    | rest name =>
      rw [ofPattern?] at made
      split at made
      · cases made
        refine ⟨fun r => ?_, .node nofun nofun .rest, List.prefix_refl _⟩
        simp only [has_stem_iff, Wild.has_rest_iff, exists_eq_right, shape]
      · cases made
    | param name =>
      cases parts with
      | nil =>
        cases made
        refine ⟨fun r => ?_, .node nofun nofun .param, List.prefix_refl _⟩
        simp [has_stem_iff, Wild.has_param_iff, Wild.Follows, shape]
      | cons part parts =>
        obtain ⟨next, further, made⟩ := Option.bind_eq_some_iff.mp made
        cases made
        obtain ⟨has, sound, -⟩ := ih further
        have next : Wild.Sound (.param none (some next)) :=
          .next ⟨_, (has _).mpr rfl⟩
            (fun ends => shape_ne_nil (List.cons_ne_nil _ _) ((has _).mp ends).symm) sound
        refine ⟨fun r => ?_, .node nofun nofun next, List.prefix_refl _⟩
        simp [has_stem_iff, Wild.has_param_iff, Wild.Follows, has, shape, chars]

/-- There is a node for every pattern whose rest is in its place. -/
theorem ofPattern?_isSome (placed : Placed (chars front.reverse ++ p)) :
    (ofPattern? entry front p).isSome = true := by
  induction p generalizing front with
  | nil => rfl
  | cons part parts ih =>
    cases part with
    | char c =>
      refine @ih (c :: front) ?_
      rwa [List.reverse_cons, chars, List.map_append, List.append_assoc]
    | rest name =>
      have behind : front.head?.all (· = '/') = true := by
        cases front with
        | nil => rfl
        | cons c front =>
          rw [List.reverse_cons, chars, List.map_append, List.append_assoc] at placed
          exact (List.isChain_cons_cons.mp placed.right_of_append).1
      rw [ofPattern?, if_pos behind]
      rfl
    | param name =>
      cases parts with
      | nil => rfl
      | cons part parts =>
        have further := @ih [] placed.right_of_append.of_cons
        obtain ⟨next, made⟩ := Option.isSome_iff_exists.mp further
        rw [ofPattern?, made]
        · rfl
        · exact nofun

/-! ## What an insertion does -/

/-- What holds patterns comes to hold one more, which is at odds with none of them. -/
structure Took (held : PathPattern → Prop) (sound : Prop) (p : PathPattern)
    (held' : PathPattern → Prop) (sound' : Prop) : Prop where
  has : ∀ r, held' r ↔ held r ∨ r = p.shape
  apart : sound → ∀ r, held r → r.clashes p = false
  sound : sound → sound'

/-- What is taken behind a start that patterns share is taken as a whole. -/
theorem Took.behind {held held' outer outer' : PathPattern → Prop} {sound sound' : Prop}
    {start : PathPattern} (took : Took held sound p held' sound')
    (outerIff : ∀ r, outer r ↔ ∃ q, r = start ++ q ∧ held q)
    (outerIff' : ∀ r, outer' r ↔ ∃ q, r = start ++ q ∧ held' q)
    (shapeEq : r.shape = start ++ p.shape) (clashesEq : ∀ q, clashes (start ++ q) r = q.clashes p) :
    Took outer sound r outer' sound' where
  has r' := by
    rw [outerIff, outerIff', shapeEq]
    constructor
    · intro holds
      obtain ⟨q, rfl, held⟩ := holds
      exact ((took.has q).mp held).imp (fun held => ⟨q, rfl, held⟩) (congrArg (start ++ ·))
    · intro holds
      rcases holds with ⟨q, rfl, held⟩ | rfl
      · exact ⟨q, rfl, (took.has q).mpr (.inl held)⟩
      · exact ⟨_, rfl, (took.has _).mpr (.inr rfl)⟩
  apart before r' held := by
    obtain ⟨q, rfl, inner⟩ := (outerIff r').mp held
    rw [clashesEq]
    exact took.apart before q inner
  sound := took.sound

/-- Trees take what is inserted. -/
def Takes (insert? : RouteTree α → PathPattern → Option (RouteTree α)) : Prop :=
  ∀ t p t', insert? t p = some t' →
    Took t.Has t.Sound p t'.Has t'.Sound ∧ t'.text = t.text.take (shared t.text p)

/-- Trees take whatever is at odds with nothing that they hold, as far as the fuel goes. -/
def TakesAll (insert? : RouteTree α → PathPattern → Option (RouteTree α)) (fuel : Nat) : Prop :=
  ∀ t p, t.Sound → p.Placed → (∀ r, t.Has r → r.clashes p = false) →
    p.length - shared t.text p < fuel → (insert? t p).isSome = true

variable {insert? : RouteTree α → PathPattern → Option (RouteTree α)} {fuel : Nat}

/-- The node for a pattern that starts with a parameter or a rest has only that. -/
theorem exists_stem {part : PathPart} (noChar : ∀ c, part ≠ .char c)
    (made : ofPattern? entry [] (part :: p) = some t) : ∃ wild, t = .node [] none [] wild := by
  cases part with
  | char c => exact absurd rfl (noChar c)
  | rest name =>
    cases made
    exact ⟨_, rfl⟩
  | param name =>
    cases p with
    | nil =>
      cases made
      exact ⟨_, rfl⟩
    | cons part parts =>
      obtain ⟨next, -, made⟩ := Option.bind_eq_some_iff.mp made
      cases made
      exact ⟨_, rfl⟩

/-- What is taken behind a parameter. -/
theorem took_param {here' : Option α} {next next' : Option (RouteTree α)} {sound sound' : Prop}
    (took : Took (Wild.Follows here next) sound p (Wild.Follows here' next') sound')
    (name : String) :
    Took (Wild.param here next).Has sound (.param name :: p) (Wild.param here' next').Has sound' :=
  @Took.behind _ (.param name :: p) _ _ _ _ _ _ [.param ""] took (fun _ => Wild.has_param_iff)
    (fun _ => Wild.has_param_iff) rfl fun _ => rfl

/-- What goes on with a parameter or a rest takes what does. -/
theorem took_extendWild? {part : PathPart} (takes : Takes insert?) (noChar : ∀ c, part ≠ .char c)
    (extended : extendWild? entry insert? wild (part :: p) = some wild') :
    Took wild.Has wild.Sound (part :: p) wild'.Has wild'.Sound := by
  rw [extendWild?.eq_def] at extended
  split at extended
  · obtain ⟨t, made, rfl⟩ := Option.map_eq_some_iff.mp extended
    obtain ⟨has, sound, -⟩ := alone_ofPattern? made
    obtain ⟨wild, rfl⟩ := exists_stem noChar made
    refine ⟨fun r => ?_, fun _ r held => absurd held Wild.not_has_none, fun _ => ?_⟩
    · rw [← has_bare_iff]
      exact (has r).trans (or_iff_right Wild.not_has_none).symm
    · cases sound with
      | node _ _ wildSound => exact wildSound
  · next next name same =>
    cases same
    cases extended
    refine took_param ⟨fun r => ?_, fun sound r held => ?_, fun sound => ?_⟩ name
    · simp only [Wild.Follows, Option.isSome_some, Option.isSome_none, Bool.false_eq_true,
        false_and, false_or, true_and, shape]
      exact or_comm
    · obtain ⟨⟨⟩, -⟩ | ⟨t, rfl, held⟩ := held
      cases sound with
      | next _ further _ => exact clashes_nil_right (fun ends => further (ends ▸ held))
    · cases sound with
      | next holds further sound => exact .next holds further sound
  · next other name part parts same =>
    cases same
    obtain ⟨next, made, rfl⟩ := Option.map_eq_some_iff.mp extended
    obtain ⟨has, sound, -⟩ := alone_ofPattern? made
    refine took_param ⟨fun r => ?_, fun _ r held => ?_, fun _ => ?_⟩ name
    · simp only [Wild.Follows, Option.some.injEq, exists_eq_left', has, reduceCtorEq, false_and,
        exists_false, or_false]
      rfl
    · obtain ⟨-, rfl⟩ | ⟨t, ⟨⟩, -⟩ := held
      exact clashes_nil_left (List.cons_ne_nil _ _)
    · exact .next ⟨_, (has _).mpr rfl⟩
        (fun ends => shape_ne_nil (List.cons_ne_nil _ _) ((has _).mp ends).symm) sound
  · next other next name part parts same =>
    cases same
    obtain ⟨next', inserted, rfl⟩ := Option.map_eq_some_iff.mp extended
    obtain ⟨took, -⟩ := takes _ _ _ inserted
    refine took_param ⟨fun r => ?_, fun sound r held => ?_, fun sound => ?_⟩ name
    · simp only [Wild.Follows, Option.some.injEq, exists_eq_left', took.has, or_assoc]
    · cases sound with
      | next _ _ sound =>
        obtain ⟨-, rfl⟩ | ⟨t, ⟨⟩, held⟩ := held
        · exact clashes_nil_left (List.cons_ne_nil _ _)
        · exact took.apart sound r held
    · cases sound with
      | next holds further sound =>
        refine .next ⟨_, (took.has _).mpr (.inr rfl)⟩ (fun ends => ?_) (took.sound sound)
        exact ((took.has _).mp ends).elim further
          fun same => shape_ne_nil (List.cons_ne_nil _ _) same.symm
  · cases extended

theorem mapM_eq_some_iff {β γ : Type} {f : β → Option γ} {xs : List β} {ys : List γ} :
    xs.mapM f = some ys ↔ xs.map f = ys.map some := by
  induction xs generalizing ys with
  | nil => rw [List.mapM_nil]; cases ys <;> simp
  | cons x xs ih =>
    rw [List.mapM_cons]
    cases ys <;> simp [Option.bind_eq_some_iff, ih]

theorem mapM_isSome {β γ : Type} {f : β → Option γ} {xs : List β}
    (each : ∀ x ∈ xs, (f x).isSome = true) : (xs.mapM f).isSome = true := by
  induction xs with
  | nil => rfl
  | cons x xs ih =>
    obtain ⟨first, further⟩ := List.forall_mem_cons.mp each
    obtain ⟨y, yEq⟩ := Option.isSome_iff_exists.mp first
    obtain ⟨ys, ysEq⟩ := Option.isSome_iff_exists.mp (ih further)
    rw [List.mapM_cons, yEq, ysEq]
    rfl

theorem exists_text_of_startsWith {c : Char} (starts : t.startsWith c = true) :
    ∃ rest, t.text = c :: rest := by
  rw [startsWith, decide_eq_true_eq] at starts
  exact ⟨_, List.eq_cons_of_mem_head? starts⟩

/-- What goes on with another character is not at odds with a pattern. -/
theorem Has.apart_of_not_startsWith {c : Char} (held : t.Has r) (named : t.text ≠ [])
    (other : ¬ t.startsWith c = true) : r.clashes (.char c :: p) = false := by
  obtain ⟨d, rest, textEq⟩ := List.exists_cons_of_ne_nil named
  obtain ⟨q, rfl⟩ := held.exists_char textEq
  have differ : d ≠ c := by
    intro same
    apply other
    rw [startsWith, textEq, List.head?_cons, same, decide_eq_true rfl]
  change (decide (d = c) && clashes q p) = false
  rw [decide_eq_false differ, Bool.false_and]

/-- Some node of a list has an entry for a pattern. -/
def AnyHas (fixed : List (RouteTree α)) (p : PathPattern) : Prop := ∃ t ∈ fixed, t.Has p

/-- The nodes of a list start with a character each, and are sound. -/
def AllSound (fixed : List (RouteTree α)) : Prop :=
  (∀ t ∈ fixed, t.text ≠ []) ∧ ∀ t ∈ fixed, t.Sound

/-- The nodes that a pattern goes on with take it further. -/
theorem took_mapM {c : Char} {fixed' : List (RouteTree α)} (takes : Takes insert?)
    (leads : fixed.any (startsWith c) = true)
    (mapped : (fixed.mapM fun t => if t.startsWith c then insert? t (.char c :: p) else some t) =
      some fixed') :
    Took (AnyHas fixed) (AllSound fixed) (.char c :: p) (AnyHas fixed') (AllSound fixed') := by
  have pairs := mapM_eq_some_iff.mp mapped
  have before : ∀ t' ∈ fixed', ∃ t ∈ fixed,
      (if t.startsWith c then insert? t (.char c :: p) else some t) = some t' := by
    intro t' member
    have member : some t' ∈ fixed'.map some := List.mem_map_of_mem member
    rw [← pairs] at member
    exact List.mem_map.mp member
  have after : ∀ t ∈ fixed, ∃ t' ∈ fixed',
      (if t.startsWith c then insert? t (.char c :: p) else some t) = some t' := by
    intro t member
    have member := List.mem_map_of_mem (f := fun t =>
      if t.startsWith c then insert? t (.char c :: p) else some t) member
    rw [pairs] at member
    obtain ⟨t', member, same⟩ := List.mem_map.mp member
    exact ⟨t', member, same.symm⟩
  refine ⟨fun r => ⟨?_, ?_⟩, fun sound r held => ?_, fun sound => ?_⟩
  · intro holds
    obtain ⟨t', member', held⟩ := holds
    obtain ⟨t, member, same⟩ := before t' member'
    split at same
    · obtain ⟨took, -⟩ := takes _ _ _ same
      exact ((took.has r).mp held).imp (fun held => ⟨t, member, held⟩) id
    · cases same
      exact .inl ⟨t', member, held⟩
  · intro holds
    rcases holds with ⟨t, member, held⟩ | rfl
    · obtain ⟨t', member', same⟩ := after t member
      split at same
      · exact ⟨t', member', ((takes _ _ _ same).1.has r).mpr (.inl held)⟩
      · cases same
        exact ⟨t, member', held⟩
    · obtain ⟨t, member, starts⟩ := List.any_eq_true.mp leads
      obtain ⟨t', member', same⟩ := after t member
      rw [if_pos starts] at same
      exact ⟨t', member', ((takes _ _ _ same).1.has _).mpr (.inr rfl)⟩
  · obtain ⟨t, member, held⟩ := held
    by_cases starts : t.startsWith c = true
    · obtain ⟨t', member', same⟩ := after t member
      rw [if_pos starts] at same
      exact (takes _ _ _ same).1.apart (sound.2 t member) r held
    · exact held.apart_of_not_startsWith (sound.1 t member) starts
  · have each : ∀ t' ∈ fixed', t'.text ≠ [] ∧ t'.Sound := by
      intro t' member'
      obtain ⟨t, member, same⟩ := before t' member'
      split at same
      · next starts =>
        obtain ⟨took, textEq'⟩ := takes _ _ _ same
        obtain ⟨rest, textEq⟩ := exists_text_of_startsWith starts
        rw [textEq', textEq, shared, if_pos rfl]
        exact ⟨List.cons_ne_nil _ _, took.sound (sound.2 t member)⟩
      · cases same
        exact ⟨sound.1 t' member, sound.2 t' member⟩
    exact ⟨fun t' member' => (each t' member').1, fun t' member' => (each t' member').2⟩

/-- A node of its own takes what no other node goes on with. -/
theorem took_append {c : Char} (stray : ¬ fixed.any (startsWith c) = true)
    (made : ofPattern? entry [] (.char c :: p) = some t) :
    Took (AnyHas fixed) (AllSound fixed) (.char c :: p) (AnyHas (fixed ++ [t]))
      (AllSound (fixed ++ [t])) := by
  obtain ⟨has, tSound, text⟩ : t.Alone [c] p := alone_ofPattern? made
  have named : t.text ≠ [] := by
    intro blank
    rw [blank] at text
    cases List.prefix_nil.mp text
  refine ⟨fun r => ?_, fun sound r held => ?_, fun sound => ?_⟩
  · simp only [AnyHas, List.mem_append, List.mem_singleton, or_and_right, exists_or,
      exists_eq_left, has]
    rfl
  · obtain ⟨t', member, held⟩ := held
    refine held.apart_of_not_startsWith (sound.1 t' member) fun starts => stray ?_
    exact List.any_eq_true.mpr ⟨t', member, starts⟩
  · refine ⟨fun t' member => ?_, fun t' member => ?_⟩
    all_goals rcases List.mem_append.mp member with member | member
    · exact sound.1 t' member
    · exact List.mem_singleton.mp member ▸ named
    · exact sound.2 t' member
    · exact List.mem_singleton.mp member ▸ tSound

/-- What is taken behind the text of a node. -/
theorem took_node {here' : Option α} {fixed' : List (RouteTree α)} {sound sound' : Prop}
    (took : Took (Follows here fixed wild) sound p (Follows here' fixed' wild') sound') :
    Took (node text here fixed wild).Has sound (chars text ++ p)
      (node text here' fixed' wild').Has sound' :=
  took.behind (fun _ => has_node_iff) (fun _ => has_node_iff) PathPattern.shape_chars_append
    fun _ => PathPattern.clashes_chars_append

/-- What the nodes take that a node goes on with, it takes itself. -/
theorem took_fixed {c : Char} {fixed' : List (RouteTree α)}
    (took : Took (AnyHas fixed) (AllSound fixed) (.char c :: p) (AnyHas fixed') (AllSound fixed')) :
    Took (node text here fixed wild).Has (node text here fixed wild).Sound
      (chars text ++ .char c :: p) (node text here fixed' wild).Has
      (node text here fixed' wild).Sound := by
  refine took_node ⟨fun r => ?_, fun sound r held => ?_, fun sound => ?_⟩
  · have has := took.has r
    simp only [AnyHas] at has
    simp only [Follows, has, or_comm, or_left_comm]
  · cases sound with
    | node named sound _ =>
      obtain ⟨-, rfl⟩ | held | held := held
      · rfl
      · exact took.apart ⟨named, sound⟩ r held
      · exact held.apart_char
  · cases sound with
    | node named sound wildSound =>
      obtain ⟨named', sound'⟩ := took.sound ⟨named, sound⟩
      exact .node named' sound' wildSound

/-- What is taken where a node goes on with a parameter or a rest, it takes itself. -/
theorem took_wild {part : PathPart} (noChar : ∀ c, part ≠ .char c)
    (took : Took wild.Has wild.Sound (part :: p) wild'.Has wild'.Sound) :
    Took (node text here fixed wild).Has (node text here fixed wild).Sound
      (chars text ++ part :: p) (node text here fixed wild').Has
      (node text here fixed wild').Sound := by
  refine took_node ⟨fun r => ?_, fun sound r held => ?_, fun sound => ?_⟩
  · simp only [Follows, took.has, or_assoc]
  · cases sound with
    | node named _ wildSound =>
      obtain ⟨-, rfl⟩ | ⟨t, member, held⟩ | held := held
      · rfl
      · obtain ⟨c, rest, textEq⟩ := List.exists_cons_of_ne_nil (named t member)
        obtain ⟨q, rfl⟩ := held.exists_char textEq
        cases part with
        | char c => exact absurd rfl (noChar c)
        | _ => rfl
      · exact took.apart wildSound r held
  · cases sound with
    | node named sound wildSound => exact .node named sound (took.sound wildSound)

/-- A node takes what it goes on with. -/
theorem took_extend? {n n' : RouteTree α} (takes : Takes insert?)
    (extended : extend? entry insert? n p = some n') :
    Took n.Has n.Sound (chars n.text ++ p) n'.Has n'.Sound ∧ n'.text = n.text := by
  obtain ⟨text, here, fixed, wild⟩ := n
  have further {part : PathPart} {parts : PathPattern} (noChar : ∀ c, part ≠ .char c)
      (whole : (extendWild? entry insert? wild (part :: parts)).map (node text here fixed) =
        some n') :
      Took (node text here fixed wild).Has (node text here fixed wild).Sound
        (chars text ++ part :: parts) n'.Has n'.Sound ∧ n'.text = text := by
    obtain ⟨wild', onward, rfl⟩ := Option.map_eq_some_iff.mp whole
    exact ⟨took_wild noChar (took_extendWild? takes noChar onward), rfl⟩
  cases p with
  | nil =>
    rw [extend?] at extended
    split at extended
    · cases extended
    · next free =>
      cases extended
      refine ⟨took_node ⟨fun r => ?_, fun sound r held => ?_, fun sound => ?_⟩, rfl⟩
      · simp [Follows, free, shape, or_comm]
      · cases sound with
        | node named _ _ =>
          obtain ⟨ends, -⟩ | ⟨t, member, held⟩ | held := held
          · exact absurd ends free
          · obtain ⟨c, rest, textEq⟩ := List.exists_cons_of_ne_nil (named t member)
            obtain ⟨q, rfl⟩ := held.exists_char textEq
            rfl
          · exact held.apart_nil
      · cases sound with
        | node named sound wildSound => exact .node named sound wildSound
  | cons part parts =>
    cases part with
    | char c =>
      rw [extend?] at extended
      split at extended
      · next leads =>
        obtain ⟨fixed', mapped, extended⟩ := Option.bind_eq_some_iff.mp extended
        cases extended
        exact ⟨took_fixed (took_mapM takes leads mapped), rfl⟩
      · next stray =>
        obtain ⟨t, made, extended⟩ := Option.bind_eq_some_iff.mp extended
        cases extended
        exact ⟨took_fixed (took_append stray made), rfl⟩
    | param name => exact further nofun extended
    | rest name => exact further nofun extended

/-! ## Dividing a node -/

/-- What a text and a pattern have in common, and what the pattern has behind it. -/
theorem chars_take_shared (text : List Char) (p : PathPattern) :
    chars (text.take (shared text p)) ++ p.drop (shared text p) = p := by
  induction text generalizing p with
  | nil => rfl
  | cons c text ih =>
    rcases p with _ | ⟨d | _ | _, parts⟩
    case cons.char =>
      rw [shared]
      split
      · next same =>
        subst same
        exact congrArg (.char c :: ·) (ih parts)
      · rfl
    all_goals rfl

theorem shared_pos {c : Char} {rest : List Char} : 0 < shared (c :: rest) (.char c :: p) := by
  rw [shared, if_pos rfl]
  exact Nat.succ_pos _

theorem text_divided (n : Nat) (t : RouteTree α) : (t.divided n).text = t.text.take n := by
  obtain ⟨text, here, fixed, wild⟩ := t
  rw [divided]
  split
  · rfl
  · next short => exact (List.take_of_length_le (not_lt.mp short)).symm

/-- A node that is divided holds what it held. -/
theorem has_divided (n : Nat) (t : RouteTree α) : (t.divided n).Has r ↔ t.Has r := by
  obtain ⟨text, here, fixed, wild⟩ := t
  rw [divided]
  split
  · have whole : chars text = chars (text.take n) ++ chars (text.drop n) := by
      rw [chars, chars, chars, ← List.map_append, List.take_append_drop]
    constructor
    · intro held
      obtain ⟨q, rfl, ⟨⟨⟩, -⟩ | ⟨t, member, held⟩ | held⟩ := has_node_iff.mp held
      · obtain rfl := List.mem_singleton.mp member
        obtain ⟨q, rfl, follows⟩ := has_node_iff.mp held
        rw [← List.append_assoc, ← whole]
        exact has_node_iff.mpr ⟨q, rfl, follows⟩
      · exact absurd held Wild.not_has_none
    · intro held
      obtain ⟨q, rfl, follows⟩ := has_node_iff.mp held
      rw [whole, List.append_assoc]
      exact .fixed List.mem_cons_self (has_node_iff.mpr ⟨q, rfl, follows⟩)
  · rfl

theorem Sound.divided (sound : t.Sound) (n : Nat) : (t.divided n).Sound := by
  obtain ⟨text, here, fixed, wild⟩ := t
  rw [RouteTree.divided]
  split
  · next long =>
    cases sound with
    | node named sound wildSound =>
      refine .node (fun t member => ?_) (fun t member => ?_) .none
      · obtain rfl := List.mem_singleton.mp member
        exact List.drop_eq_nil_iff.not.mpr (not_le.mpr long)
      · obtain rfl := List.mem_singleton.mp member
        exact .node named sound wildSound
  · exact sound

/-! ## Runs down a tree -/

/-- The fuel that an insertion has left does not count, once it comes to an end. -/
theorem took_insertAt? (entry : α) (fuel : Nat) : Takes (insertAt? entry fuel) := by
  induction fuel with
  | zero =>
    intro t p t' inserted
    cases inserted
  | succ fuel ih =>
    intro t p t' inserted
    obtain ⟨⟨has, apart, sound⟩, textEq⟩ := took_extend? ih inserted
    rw [text_divided] at textEq apart has
    rw [chars_take_shared] at apart has
    refine ⟨⟨fun r => ?_, fun before r held => ?_, fun before => ?_⟩, textEq⟩
    · rw [has, has_divided]
    · exact apart (before.divided _) r ((has_divided _ _).mpr held)
    · exact sound (before.divided _)

/-- A tree that takes a pattern holds it from then on beside all others, none of which is at
odds with it. -/
theorem took_insert? (inserted : t.insert? p entry = some t') :
    Took t.Has t.Sound p t'.Has t'.Sound :=
  (took_insertAt? entry _ t p t' inserted).1

/-- Where a parameter or a rest goes on there is room for a pattern unless it is at odds with
what is held there. -/
theorem extendWild?_isSome {part : PathPart} (takesAll : TakesAll insert? fuel)
    (sound : wild.Sound) (placed : Placed (part :: p))
    (apart : ∀ r, wild.Has r → r.clashes (part :: p) = false) (noChar : ∀ c, part ≠ .char c)
    (short : p.length < fuel) : (extendWild? entry insert? wild (part :: p)).isSome = true := by
  -- whatever is held where a parameter or a rest goes on is at odds with a rest
  have noRest {r : PathPattern} {name : String} (held : wild.Has r) :
      r.clashes (.rest name :: p) = true := by
    cases held <;> rfl
  cases part with
  | char c => exact absurd rfl (noChar c)
  | rest name =>
    cases sound with
    | none => exact (Option.isSome_map ..).trans (@ofPattern?_isSome α entry [] _ placed)
    | param => cases (apart _ .param).symm.trans (noRest .param)
    | next holds _ _ =>
      obtain ⟨q, held⟩ := holds
      cases (apart _ (.next held)).symm.trans (noRest (.next held))
    | rest => cases (apart _ .rest).symm.trans (noRest .rest)
  | param name =>
    cases sound with
    | none => exact (Option.isSome_map ..).trans (@ofPattern?_isSome α entry [] _ placed)
    | param =>
      cases p with
      | nil => cases apart _ .param
      | cons part parts =>
        exact (Option.isSome_map ..).trans (@ofPattern?_isSome α entry [] _ placed.of_cons)
    | @next here next _ _ sound =>
      cases p with
      | nil =>
        cases here with
        | none => rfl
        | some entry => cases apart _ .param
      | cons part parts =>
        rw [extendWild?, Option.isSome_map]
        refine takesAll next _ sound placed.of_cons ?_ ?_
        · exact fun r held => apart _ (.next held)
        · exact lt_of_le_of_lt (Nat.sub_le _ _) short
    | rest => cases apart _ .rest

/-- A node has room for a pattern behind its text unless the pattern is at odds with what it
holds. -/
theorem extend?_isSome {n : RouteTree α} (takesAll : TakesAll insert? fuel) (sound : n.Sound)
    (placed : p.Placed) (apart : ∀ r, n.Has r → r.clashes (chars n.text ++ p) = false)
    (short : p.length ≤ fuel) : (extend? entry insert? n p).isSome = true := by
  obtain ⟨text, here, fixed, wild⟩ := n
  obtain ⟨named, fixedSound, wildSound⟩ := sound
  have apart : ∀ r, Follows here fixed wild r → r.clashes p = false := fun r follows =>
    PathPattern.clashes_chars_append.symm.trans (apart _ (has_node_iff.mpr ⟨r, rfl, follows⟩))
  have wildApart : ∀ r, wild.Has r → r.clashes p = false := fun r held => apart r (.inr (.inr held))
  cases p with
  | nil =>
    cases here with
    | none => rfl
    | some entry => cases apart [] (.inl ⟨rfl, rfl⟩)
  | cons part parts =>
    cases part with
    | char c =>
      rw [extend?]
      split
      · next leads =>
        have each : ∀ t ∈ fixed,
            (if t.startsWith c then insert? t (.char c :: parts) else some t).isSome = true := by
          intro t member
          split
          · next starts =>
            refine takesAll t _ (fixedSound t member) placed
              (fun r held => apart r (.inr (.inl ⟨t, member, held⟩))) ?_
            obtain ⟨rest, textEq⟩ := exists_text_of_startsWith starts
            have common : 0 < shared t.text (.char c :: parts) := textEq ▸ shared_pos
            rw [List.length_cons] at short ⊢
            omega
          · rfl
        obtain ⟨fixed', mapped⟩ := Option.isSome_iff_exists.mp (mapM_isSome each)
        rw [mapped]
        rfl
      · next stray =>
        obtain ⟨t, made⟩ := Option.isSome_iff_exists.mp (@ofPattern?_isSome α entry [] _ placed)
        rw [made]
        rfl
    | param name =>
      exact (Option.isSome_map ..).trans
        (extendWild?_isSome takesAll wildSound placed wildApart nofun short)
    | rest name =>
      exact (Option.isSome_map ..).trans
        (extendWild?_isSome takesAll wildSound placed wildApart nofun short)

/-- An insertion has fuel for all nodes on its way: behind the first one, each of them shares
a character or a parameter with the pattern. -/
theorem takesAll_insertAt? (entry : α) (fuel : Nat) : TakesAll (insertAt? entry fuel) fuel := by
  induction fuel with
  | zero =>
    intro t p _ _ _ short
    exact absurd short (Nat.not_lt_zero _)
  | succ fuel ih =>
    intro t p sound placed apart short
    refine extend?_isSome ih (sound.divided _) (placed.drop _) (fun r held => ?_) ?_
    · rw [text_divided, chars_take_shared]
      exact apart r ((has_divided _ _).mp held)
    · rw [List.length_drop]
      exact Nat.lt_succ_iff.mp short

/-- A tree takes every pattern with its rest in place that is at odds with nothing it holds. -/
theorem insert?_isSome (sound : t.Sound) (placed : p.Placed)
    (apart : ∀ r, t.Has r → r.clashes p = false) : (t.insert? p entry).isSome = true :=
  takesAll_insertAt? entry _ t p sound placed apart (by omega)

theorem sound_empty : (empty : RouteTree α).Sound := .node nofun nofun .none

theorem not_has_empty : ¬ (empty : RouteTree α).Has p := by
  rw [empty, has_bare_iff]
  exact Wild.not_has_none

end RouteTree

end EndpointTree.Http
