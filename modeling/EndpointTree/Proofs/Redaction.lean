import EndpointTree.Redaction
import Mathlib.Data.List.Basic

/-!
# What redaction removes

Redaction looks at a value itself, at the items of a list, at any depth of lists, and at
the items of the `documents` of an object that it looks at. There it deletes the members
under denied names and nothing else, and leaves none of them.

* `Redaction.Holds` are the objects that redaction looks at.
* `Redaction.Deletes` relates a value to what is left of it when denied members go.
* `Redaction.cleared_iff`: stripping is to delete until nothing denied is left.
-/

namespace EndpointTree.Redaction

variable {denied : List String}

/-! ## Positions -/

/-- An object with these members stands where redaction looks. -/
inductive Holds : Json → List (String × Json) → Prop
  | here (members : List (String × Json)) : Holds (.object members) members
  | item {items : List Json} {x : Json} {members : List (String × Json)} :
    x ∈ items → Holds x members → Holds (.array items) members
  | page {outer members : List (String × Json)} {items : List Json} :
    ("documents", .array items) ∈ outer → Holds (.array items) members →
    Holds (.object outer) members

/-- Nothing that redaction looks at has a member under a denied name. -/
def Clean (denied : List String) (v : Json) : Prop :=
  ∀ members, Holds v members → ∀ m ∈ members, m.1 ∉ denied

/-- A list is clean when all its items are. -/
theorem clean_array_iff {items : List Json} :
    Clean denied (.array items) ↔ ∀ x ∈ items, Clean denied x := by
  constructor
  · intro clean x member members holds
    exact clean members (.item member holds)
  · intro clean members holds
    cases holds with
    | item member holds => exact clean _ member members holds

/-- An object is clean when it names no denied field and its documents are clean. -/
theorem clean_object_iff {members : List (String × Json)} :
    Clean denied (.object members) ↔ ∀ m ∈ members, m.1 ∉ denied ∧
      ∀ items, m = ("documents", .array items) → Clean denied (.array items) := by
  constructor
  · intro clean m member
    refine ⟨clean members (.here members) m member, ?_⟩
    rintro items rfl inner holds
    exact clean inner (.page member holds)
  · intro clean inner holds
    cases holds with
    | here => exact fun m member => (clean m member).1
    | page member holds => exact (clean _ member).2 _ rfl inner holds

/-! ## Deletions -/

mutual

/-- The right value is the left one less some members under denied names, where redaction
looks; everything else is the same, in the same order. -/
inductive Deletes (denied : List String) : Json → Json → Prop
  | same (v : Json) : Deletes denied v v
  | array {xs ys : List Json} :
    DeletesItems denied xs ys → Deletes denied (.array xs) (.array ys)
  | object {ms ns : List (String × Json)} :
    DeletesMembers denied ms ns → Deletes denied (.object ms) (.object ns)

/-- The items of a list, each less some of its members. -/
inductive DeletesItems (denied : List String) : List Json → List Json → Prop
  | nil : DeletesItems denied [] []
  | cons {x y : Json} {xs ys : List Json} :
    Deletes denied x y → DeletesItems denied xs ys → DeletesItems denied (x :: xs) (y :: ys)

/-- The members of an object less some under denied names, a list of documents item by item. -/
inductive DeletesMembers (denied : List String) :
    List (String × Json) → List (String × Json) → Prop
  | nil : DeletesMembers denied [] []
  | drop {key : String} {value : Json} {ms ns : List (String × Json)} :
    key ∈ denied → DeletesMembers denied ms ns → DeletesMembers denied ((key, value) :: ms) ns
  | keep {ms ns : List (String × Json)} (m : String × Json) :
    DeletesMembers denied ms ns → DeletesMembers denied (m :: ms) (m :: ns)
  | page {xs ys : List Json} {ms ns : List (String × Json)} :
    DeletesItems denied xs ys → DeletesMembers denied ms ns →
    DeletesMembers denied (("documents", .array xs) :: ms) (("documents", .array ys) :: ns)

end

/-- What is left of a value when every denied member is gone from where redaction looks. -/
structure Cleared (denied : List String) (v w : Json) : Prop where
  deletes : Deletes denied v w
  clean : Clean denied w

/-! ## Stripping -/

theorem items?_isSome_iff {v : Json} : v.items?.isSome = true ↔ ∃ items, v = .array items := by
  cases v <;> simp [Json.items?]

/-- The documents of a page are stripped, unless they are denied as a whole. -/
theorem stripMembers_documents (items : List Json) (rest : List (String × Json)) :
    stripMembers denied (("documents", .array items) :: rest) =
      if denied.contains "documents" then stripMembers denied rest
      else ("documents", .array (stripItems denied items)) :: stripMembers denied rest := by
  have list : "documents" = "documents" ∧ (Json.array items).items?.isSome = true := ⟨rfl, rfl⟩
  rw [stripMembers, if_pos list, strip]

mutual

/-- Stripping deletes denied fields, and deletes nothing else. -/
theorem deletes_strip : ∀ v : Json, Deletes denied v (strip denied v)
  | .array items => .array (deletesItems_strip items)
  | .object members => .object (deletesMembers_strip members)
  | .null | .bool _ | .number _ | .string _ => .same _

theorem deletesItems_strip : ∀ items : List Json,
    DeletesItems denied items (stripItems denied items)
  | [] => .nil
  | x :: rest => .cons (deletes_strip x) (deletesItems_strip rest)

theorem deletesMembers_strip : ∀ members : List (String × Json),
    DeletesMembers denied members (stripMembers denied members)
  | [] => .nil
  | (key, value) :: rest => by
    have rest' := deletesMembers_strip rest
    rw [stripMembers]
    split
    · next gone => exact .drop (List.contains_iff_mem.mp gone) rest'
    · split
      · next page =>
        obtain ⟨rfl, list⟩ := page
        obtain ⟨items, rfl⟩ := items?_isSome_iff.mp list
        exact .page (deletesItems_strip items) rest'
      · exact .keep _ rest'

end

mutual

/-- What was stripped is clean. -/
theorem clean_strip : ∀ v : Json, Clean denied (strip denied v)
  | .array items => clean_array_iff.mpr (clean_stripItems items)
  | .object members => clean_object_iff.mpr (clean_stripMembers members)
  | .null | .bool _ | .number _ | .string _ => fun _ holds => nomatch holds

theorem clean_stripItems : ∀ items : List Json, ∀ x ∈ stripItems denied items, Clean denied x
  | [] => fun _ member => nomatch member
  | x :: rest => List.forall_mem_cons.mpr ⟨clean_strip x, clean_stripItems rest⟩

theorem clean_stripMembers : ∀ members : List (String × Json),
    ∀ m ∈ stripMembers denied members, m.1 ∉ denied ∧
      ∀ items, m = ("documents", .array items) → Clean denied (.array items)
  | [] => fun _ member => nomatch member
  | (key, value) :: rest => by
    have rest' := clean_stripMembers rest
    rw [stripMembers]
    split
    · exact rest'
    · next allowed =>
      have allowed : key ∉ denied := List.contains_iff_mem.not.mp allowed
      split
      · refine List.forall_mem_cons.mpr ⟨⟨allowed, fun items equal => ?_⟩, rest'⟩
        rw [← (Prod.mk.inj equal).2]
        exact clean_strip value
      · next plain =>
        refine List.forall_mem_cons.mpr ⟨⟨allowed, fun items equal => ?_⟩, rest'⟩
        cases equal
        exact absurd ⟨rfl, rfl⟩ plain

end

mutual

/-- What is deleted would have been stripped. -/
theorem Deletes.strip_eq {v w : Json} : Deletes denied v w → strip denied v = strip denied w
  | .same _ => rfl
  | .array items => by rw [strip, strip, items.strip_eq]
  | .object members => by rw [strip, strip, members.strip_eq]

/-- Stripping does not see what was deleted from items. -/
theorem DeletesItems.strip_eq {xs ys : List Json} :
    DeletesItems denied xs ys → stripItems denied xs = stripItems denied ys
  | .nil => rfl
  | .cons first rest => by rw [stripItems, stripItems, first.strip_eq, rest.strip_eq]

/-- Stripping does not see what was deleted from members. -/
theorem DeletesMembers.strip_eq {ms ns : List (String × Json)} :
    DeletesMembers denied ms ns → stripMembers denied ms = stripMembers denied ns
  | .nil => rfl
  | .drop gone rest => by
    rw [stripMembers, if_pos (List.contains_iff_mem.mpr gone), rest.strip_eq]
  | .keep (key, value) rest => by rw [stripMembers, stripMembers, rest.strip_eq]
  | .page items rest => by
    rw [stripMembers_documents, stripMembers_documents, items.strip_eq, rest.strip_eq]

end

mutual

/-- Where nothing is denied, nothing is stripped. -/
theorem strip_eq_self : ∀ {v : Json}, Clean denied v → strip denied v = v
  | .array items, clean => congrArg _ (stripItems_eq_self (clean_array_iff.mp clean))
  | .object members, clean => congrArg _ (stripMembers_eq_self (clean_object_iff.mp clean))
  | .null, _ | .bool _, _ | .number _, _ | .string _, _ => rfl

/-- Clean items stay as they are. -/
theorem stripItems_eq_self : ∀ {items : List Json}, (∀ x ∈ items, Clean denied x) →
    stripItems denied items = items
  | [], _ => rfl
  | x :: rest, clean => by
    obtain ⟨first, rest'⟩ := List.forall_mem_cons.mp clean
    rw [stripItems, strip_eq_self first, stripItems_eq_self rest']

/-- Clean members stay as they are. -/
theorem stripMembers_eq_self : ∀ {members : List (String × Json)},
    (∀ m ∈ members, m.1 ∉ denied ∧
      ∀ items, m = ("documents", .array items) → Clean denied (.array items)) →
    stripMembers denied members = members
  | [], _ => rfl
  | (key, value) :: rest, clean => by
    obtain ⟨⟨allowed, list⟩, rest'⟩ := List.forall_mem_cons.mp clean
    rw [stripMembers, if_neg (List.contains_iff_mem.not.mpr allowed), stripMembers_eq_self rest']
    split
    · next page =>
      obtain ⟨rfl, isList⟩ := page
      obtain ⟨items, rfl⟩ := items?_isSome_iff.mp isList
      rw [strip_eq_self (list items rfl)]
    · rfl

end

/-- A value is cleared exactly by stripping it. -/
theorem cleared_iff {v w : Json} : Cleared denied v w ↔ w = strip denied v := by
  constructor
  · rintro ⟨deletes, clean⟩
    rw [deletes.strip_eq, strip_eq_self clean]
  · rintro rfl
    exact ⟨deletes_strip v, clean_strip v⟩

/-! ## Denied fields -/

/-- A field is denied by a forbidden entry, or by a requirement that is not met. -/
theorem fieldAllowed_eq_false_iff {table : AuthTable} {m : AccessMethod} {auth : AuthContext} :
    fieldAllowed table m auth = false ↔
      table m = .forbidden ∨ ∃ r, table m = .required r ∧ r.admits auth = false := by
  rw [fieldAllowed]
  cases table m with
  | forbidden => simp
  | required r => simp

/-- A field is denied where its table does not admit the caller for that very method. -/
theorem mem_deniedFields_iff {fields : List (String × AuthTable)} {m : AccessMethod}
    {auth : AuthContext} {name : String} :
    name ∈ deniedFields fields m auth ↔
      ∃ table, (name, table) ∈ fields ∧ fieldAllowed table m auth = false := by
  simp [deniedFields]

end EndpointTree.Redaction
