import EndpointTree.Proofs.Pairs
import EndpointTree.Proofs.Redaction

/-!
# What redaction reports

Redaction reports the names of what it deletes, in ascending order and each of them once,
however often it comes upon a name. A denied name that stands only where redaction does not
look is not reported, and neither is one that goes together with the list of a page.

* `Redaction.Loses` says that a value loses a member under a name.
* `Redaction.mem_found_iff`: the names that are found are those.
* `Redaction.redaction_deletes_denied_fields_only` is redaction as a whole.
-/

namespace EndpointTree.Redaction

variable {denied : List String} {name : String}

/-- Somewhere in a value, where redaction looks, a member under the name is deleted. A page
that loses its list as a whole loses nothing inside it. -/
inductive Loses (denied : List String) (name : String) : Json → Prop
  | here {members : List (String × Json)} {value : Json} :
    name ∈ denied → (name, value) ∈ members → Loses denied name (.object members)
  | item {items : List Json} {x : Json} :
    x ∈ items → Loses denied name x → Loses denied name (.array items)
  | page {members : List (String × Json)} {items : List Json} :
    "documents" ∉ denied → ("documents", .array items) ∈ members →
    Loses denied name (.array items) → Loses denied name (.object members)

/-- A list loses a field where one of its items does. -/
theorem loses_array_iff {items : List Json} :
    Loses denied name (.array items) ↔ ∃ x ∈ items, Loses denied name x := by
  constructor
  · intro loses
    cases loses with
    | item member loses => exact ⟨_, member, loses⟩
  · intro holds
    obtain ⟨x, member, loses⟩ := holds
    exact .item member loses

/-- An object loses a field where its first member does, or where the others do. -/
theorem loses_object_cons_iff {key : String} {value : Json} {rest : List (String × Json)} :
    Loses denied name (.object ((key, value) :: rest)) ↔
      (key ∈ denied ∧ name = key ∨
        key ∉ denied ∧ key = "documents" ∧ value.items?.isSome = true ∧ Loses denied name value) ∨
      Loses denied name (.object rest) := by
  constructor
  · intro loses
    cases loses with
    | here isDenied member =>
      rcases List.mem_cons.mp member with same | member
      · cases same
        exact .inl (.inl ⟨isDenied, rfl⟩)
      · exact .inr (.here isDenied member)
    | page allowed member loses =>
      rcases List.mem_cons.mp member with same | member
      · cases same
        exact .inl (.inr ⟨allowed, rfl, rfl, loses⟩)
      · exact .inr (.page allowed member loses)
  · intro holds
    rcases holds with (⟨isDenied, rfl⟩ | ⟨allowed, rfl, list, loses⟩) | loses
    · exact .here isDenied List.mem_cons_self
    · obtain ⟨items, rfl⟩ := items?_isSome_iff.mp list
      exact .page allowed List.mem_cons_self loses
    · cases loses with
      | here isDenied member => exact .here isDenied (List.mem_cons_of_mem _ member)
      | page allowed member loses => exact .page allowed (List.mem_cons_of_mem _ member) loses

mutual

/-- The names found are those of the fields that are lost. -/
theorem mem_found_iff : ∀ v : Json, name ∈ found denied v ↔ Loses denied name v
  | .array items => by rw [found, mem_foundItems_iff items, loses_array_iff]
  | .object members => by rw [found, mem_foundMembers_iff members]
  | .null | .bool _ | .number _ | .string _ => ⟨nofun, nofun⟩

theorem mem_foundItems_iff :
    ∀ items : List Json, name ∈ foundItems denied items ↔ ∃ x ∈ items, Loses denied name x
  | [] => ⟨nofun, nofun⟩
  | x :: rest => by
    rw [foundItems, List.mem_append, mem_found_iff x, mem_foundItems_iff rest]
    simp only [List.mem_cons, exists_eq_or_imp]

theorem mem_foundMembers_iff :
    ∀ members : List (String × Json),
      name ∈ foundMembers denied members ↔ Loses denied name (.object members)
  | [] => ⟨nofun, fun loses => by cases loses <;> contradiction⟩
  | (key, value) :: rest => by
    rw [foundMembers, loses_object_cons_iff, ← mem_foundMembers_iff rest]
    split
    · next gone =>
      have gone := List.contains_iff_mem.mp gone
      simp only [List.mem_cons, gone, true_and, not_true_eq_false, false_and, or_false]
    · next allowed =>
      have allowed : key ∉ denied := List.contains_iff_mem.not.mp allowed
      split
      · next page =>
        obtain ⟨rfl, list⟩ := page
        rw [List.mem_append, mem_found_iff value]
        simp only [allowed, list, false_and, false_or, not_false_eq_true, true_and]
      · next plain =>
        have other : ¬ (key = "documents" ∧ value.items?.isSome = true ∧ Loses denied name value) :=
          fun page => plain ⟨page.1, page.2.1⟩
        simp only [allowed, other, false_and, and_false, false_or]

end

/-- Where nothing denied is left, nothing is lost. -/
theorem Clean.not_loses {v : Json} (clean : Clean denied v) : ¬ Loses denied name v := by
  intro loses
  induction loses with
  | here isDenied member => exact clean _ (.here _) _ member isDenied
  | item member _ ih => exact ih (clean_array_iff.mp clean _ member)
  | page _ member _ ih => exact ih ((clean_object_iff.mp clean _ member).2 _ rfl)

/-- Where something denied is left, something is lost: the list of a page as a whole, if it
is denied itself. -/
theorem Holds.exists_loses {v : Json} {members : List (String × Json)} (holds : Holds v members)
    {member : String × Json} (held : member ∈ members) (isDenied : member.1 ∈ denied) :
    ∃ name, Loses denied name v := by
  induction holds with
  | here => exact ⟨member.1, .here isDenied held⟩
  | item among _ ih =>
    obtain ⟨name, loses⟩ := ih held
    exact ⟨name, .item among loses⟩
  | page among _ ih =>
    by_cases gone : "documents" ∈ denied
    · exact ⟨"documents", .here gone among⟩
    · obtain ⟨name, loses⟩ := ih held
      exact ⟨name, .page gone among loses⟩

/-- A document is clean when it loses nothing. -/
theorem clean_iff_not_loses {v : Json} : Clean denied v ↔ ∀ name, ¬ Loses denied name v := by
  constructor
  · exact fun clean name => clean.not_loses
  · intro kept members holds m member isDenied
    obtain ⟨name, loses⟩ := holds.exists_loses member isDenied
    exact kept name loses

/-! ## Names in order -/

theorem mem_sortedNames_iff {names : List String} : name ∈ sortedNames names ↔ name ∈ names := by
  have held : name ∈ sortedNames names ↔
      ((Dict.ofList (names.map fun n => (n, ()))).get? name).isSome = true := by
    rw [sortedNames, Dict.keys, Dict.get?, Option.isSome_iff_ne_none, ne_eq,
      List.lookup_eq_none_iff]
    simp
  rw [held, Dict.get?_ofList, lastUnder?, Option.isSome_map, List.find?_isSome]
  simp

/-- A report names each field once, in ascending order. -/
theorem pairwise_sortedNames (names : List String) : (sortedNames names).Pairwise (· < ·) :=
  List.pairwise_map.mpr (Dict.ofList _).ascending

/-! ## Redaction -/

/-- Redaction leaves what is left of a value when every denied member is gone from where it
looks, and nothing else is; it reports the names that the value loses, ascending and each
once, so that it reports nothing exactly if it changes nothing; and of what it leaves it
takes nothing more. A name is denied if one of the tables under it does not admit the caller
for the method. -/
theorem redaction_deletes_denied_fields_only (v : Json) (fields : List (String × AuthTable))
    (m : AccessMethod) (auth : AuthContext) :
    let denied := deniedFields fields m auth
    let result := redact v fields m auth
    (∀ name, name ∈ denied ↔
      ∃ table, (name, table) ∈ fields ∧ fieldAllowed table m auth = false) ∧
    (∀ w, Cleared denied v w ↔ w = result.1) ∧
    (result.2.Pairwise (· < ·) ∧ ∀ name, name ∈ result.2 ↔ Loses denied name v) ∧
    (result.2 = [] ↔ result.1 = v) ∧
    redact result.1 fields m auth = (result.1, []) := by
  intro denied result
  have reported (w : Json) (name : String) :
      name ∈ sortedNames (found denied w) ↔ Loses denied name w :=
    mem_sortedNames_iff.trans (mem_found_iff w)
  have silent (w : Json) : sortedNames (found denied w) = [] ↔ Clean denied w := by
    simp only [List.eq_nil_iff_forall_not_mem, reported, clean_iff_not_loses]
  have clean : Clean denied result.1 := clean_strip v
  refine ⟨fun name => mem_deniedFields_iff, fun w => cleared_iff,
    ⟨pairwise_sortedNames _, reported v⟩, ⟨fun nothing => ?_, fun unchanged => ?_⟩,
    Prod.ext (strip_eq_self clean) ((silent _).mpr clean)⟩
  · exact strip_eq_self ((silent v).mp nothing)
  · exact (silent v).mpr (unchanged ▸ clean)

/-- Of two denied names, the one inside a denied page is not lost. -/
example :
    let field (name : String) : String × AuthTable := (name, fun _ => .forbidden)
    redact (.object [("a", .null), ("documents", .array [.object [("b", .null)]])])
      [field "documents", field "b"] HttpMethod.get .anonymous =
      (.object [("a", .null)], ["documents"]) := by
  decide

end EndpointTree.Redaction
